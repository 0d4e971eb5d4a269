import JspLayout.Proofs.RowPieces
import JspLayout.Proofs.Switches

/-! Rows laid out again.

    A row that takes a fragment whole is laid out as the fragment was. A fragment that is split in two
    is laid out by its first row as far as the braces and the headers of that row go, and by the second
    one from there. Main statement: where a fragment is split once and for all, its rows laid out in
    turn are the same rows and leave the indenter as the fragment did. -/

namespace JspLayout.Java

open Text

namespace Indenter

variable {st : Indenter}

/-! ### Fragments that are split once and for all -/

/-- Code that takes one row, whatever waits for it, and leaves no header waiting. -/
def Indivisible (code : Text) : Prop :=
  splitCaseLabel code = none ∧
    (code.getLast? = some '{' ∨ ∀ x ∈ splitControlHeader code, x.2 = [';'])

/-- A label and the statement after it that keep their rows. The label stands in the body of a `switch`
    that the indenter knows, and no bracket and no `switch` is opened in it. -/
def KeepsLabel (st : Indenter) (code head tail : Text) : Prop :=
  st.switches ≠ [] ∧ gain head = 0 ∧ Reaches head {} ∧
    opensSwitch (codeOf tail) = opensSwitch (codeOf code) ∧ Indivisible tail

/-- A control header and the statement after it that keep their rows. The braces of the header match,
    and a block that a closing brace before it closes has no extra depth. -/
def KeepsHeader (st : Indenter) (fragment head tail : Text) : Prop :=
  gain head = 0 ∧ (∀ x ∈ st.offsets, x.1 < (st.entered fragment).level) ∧ Indivisible tail

/-- A fragment that is not split, or whose two rows are not split again and stay as deep as they are. -/
def SplitsOnce (st : Indenter) (fragment : Text) : Prop :=
  (∀ x ∈ splitCaseLabel (laidCode (codePart fragment)), x.2 = [] ∨
      st.KeepsLabel (laidCode (codePart fragment)) x.1 x.2) ∧
    (splitCaseLabel (laidCode (codePart fragment)) = none →
      (laidCode (codePart fragment)).getLast? ≠ some '{' →
        ∀ x ∈ splitControlHeader (laidCode (codePart fragment)),
          x.2 = [] ∨ x.2 = [';'] ∨ st.KeepsHeader fragment x.1 x.2)

instance (code : Text) : Decidable (Indivisible code) :=
  inferInstanceAs (Decidable (splitCaseLabel code = none ∧
    (code.getLast? = some '{' ∨ ∀ x ∈ splitControlHeader code, x.2 = [';'])))

instance (s : Text) (q : Place) : Decidable (Reaches s q) :=
  inferInstanceAs (Decidable (({} : Place).walk? (solidKinds s) = some q))

instance (st : Indenter) (code head tail : Text) : Decidable (st.KeepsLabel code head tail) :=
  inferInstanceAs (Decidable (st.switches ≠ [] ∧ gain head = 0 ∧ Reaches head {} ∧
    opensSwitch (codeOf tail) = opensSwitch (codeOf code) ∧ Indivisible tail))

instance (st : Indenter) (fragment head tail : Text) :
    Decidable (st.KeepsHeader fragment head tail) :=
  inferInstanceAs (Decidable (gain head = 0 ∧
    (∀ x ∈ st.offsets, x.1 < (st.entered fragment).level) ∧ Indivisible tail))

instance (st : Indenter) (fragment : Text) : Decidable (st.SplitsOnce fragment) :=
  inferInstanceAs (Decidable ((∀ x ∈ splitCaseLabel (laidCode (codePart fragment)), x.2 = [] ∨
      st.KeepsLabel (laidCode (codePart fragment)) x.1 x.2) ∧
    (splitCaseLabel (laidCode (codePart fragment)) = none →
      (laidCode (codePart fragment)).getLast? ≠ some '{' →
        ∀ x ∈ splitControlHeader (laidCode (codePart fragment)),
          x.2 = [] ∨ x.2 = [';'] ∨ st.KeepsHeader fragment x.1 x.2)))

/-! ### Fragments that do the same -/

/-- The layout of a fragment depends on its code as it is laid out and its comment. -/
theorem lay_congr {f g : Text} (hf : codePart f ≠ [])
    (hcode : laidCode (codePart g) = laidCode (codePart f))
    (hcomment : (splitTrailingComment g).2 = (splitTrailingComment f).2) (st : Indenter) :
    st.lay g = st.lay f := by
  have hhead : (codePart g).head? = (codePart f).head? := by
    rw [← head?_laidCode, hcode, head?_laidCode]
  have hg : codePart g ≠ [] := by
    intro hnil
    rw [hnil, List.head?_nil] at hhead
    exact hf (List.head?_eq_none_iff.mp hhead.symm)
  have hleads : leads g = leads f := by rw [leads, leads, hhead]
  have hentered : st.entered g = st.entered f := by rw [entered, entered, hleads]
  rw [lay_of_code_ne_nil hg, lay_of_code_ne_nil hf, hcode, hcomment, hleads, hentered]

theorem applyBraces_congr {f g : Text} (hgain : gain g = gain f)
    (henters : entersSwitch g = entersSwitch f) (st : Indenter) :
    st.applyBraces (laidCode (codePart g)) (leads g) =
      st.applyBraces (laidCode (codePart f)) (leads f) := by
  rw [applyBraces_eq, applyBraces_eq, hgain, henters]

theorem layStatement_indivisible {code : Text} (h : Indivisible code)
    (hextra : st.extraDepth code = 0 ∨ code.getLast? ≠ some '{') (carried : Int) :
    st.layStatement carried code =
      ([⟨st.level + st.switchOffset + carried + st.extraDepth code, code⟩],
        { st with pending := 0 }) := by
  by_cases hlast : code.getLast? = some '{'
  · have hzero := hextra.resolve_right (by simp [hlast])
    rw [layStatement_of_brace _ _ hlast, hzero]
    simp
  · have hsplit := h.2.resolve_left hlast
    have hdepth : (if code.head? = some '{' then max (st.pending - 1) 0 else st.pending) =
        st.extraDepth code := rfl
    simp only [layStatement, hlast, if_false, hdepth, and_false]
    cases hheader : splitControlHeader code with
    | none => rfl
    | some x =>
      obtain ⟨head, tail⟩ := x
      obtain rfl : tail = [';'] := hsplit _ (by rw [hheader]; rfl)
      simp

/-! ### The rows of a fragment that is split -/

theorem codePart_row {code comment : Text} (h : Parted code comment) :
    codePart (rowText code comment) = code := by
  rw [codePart, h.split]

/-- A header alone is laid out in one row, and one more header waits. -/
theorem Steady.lay_heading (h : Steady st) {head : Text} (hheading : Heading head)
    (hparted : Parted head []) (hlaid : laidCode head = head) (hgain : gain head = 0)
    (hoffsets : ∀ x ∈ st.offsets, x.1 < (st.entered head).level) :
    st.lay head =
      ([⟨(st.entered head).level + (st.entered head).switchOffset + st.carried +
          (st.entered head).pending, head⟩],
        { st.entered head with pending := (st.entered head).pending + 1 }) := by
  have hcode : codePart head = head := codePart_row hparted
  have hcomment : (splitTrailingComment head).2 = [] := congrArg Prod.snd hparted.split
  obtain ⟨c, hlast, hc⟩ := hheading.getLast?
  have hne : head ≠ [] := by
    rintro rfl
    simp at hlast
  have hopens : head.getLast? ≠ some '{' := by
    rw [hlast, ne_eq, Option.some.injEq]
    rintro rfl
    exact absurd hc (by decide +kernel)
  have hhead := head?_of_splitControlHeader (hheading.again ▸ Option.some_ne_none _)
  obtain ⟨hlevel, hswitches, hoff, _, _⟩ := h.entered head
  have hbraces := applyBraces_idle
    { st.entered head with pending := (st.entered head).pending + 1 } hgain
    (by simp only [hlevel]; omega)
    (by
      intro s hs
      simp only [hswitches] at hs
      simpa [hlevel] using (List.mem_filter.mp hs).2)
  have hstays := leaveOffsets_idle
    { st.entered head with pending := (st.entered head).pending + 1 }
    (by simpa only [hoff] using hoffsets)
  rw [hcode, hlaid] at hbraces
  rw [lay_of_code_ne_nil (by rwa [hcode]), hcode, hlaid, hcomment, layCode, hheading.label]
  simp only [layStatement, hopens, if_false, hhead, hheading.again, if_true, hbraces, hstays,
    withComment]

/-- A label alone is laid out in one row, and no header waits any longer. -/
theorem Steady.lay_labelling (h : Steady st) {head : Text} (hlabel : Labelling head)
    (hparted : Parted head []) (hgain : gain head = 0) :
    st.lay head = ([⟨st.level + st.carried, head⟩], { st with pending := 0 }) := by
  have hcode : codePart head = head := codePart_row hparted
  have hcomment : (splitTrailingComment head).2 = [] := congrArg Prod.snd hparted.split
  have hbraces := applyBraces_idle { st with pending := 0 } hgain h.level
    fun s hs => (h.switches_le s hs).2
  have hstays := leaveOffsets_idle { st with pending := 0 }
    fun x hx => (h.offsets_lt x hx).2.1
  rw [lay_of_label (by rw [hcode, hlabel.again]), hcomment, hbraces, hstays]
  simp only [labelRows, if_true, withComment]

/-- The second row of a fragment that is split. -/
theorem lay_indivisible (st : Indenter) {tail comment : Text} (hparted : Parted tail comment) (hne : tail ≠ [])
    (hhead : tail.head? ≠ some '}') (hind : Indivisible tail)
    (hextra : st.extraDepth tail = 0 ∨ tail.getLast? ≠ some '{') :
    st.lay (rowText tail comment) =
      ([⟨st.level + st.switchOffset + st.carried + st.extraDepth tail, rowText tail comment⟩],
        ({ st with pending := 0 }.applyBraces (laidCode (codePart (rowText tail comment)))
          (leads (rowText tail comment))).leaveOffsets) := by
  have hcode : codePart (rowText tail comment) = tail := codePart_row hparted
  have hcomment : (splitTrailingComment (rowText tail comment)).2 = comment :=
    congrArg Prod.snd hparted.split
  have hlead : leads (rowText tail comment) = false := by rw [leads, hcode]; simpa using hhead
  rw [lay_of_statement (by rwa [hcode]) hlead (by rw [hcode, hind.1]), hcomment]
  simp only [hcode, layStatement_indivisible hind hextra, withComment_single]

/-! ### Rows laid out in turn -/

/-- The rows of a fragment, read as lines of their own, are laid out as the fragment was. All but the
    last end in code and with no closing brace, and the last ends as the fragment does. -/
structure Relaid (st : Indenter) (f : Text) : Prop where
  again : st.layAll ((st.lay f).1.map Row.text) = st.lay f
  rows : ∃ init r, (st.lay f).1.map Row.text = init ++ [r] ∧
    (∀ x ∈ init, RowPiece x ∧ modeAfter .code none x = .code ∧ endsWithBrace x = false) ∧
      RowPiece r ∧ modeAfter .code none r = modeAfter .code none f ∧
        endsWithBrace r = endsWithBrace f
  begins : ∀ x ∈ ((st.lay f).1.map Row.text).head?, isContinuation x = true → isContinuation f = true

theorem layAll_singleton (st : Indenter) (f : Text) : st.layAll [f] = st.lay f := by
  simp [Indenter.layAll]

/-- A fragment that takes one row. -/
theorem relaid_of_row {f : Text} (h : RowPiece f) (hcode : codePart f ≠ []) {depth : Int}
    (hrow : (st.lay f).1 =
      [⟨depth, rowText (laidCode (codePart f)) (splitTrailingComment f).2⟩]) : Relaid st f := by
  obtain ⟨hpiece, hkinds, hmode, hbegins⟩ := h.row hcode
  obtain ⟨_, _, _, hparted, _⟩ := exists_parted h.feed h.tight
  have hsplit := hparted.laid.split
  have hlay : st.lay (rowText (laidCode (codePart f)) (splitTrailingComment f).2) = st.lay f := by
    refine lay_congr hcode ?_ (by rw [hsplit]) st
    rw [codePart_row hparted.laid, laidCode_laidCode]
  have htexts : (st.lay f).1.map Row.text =
      [rowText (laidCode (codePart f)) (splitTrailingComment f).2] := by rw [hrow]; rfl
  refine ⟨?_, ⟨[], _, htexts, by simp, hpiece, hmode, ?_⟩, ?_⟩
  · rw [htexts, layAll_singleton, hlay]
  · rw [endsWithBrace_eq, endsWithBrace_eq, hkinds]
  · rw [htexts]
    rintro x ⟨⟩
    exact hbegins

/-- A fragment that is a comment alone. -/
theorem relaid_of_comment {f : Text} (h : RowPiece f) (hcode : codePart f = []) : Relaid st f := by
  obtain ⟨w, hw, hparts, _⟩ := exists_parted h.feed h.tight
  rw [hcode, List.nil_append] at hparts
  have hw' : w = [] := by
    cases w with
    | nil => rfl
    | cons c w =>
      have hc := h.tight.1 c (by rw [hparts]; rfl)
      rw [hw c List.mem_cons_self] at hc
      exact absurd hc (by simp)
  have htexts : (st.lay f).1.map Row.text = [f] := by
    rw [lay_of_code_eq_nil hcode, List.map_singleton]
    rw [hw', List.nil_append] at hparts
    rw [← hparts]
  refine ⟨by rw [htexts, layAll_singleton], ⟨[], f, htexts, by simp, h, rfl, rfl⟩, ?_⟩
  rw [htexts]
  rintro x ⟨⟩
  exact id

/-- A fragment that is split into two rows which together do what it does. -/
theorem relaid_of_halved {f head tail row : Text} (h : Halved f head tail row)
    (hsplits : SplitsOff head) {depth depth' : Int}
    (hrows : (st.lay f).1 = [⟨depth, head⟩, ⟨depth', row⟩]) {st₁ : Indenter}
    (hfirst : st.lay head = ([⟨depth, head⟩], st₁))
    (hsecond : st₁.lay row = ([⟨depth', row⟩], (st.lay f).2)) : Relaid st f := by
  have htexts : (st.lay f).1.map Row.text = [head] ++ [row] := by rw [hrows]; rfl
  refine ⟨?_, ⟨[head], row, htexts, ?_, h.second, h.mode, h.ends⟩, ?_⟩
  · rw [htexts]
    simp only [List.singleton_append, Indenter.layAll, hfirst, hsecond]
    rw [← hrows]
  · simp only [List.mem_singleton, forall_eq]
    exact ⟨h.first, hsplits.mode, hsplits.open_end⟩
  · rw [htexts]
    rintro x ⟨⟩
    exact h.begins

/-- The level that a fragment adds is what its two rows add. -/
theorem gain_of_halved {f head v : Text} (hcode : laidCode (codePart f) = head ++ v)
    (hseal : Sealed head v.head?) (hhead : codePart head = head) (hne : head ≠ [])
    (h : Halved f head v.trim (rowText v.trim (splitTrailingComment f).2)) :
    leads head = leads f ∧
      gain f = gain head + gain (rowText v.trim (splitTrailingComment f).2) := by
  have hrow : codePart (rowText v.trim (splitTrailingComment f).2) = v.trim := codePart_row h.parted
  have hlead : leads head = leads f := by
    obtain ⟨c, t, rfl⟩ := List.exists_cons_of_ne_nil hne
    rw [leads, leads, hhead, ← head?_laidCode (codePart f), hcode]
    rfl
  have hlead' : leads (rowText v.trim (splitTrailingComment f).2) = false := by
    rw [leads, hrow]
    simpa using h.no_brace
  have hbraces := countBraces_laidCode (codePart f)
  rw [hcode, countBraces_eq, solidKinds_append hseal, ← solidKinds_trim v, List.count_append,
    List.count_append] at hbraces
  refine ⟨hlead, ?_⟩
  rw [gain, gain, gain, hlead, hlead', hrow, hhead, ← hbraces, countBraces_eq head,
    countBraces_eq v.trim]
  simp only [Bool.false_eq_true, if_false]
  omega

/-- A control header and the statement after it. -/
theorem Steady.relaid_header (h : Steady st) {f head tail : Text} (hf : RowPiece f)
    (hcode : codePart f ≠ []) (hlabel : splitCaseLabel (laidCode (codePart f)) = none)
    (hlast : (laidCode (codePart f)).getLast? ≠ some '{')
    (hheader : splitControlHeader (laidCode (codePart f)) = some (head, tail)) (hne : tail ≠ [])
    (hsemi : tail ≠ [';']) (hkeeps : st.KeepsHeader f head tail) : Relaid st f := by
  obtain ⟨hgain, hoffsets, hind⟩ := hkeeps
  obtain ⟨v, hparts, rfl, hheading, hapart⟩ := exists_heading hheader
  obtain ⟨_, _, _, hparted, _⟩ := exists_parted hf.feed hf.tight
  have hsplits := hheading.splitsOff hparted.laid hparts
  have hhalved := hf.halved hcode hparts hsplits (hheading.sealed _) hapart hne
  have hhead : codePart head = head := codePart_row hsplits.parted
  obtain ⟨hlead, hsum⟩ := gain_of_halved hparts (hheading.sealed _) hhead hsplits.ne hhalved
  have hentered : st.entered head = st.entered f := by rw [Indenter.entered, Indenter.entered, hlead]
  have hlaid : laidCode head = head :=
    hheading.laidCode hapart (by rw [← hparts, laidCode_laidCode])
  have hbrace : v.trim.head? ≠ some '{' := fun hopen =>
    hlast (hhalved.last.trans (hhalved.opening hopen))
  have hbrace' := head?_of_splitControlHeader (hheader ▸ Option.some_ne_none _)
  have hfirst := h.lay_heading hheading hsplits.parted hlaid hgain (by rwa [hentered])
  rw [hentered] at hfirst
  obtain ⟨hlevel, _, hoff, _⟩ := h.entered f
  have hcarried : ({ st.entered f with pending := (st.entered f).pending + 1 } : Indenter).carried =
      st.carried := by
    rw [carried_eq_sum fun x hx => (h.offsets_lt x hx).2.1, ← hoff]
    exact carried_eq_sum (by simpa only [hoff] using hoffsets)
  have henters : ∀ {g : Text}, (laidCode (codePart g)).getLast? ≠ some '{' →
      entersSwitch g = false := fun hg => by simp [entersSwitch, hg]
  have hrow : laidCode (codePart (rowText v.trim (splitTrailingComment f).2)) = v.trim := by
    rw [codePart_row hhalved.parted]
    exact if_neg hhalved.no_brace
  have hlast' : v.trim.getLast? ≠ some '{' := hhalved.last ▸ hlast
  have hbraces : ∀ st : Indenter,
      st.applyBraces (laidCode (codePart (rowText v.trim (splitTrailingComment f).2)))
          (leads (rowText v.trim (splitTrailingComment f).2)) =
        st.applyBraces (laidCode (codePart f)) (leads f) := by
    refine applyBraces_congr (by rw [hsum, hgain, Int.zero_add]) ?_
    rw [henters hlast, henters (by rwa [hrow])]
  have hlay := lay_of_code_ne_nil hcode st
  rw [layCode, hlabel] at hlay
  simp only [layStatement, hlast, hbrace', if_false, hheader, hne, hsemi] at hlay
  refine relaid_of_halved hhalved hsplits (by rw [hlay, withComment, withComment_single]; simp) hfirst ?_
  rw [lay_indivisible _ hhalved.parted hne hhalved.no_brace hind (Or.inr hlast'), hbraces, hcarried,
    extraDepth, if_neg hbrace, hlay, Prod.mk.injEq, List.singleton_inj, Row.mk.injEq]
  exact ⟨⟨by simp only [switchOffset]; omega, rfl⟩, rfl⟩

/-- A label and the statement after it. -/
theorem Steady.relaid_label (h : Steady st) {f head tail : Text} (hf : RowPiece f)
    (hcode : codePart f ≠ []) (hlabel : splitCaseLabel (laidCode (codePart f)) = some (head, tail))
    (hne : tail ≠ []) (hkeeps : st.KeepsLabel (laidCode (codePart f)) head tail) : Relaid st f := by
  obtain ⟨hswitches, hgain, hreach, hopens, hind⟩ := hkeeps
  obtain ⟨_, _, _, hparted, _⟩ := exists_parted hf.feed hf.tight
  obtain ⟨v, hparts, rfl, hlabelling⟩ := exists_labelling hparted.laid.tight hlabel
  have hsplits := hlabelling.splitsOff hreach hparted.laid hparts
  have hhalved := hf.halved hcode hparts hsplits (hlabelling.sealed _) (hlabelling.wordsApart _) hne
  have hhead : codePart head = head := codePart_row hsplits.parted
  obtain ⟨_, hsum⟩ := gain_of_halved hparts (hlabelling.sealed _) hhead hsplits.ne hhalved
  have hlead : leads f = false := by
    refine decide_eq_false fun hbrace => ?_
    rw [splitCaseLabel_of_brace ((head?_laidCode _).trans hbrace)] at hlabel
    exact absurd hlabel (by simp)
  have hentered : st.entered f = st := by simp [Indenter.entered, hlead]
  have hrow : laidCode (codePart (rowText v.trim (splitTrailingComment f).2)) = v.trim := by
    rw [codePart_row hhalved.parted]
    exact if_neg hhalved.no_brace
  have hbraces : ∀ st : Indenter,
      st.applyBraces (laidCode (codePart (rowText v.trim (splitTrailingComment f).2)))
          (leads (rowText v.trim (splitTrailingComment f).2)) =
        st.applyBraces (laidCode (codePart f)) (leads f) := by
    refine applyBraces_congr (by rw [hsum, hgain, Int.zero_add]) ?_
    rw [entersSwitch, entersSwitch, hrow, hsum, hgain, Int.zero_add, hhalved.last, hopens]
  have hoffset : ({ st with pending := 0 } : Indenter).switchOffset = 1 := by
    have heq : st.switchOffset = 1 := by
      rw [switchOffset_eq fun s hs => (h.switches_le s hs).2, if_neg hswitches]
    exact heq
  have hextra : ({ st with pending := 0 } : Indenter).extraDepth v.trim = 0 := by
    rw [extraDepth]
    split <;> rfl
  have hlay := lay_of_code_ne_nil hcode st
  rw [layCode, hlabel, hentered] at hlay
  simp only [labelRows, if_neg hne] at hlay
  refine relaid_of_halved hhalved hsplits (by rw [hlay, withComment, withComment_single]; simp)
    (h.lay_labelling hlabelling hsplits.parted hgain) ?_
  rw [lay_indivisible _ hhalved.parted hne hhalved.no_brace hind (Or.inl hextra), hbraces, hoffset,
    hextra, hlay, Prod.mk.injEq, List.singleton_inj, Row.mk.injEq]
  exact ⟨⟨by simp only [carried]; omega, rfl⟩, rfl⟩

/-- The rows of a fragment that is split at most once are laid out again as they are, and leave the
    indenter as the fragment did. -/
theorem Steady.relaid (h : Steady st) {f : Text} (hf : RowPiece f) (honce : st.SplitsOnce f) :
    Relaid st f := by
  by_cases hcode : codePart f = []
  · exact relaid_of_comment hf hcode
  have hlay := lay_of_code_ne_nil hcode st
  obtain ⟨hlabels, hheaders⟩ := honce
  obtain ⟨_, _, _, hparted, _⟩ := exists_parted hf.feed hf.tight
  cases hlabel : splitCaseLabel (laidCode (codePart f)) with
  | some x =>
    obtain ⟨head, tail⟩ := x
    by_cases hne : tail = []
    · -- the label is all of the code
      obtain ⟨v, hparts, hv, _⟩ := exists_labelling hparted.laid.tight hlabel
      have htight := hparted.laid.tight
      rw [hparts] at htight
      have hnil : v = [] :=
        eq_nil_of_blank ((trim_eq_nil_iff v).mp (hv.symm.trans hne)) htight.last_of_append
      rw [hnil, List.append_nil] at hparts
      rw [layCode, hlabel, hne] at hlay
      simp only [labelRows, if_true, withComment_single] at hlay
      exact relaid_of_row hf hcode (by rw [hlay, hparts])
    · exact h.relaid_label hf hcode hlabel hne ((hlabels _ hlabel).resolve_left hne)
  | none =>
    rw [layCode, hlabel] at hlay
    by_cases hlast : (laidCode (codePart f)).getLast? = some '{'
    · simp only [layStatement_of_brace _ _ hlast, withComment_single] at hlay
      exact relaid_of_row hf hcode (by rw [hlay])
    cases hheader : splitControlHeader (laidCode (codePart f)) with
    | none =>
      simp only [layStatement, hlast, if_false, hheader, withComment_single] at hlay
      exact relaid_of_row hf hcode (by rw [hlay])
    | some x =>
      obtain ⟨head, tail⟩ := x
      by_cases hne : tail = []
      · simp only [layStatement, hlast, if_false, hheader, hne, if_true, withComment_single] at hlay
        exact relaid_of_row hf hcode (by rw [hlay])
      by_cases hsemi : tail = [';']
      · simp only [layStatement, hlast, if_false, hheader, hsemi, if_true, List.cons_ne_nil,
          withComment_single] at hlay
        exact relaid_of_row hf hcode (by rw [hlay])
      · have hkeeps := ((hheaders hlabel hlast _ hheader).resolve_left hne).resolve_left hsemi
        exact h.relaid_header hf hcode hlabel hlast hheader hne hsemi hkeeps

end Indenter

end JspLayout.Java
