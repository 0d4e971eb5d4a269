import JspLayout.Proofs.Nesting

/-! The layout of `switch` statements.

    The indenter knows the body of a `switch` by the brace at the end of the line that opens it, and
    one level stands for all the `switch` bodies that are open. Which bodies it knows at a place is
    read off the fragments before that place. Main statement: the closing brace of a `switch` is laid
    out as deep as its header; its labels are one level deeper unless the header itself stands in a
    body that the indenter knows; and its statements are deeper than its labels if the indenter knows
    the body itself or one around it. -/

namespace JspLayout.Java

open Text

/-! ### One fragment on every line -/

/-- A text with one fragment on every line, once the continuations are joined. -/
def LineByLine (code : Text) : Prop :=
  ∀ l ∈ (joinContinuations code).lines, scan l.trim true = ([l.trim], false)

instance (code : Text) : Decidable (LineByLine code) :=
  List.decidableBAll (fun l : Text => scan l.trim true = ([l.trim], false)) (joinContinuations code).lines

/-- The fragments of a text that has one on every line. -/
def lineFragments (code : Text) : List Text := (joinContinuations code).lines.map trim

namespace Indenter

variable {st : Indenter}

theorem Steady.inComment_lay (h : Steady st) (f : Text) : (st.lay f).2.inComment = st.inComment := by
  obtain ⟨pending, offsets, hnext, _⟩ := h.lay_next f
  rw [hnext]

theorem Steady.layLine_fragment (h : Steady st) (hst : st.inComment = false) {line : Text}
    (hline : scan line.trim true = ([line.trim], false)) : st.layLine line = st.lay line.trim := by
  have hne : line.trim ≠ [] := by
    intro hnil
    rw [hnil] at hline
    exact absurd hline (by decide)
  have hout : (st.lay line.trim).2.inComment = false := (h.inComment_lay _).trans hst
  simp only [Indenter.layLine, hne, if_false, hst, hline, Indenter.layAll, List.append_nil,
    Bool.false_eq_true]
  rw [← hout]

theorem Steady.layLines_fragments : ∀ {lines : List Text} {st : Indenter}, Steady st →
    st.inComment = false → (∀ l ∈ lines, scan l.trim true = ([l.trim], false)) →
      (st.layLines lines).1 = (st.layAll (lines.map trim)).1
  | [], _, _, _, _ => rfl
  | line :: lines, st, h, hst, hlines => by
    obtain ⟨hline, hrest⟩ := List.forall_mem_cons.mp hlines
    have ih := layLines_fragments (h.lay line.trim) ((h.inComment_lay _).trans hst) hrest
    rw [layLines, List.map_cons, Indenter.layAll, h.layLine_fragment hst hline]
    simp only [ih]

end Indenter

theorem layout_lineByLine {code : Text} (h : LineByLine code) :
    layout code = (({} : Indenter).layAll (lineFragments code)).1 :=
  Indenter.steady_start.layLines_fragments rfl h

/-! ### The bodies that are known -/

theorem kept_add (k n : Int) (f : Text) : kept (k + n) f = k + kept n f := by
  rw [kept, kept]
  split <;> omega

theorem nest_add {k : Int} (hk : 0 ≤ k) : ∀ {fs : List Text} {n m : Int}, nest n fs = some m →
    nest (k + n) fs = some (k + m)
  | [], n, m, h => by
    obtain rfl : n = m := by simpa [nest] using h
    rfl
  | f :: fs, n, m, h => by
    obtain ⟨hkept, hgain, hrest⟩ := nest_cons_eq_some_iff.mp h
    have hadd := kept_add k n f
    refine nest_cons_eq_some_iff.mpr ⟨by omega, hgain, ?_⟩
    rw [hadd, Int.add_assoc]
    exact nest_add hk hrest

theorem nest_concat_eq_some_iff {n k : Int} {fs : List Text} {f : Text} :
    nest n (fs ++ [f]) = some k ↔
      ∃ m, nest n fs = some m ∧ 0 ≤ kept m f ∧ 0 ≤ gain f ∧ kept m f + gain f = k := by
  rw [nest_append, Option.bind_eq_some_iff]
  refine exists_congr fun m => and_congr_right fun _ => ?_
  rw [nest_cons_eq_some_iff, nest, Option.some.injEq]

/-- The blocks that the second of two lists leaves open come on top of those of the first. -/
theorem nest_append_open {fs inner : List Text} {f : Text} {s k : Int}
    (hs : nest 0 (fs ++ [f]) = some s) (hk : nest 0 inner = some k) :
    nest 0 (fs ++ f :: inner) = some (s + k) := by
  have hpos : 0 ≤ s := by
    obtain ⟨m, _, hkept, hgain, rfl⟩ := nest_concat_eq_some_iff.mp hs
    omega
  rw [List.append_cons, nest_append, hs]
  have := nest_add hpos hk
  rwa [Int.add_zero] at this

/-- A `switch` body that was opened with its brace at the end of a line of `before` and that is still
    open after the closing brace with which `header` may begin. -/
def Enclosed (before : List Text) (header : Text) : Prop :=
  ∃ pre outer inner, before = pre ++ outer :: inner ∧ Indenter.entersSwitch outer = true ∧
    (nest 0 (inner ++ [header])).isSome = true

namespace Indenter

theorem layAll_level {fs : List Text} {m : Int} (hm : nest 0 fs = some m) :
    (({} : Indenter).layAll fs).2.level = m := by
  have := (Steady.layAll_frame (Int.le_refl 0) steady_start rfl hm).1
  omega

theorem mem_switches_concat {fs : List Text} {f : Text} {m : Int} (hm : nest 0 fs = some m)
    (hkept : 0 ≤ kept m f) (hgain : 0 ≤ gain f) (s : Int) :
    s ∈ (({} : Indenter).layAll (fs ++ [f])).2.switches ↔
      entersSwitch f = true ∧ s = kept m f + gain f ∨
        s ∈ (({} : Indenter).layAll fs).2.switches ∧ s ≤ kept m f := by
  have hlevel := layAll_level hm
  obtain ⟨pending, offsets, hnext, _⟩ := (steady_start.layAll fs).lay_next f
  have hafter : (({} : Indenter).layAll fs).2.levelAfter f = kept m f + gain f := by
    rw [levelAfter, hlevel]
    omega
  rw [layAll_append]
  simp only [layAll, hnext, hafter, hlevel, List.mem_filter, List.mem_append, decide_eq_true_eq,
    Int.max_eq_left hkept]
  constructor
  · rintro ⟨h | h, _⟩
    · split at h
      · next he => exact Or.inl ⟨he, by simpa using h⟩
      · simp at h
    · exact Or.inr h
  · rintro (⟨he, rfl⟩ | ⟨h, hle⟩)
    · exact ⟨Or.inl (by simp [he]), Int.le_refl _⟩
    · exact ⟨Or.inr ⟨h, hle⟩, by omega⟩

/-- The indenter keeps the level of a `switch` body as long as no fragment closes the body. -/
theorem mem_switches_iff {before : List Text} : ∀ {n : Int}, nest 0 before = some n → ∀ s : Int,
    s ∈ (({} : Indenter).layAll before).2.switches ↔
      ∃ pre outer inner, before = pre ++ outer :: inner ∧ entersSwitch outer = true ∧
        nest 0 (pre ++ [outer]) = some s ∧ (nest 0 inner).isSome = true := by
  induction before using List.reverseRecOn with
  | nil =>
    intro n _ s
    simp [layAll]
  | append_singleton fs f ih =>
    intro n hn s
    obtain ⟨m, hm, hkept, hgain, rfl⟩ := nest_concat_eq_some_iff.mp hn
    rw [mem_switches_concat hm hkept hgain]
    constructor
    · rintro (⟨he, rfl⟩ | ⟨h, hle⟩)
      · exact ⟨fs, f, [], rfl, he, hn, rfl⟩
      · obtain ⟨pre, outer, inner, rfl, he, hs, hinner⟩ := (ih hm s).mp h
        obtain ⟨k, hk⟩ := Option.isSome_iff_exists.mp hinner
        obtain rfl : s + k = m := Option.some.inj ((nest_append_open hs hk).symm.trans hm)
        rw [kept_add] at hle
        refine ⟨pre, outer, inner ++ [f], by simp, he, hs, ?_⟩
        refine Option.isSome_iff_exists.mpr ⟨kept k f + gain f, ?_⟩
        exact nest_concat_eq_some_iff.mpr ⟨k, hk, by omega, hgain, rfl⟩
    · rintro ⟨pre, outer, inner, hsplit, he, hs, hinner⟩
      rcases List.eq_nil_or_concat inner with rfl | ⟨inner, g, rfl⟩
      · obtain ⟨rfl, hf⟩ := List.append_inj' hsplit rfl
        obtain rfl : f = outer := by simpa using hf
        exact Or.inl ⟨he, Option.some.inj (hs.symm.trans hn)⟩
      · rw [List.concat_eq_append] at hsplit hinner
        have hsplit' : fs ++ [f] = (pre ++ outer :: inner) ++ [g] := by simpa using hsplit
        obtain ⟨rfl, hf⟩ := List.append_inj' hsplit' rfl
        obtain rfl : f = g := by simpa using hf
        obtain ⟨j, hj⟩ := Option.isSome_iff_exists.mp hinner
        obtain ⟨k, hk, hle, _⟩ := nest_concat_eq_some_iff.mp hj
        obtain rfl : s + k = m := Option.some.inj ((nest_append_open hs hk).symm.trans hm)
        refine Or.inr ⟨(ih hm s).mpr ⟨pre, outer, inner, rfl, he, hs, by simp [hk]⟩, ?_⟩
        rw [kept_add]
        omega

/-- The indenter knows a `switch` body around a header if one encloses the header. -/
theorem switches_entered_ne_nil_iff {before : List Text} {header : Text} {n : Int}
    (hn : nest 0 before = some n) (hkept : 0 ≤ kept n header) (hgain : 0 ≤ gain header) :
    ((({} : Indenter).layAll before).2.entered header).switches ≠ [] ↔ Enclosed before header := by
  have hswitches := ((steady_start.layAll before).entered header).2.1
  rw [layAll_level hn, Int.max_eq_left hkept] at hswitches
  rw [hswitches]
  constructor
  · intro h
    obtain ⟨s, hs⟩ := List.exists_mem_of_ne_nil _ h
    obtain ⟨hs, hle⟩ := List.mem_filter.mp hs
    obtain ⟨pre, outer, inner, rfl, he, hs, hinner⟩ := (mem_switches_iff hn s).mp hs
    obtain ⟨k, hk⟩ := Option.isSome_iff_exists.mp hinner
    obtain rfl : s + k = n := Option.some.inj ((nest_append_open hs hk).symm.trans hn)
    simp only [kept_add, decide_eq_true_eq] at hle
    refine ⟨pre, outer, inner, rfl, he, Option.isSome_iff_exists.mpr ⟨kept k header + gain header, ?_⟩⟩
    exact nest_concat_eq_some_iff.mpr ⟨k, hk, by omega, hgain, rfl⟩
  · rintro ⟨pre, outer, inner, rfl, he, hsome⟩
    obtain ⟨j, hj⟩ := Option.isSome_iff_exists.mp hsome
    obtain ⟨k, hk, hle, _⟩ := nest_concat_eq_some_iff.mp hj
    have hn' := hn
    rw [List.append_cons, nest_append, Option.bind_eq_some_iff] at hn'
    obtain ⟨s, hs, _⟩ := hn'
    obtain rfl : s + k = n := Option.some.inj ((nest_append_open hs hk).symm.trans hn)
    refine List.ne_nil_of_mem (List.mem_filter.mpr ⟨(mem_switches_iff hn s).mpr
      ⟨pre, outer, inner, rfl, he, hs, by simp [hk]⟩, ?_⟩)
    simp only [kept_add, decide_eq_true_eq]
    omega

/-! ### Labels and statements -/

variable {st : Indenter}

theorem switchOffset_eq (h : ∀ s ∈ st.switches, s ≤ st.level) :
    st.switchOffset = if st.switches = [] then 0 else 1 := by
  rw [switchOffset]
  split
  · next hnil => rw [hnil, if_pos rfl]
  · next s l hs =>
    rw [if_pos (h s (by simp [hs])), hs, if_neg (by simp)]

theorem Steady.switchOffset_entered (h : Steady st) (f : Text) :
    (st.entered f).switchOffset = if (st.entered f).switches = [] then 0 else 1 := by
  obtain ⟨hlevel, hswitches, _⟩ := h.entered f
  refine switchOffset_eq fun s hs => ?_
  rw [hswitches] at hs
  rw [hlevel]
  simpa using (List.mem_filter.mp hs).2

theorem map_depth_withComment (comment : Text) : ∀ rows : List Row,
    (withComment comment rows).map Row.depth = rows.map Row.depth
  | [] => rfl
  | [row] => by
    rw [withComment]
    split <;> rfl
  | row :: row' :: rows => by
    rw [withComment, List.map_cons, map_depth_withComment comment (row' :: rows), List.map_cons]
    · rfl
    · exact List.cons_ne_nil _ _

theorem laidCode_of_label {code : Text} (h : splitCaseLabel code ≠ none) : laidCode code = code := by
  rw [laidCode, if_neg fun hbrace => h (splitCaseLabel_of_brace hbrace)]

/-- What a label does: it is laid out in its own rows, and no header waits any longer. -/
theorem lay_of_label {f head tail : Text} (h : splitCaseLabel (codePart f) = some (head, tail))
    (st : Indenter) : st.lay f =
      (withComment (splitTrailingComment f).2 (labelRows (st.level + st.carried) head tail),
        ({ st with pending := 0 }.applyBraces (laidCode (codePart f)) (leads f)).leaveOffsets) := by
  have hsome : splitCaseLabel (codePart f) ≠ none := by rw [h]; simp
  have hne : codePart f ≠ [] := fun hnil => hsome (by rw [hnil]; rfl)
  have hlead : leads f = false := decide_eq_false fun hbrace => hsome (splitCaseLabel_of_brace hbrace)
  have hentered : st.entered f = st := by simp [entered, hlead]
  rw [lay_of_code_ne_nil hne, laidCode_of_label hsome, layCode, h, hentered]

/-- What code does that neither closes a block first nor begins with a label. -/
theorem lay_of_statement {f : Text} (hne : codePart f ≠ []) (hlead : leads f = false)
    (hlabel : splitCaseLabel (codePart f) = none) (st : Indenter) : st.lay f =
      (withComment (splitTrailingComment f).2 (st.layStatement st.carried (codePart f)).1,
        ((st.layStatement st.carried (codePart f)).2.applyBraces (laidCode (codePart f))
          (leads f)).leaveOffsets) := by
  have hcode : laidCode (codePart f) = codePart f := if_neg (of_decide_eq_false hlead)
  have hentered : st.entered f = st := by simp [entered, hlead]
  rw [lay_of_code_ne_nil hne, hcode, layCode, hlabel, hentered]

/-- A label is laid out at the level of its block, whatever `switch` bodies are open. -/
theorem lay_label {f : Text} (h : splitCaseLabel (codePart f) ≠ none) (st : Indenter) :
    ∃ text rows, (st.lay f).1 = ⟨st.level + st.carried, text⟩ :: rows := by
  obtain ⟨⟨head, tail⟩, hsplit⟩ := Option.ne_none_iff_exists'.mp h
  obtain ⟨rows, hrows⟩ : ∃ rows, labelRows (st.level + st.carried) head tail =
      ⟨st.level + st.carried, head⟩ :: rows := by
    rw [labelRows]
    split <;> exact ⟨_, rfl⟩
  rw [lay_of_label hsplit, hrows]
  obtain ⟨text, rows', hcomment, _⟩ :=
    withComment_cons (splitTrailingComment f).2 ⟨st.level + st.carried, head⟩ rows
  exact ⟨text, rows', hcomment⟩

theorem depth_layStatement {row : Row} (hp : 0 ≤ st.pending) {carried : Int} {code : Text}
    (h : row ∈ (st.layStatement carried code).1) :
    st.level + st.switchOffset + carried ≤ row.depth := by
  have hextra : 0 ≤ (if code.head? = some '{' then max (st.pending - 1) 0 else st.pending) := by
    split <;> omega
  simp only [layStatement] at h
  generalize (if code.head? = some '{' then max (st.pending - 1) 0 else st.pending) = extra at *
  have hrow : row.depth = st.level + st.switchOffset + carried + extra ∨
      row.depth = st.level + st.switchOffset + carried + extra + 1 := by
    split at h
    · split at h
      · exact Or.inl (by rw [List.mem_singleton.mp h])
      · split at h
        · exact Or.inl (by rw [List.mem_singleton.mp h])
        · rcases List.mem_cons.mp h with h | h
          · exact Or.inl (by rw [h])
          · exact Or.inr (by rw [List.mem_singleton.mp h])
    · exact Or.inl (by rw [List.mem_singleton.mp h])
  omega

/-- No row of a fragment that is not a label lies above the block it stands in. -/
theorem Steady.depth_statement (h : Steady st) {f : Text} (hlabel : splitCaseLabel (codePart f) = none)
    {row : Row} (hrow : row ∈ (st.lay f).1) :
    (st.entered f).level + (st.entered f).switchOffset + st.carried ≤ row.depth := by
  by_cases hne : codePart f = []
  · have hlead : leads f = false := by simp [leads, hne]
    have hp := h.pending
    rw [lay_of_code_eq_nil hne, List.mem_singleton] at hrow
    rw [Indenter.entered, hlead, if_neg (by simp), hrow]
    simp only
    omega
  · rw [lay_of_code_ne_nil hne, layCode, splitCaseLabel_laidCode hlabel] at hrow
    have hdepth : row.depth ∈
        ((st.entered f).layStatement st.carried (laidCode (codePart f))).1.map Row.depth := by
      rw [← map_depth_withComment (splitTrailingComment f).2]
      exact List.mem_map_of_mem hrow
    obtain ⟨row', hrow', hsame⟩ := List.mem_map.mp hdepth
    rw [← hsame]
    exact depth_layStatement (h.entered f).2.2.2.1 hrow'

/-! ### The body of a switch -/

/-- A fragment and the fragments after it that begin a `switch` statement: the line ends with the
    brace of the body, or the line is the header alone and the next line is the brace alone. -/
def OpensBody (header : Text) (opening : List Text) : Prop :=
  splitCaseLabel (codePart header) = none ∧
    (opening = [] ∧ gain header = 1 ∧ entersSwitch header = true ∨
      ∃ brace head, opening = [brace] ∧ codePart brace = ['{'] ∧ gain header = 0 ∧
        leads header = false ∧ (codePart header).getLast? ≠ some '{' ∧
          opensSwitch (codeOf (codePart header)) = true ∧
            splitControlHeader (codePart header) = some (head, []))

theorem head?_of_splitControlHeader {code : Text} (h : splitControlHeader code ≠ none) :
    code.head? ≠ some '{' := by
  intro hbrace
  obtain ⟨t, rfl⟩ := List.head?_eq_some_iff.mp hbrace
  refine h ?_
  rw [splitControlHeader_eq]
  simp [afterBrace, controlWord?, afterElseIf?, controlWords, afterWord?, after?]

/-- A header alone on its line changes nothing but that one more header waits for its statement. -/
theorem Steady.lay_header (h : Steady st) {f head : Text} (hlead : leads f = false)
    (hgain : gain f = 0) (hlast : (codePart f).getLast? ≠ some '{')
    (hlabel : splitCaseLabel (codePart f) = none)
    (hheader : splitControlHeader (codePart f) = some (head, [])) :
    st.lay f = ([⟨st.level + st.switchOffset + st.carried + st.pending,
        rowText (codePart f) (splitTrailingComment f).2⟩],
      { st with pending := st.pending + 1 }) := by
  have hne : codePart f ≠ [] := by
    intro hnil
    rw [hnil, show splitControlHeader [] = none by decide] at hheader
    simp at hheader
  have hhead := head?_of_splitControlHeader (hheader ▸ Option.some_ne_none _)
  have hbraces := applyBraces_idle { st with pending := st.pending + 1 } hgain h.level
    fun s hs => (h.switches_le s hs).2
  have hstays := leaveOffsets_idle { st with pending := st.pending + 1 }
    fun x hx => (h.offsets_lt x hx).2.1
  rw [lay_of_statement hne hlead hlabel]
  simp only [layStatement, hlast, hhead, hheader, if_false, if_true, hbraces, hstays, withComment_single]

/-- A brace alone on its line opens a block and does nothing else. -/
theorem lone_brace {f : Text} (hf : codePart f = ['{']) :
    leads f = false ∧ gain f = 1 ∧ laidCode (codePart f) = ['{'] ∧ entersSwitch f = false := by
  have hlead : leads f = false := by rw [leads, hf]; decide
  refine ⟨hlead, by rw [gain, hlead, hf]; decide, by rw [hf]; decide, ?_⟩
  rw [entersSwitch, hf]
  simp [show opensSwitch (codeOf (laidCode ['{'])) = false by decide]

/-- It belongs to the header that waits last, and is laid out where that header is. -/
theorem Steady.lay_lone_brace (h : Steady st) {f : Text} (hf : codePart f = ['{'])
    (hp : 0 < st.pending) :
    ∃ text, (st.lay f).1 =
        [⟨st.level + st.switchOffset + st.carried + (st.pending - 1), text⟩] ∧
      (st.lay f).2.carried = st.carried + (st.pending - 1) ∧ (st.lay f).2.level = st.level + 1 ∧
      (st.lay f).2.switches = st.switches := by
  obtain ⟨hlead, hgain, hcode, henters⟩ := lone_brace hf
  have hkept : kept st.level f = st.level := by simp [kept, hlead]
  have hentered : st.entered f = st := by simp [Indenter.entered, hlead]
  have hextra : st.extraDepth ['{'] = st.pending - 1 := by
    rw [extraDepth, List.head?_cons, if_pos rfl]
    omega
  have hlevel : 0 ≤ kept st.level f := hkept.symm ▸ h.level
  obtain ⟨text, hrow, hcarried⟩ :=
    h.lay_opening hlevel hgain (by rw [hcode]; rfl) (by rw [hcode]; decide)
  rw [hentered, hcode, hextra] at hrow hcarried
  obtain ⟨hafter, _, _⟩ := h.lay_frame (Int.le_refl 0) hlevel (by omega)
  refine ⟨text, hrow, hcarried, by rw [hafter, hkept, hgain], ?_⟩
  obtain ⟨pending, offsets, hnext, _⟩ := h.lay_next f
  rw [hnext, henters]
  simp only [Bool.false_eq_true, if_false, List.nil_append, List.filter_filter]
  refine List.filter_eq_self.mpr fun s hs => ?_
  have := (h.switches_le s hs).2
  simp only [levelAfter, hkept, hgain, Bool.and_eq_true, decide_eq_true_eq]
  omega

/-- The brace of a `switch` is laid out under its header or at its end, and the body lies one level
    deeper, with the extra depth of the header. -/
theorem Steady.lay_opensBody (h : Steady st) {header : Text} {opening : List Text}
    (hopens : OpensBody header opening) (hkept : 0 ≤ kept st.level header) :
    ∃ row, (st.lay header).1 = [row] ∧
      ((st.lay header).2.layAll opening).2.level = kept st.level header + 1 ∧
      row.depth = kept st.level header + (st.entered header).switchOffset +
        ((st.lay header).2.layAll opening).2.carried ∧
      (((st.lay header).2.layAll opening).2.switches = [] ↔
        opening ≠ [] ∧ (st.entered header).switches = []) := by
  obtain ⟨hlabel, ⟨rfl, hgain, henters⟩ | ⟨brace, head, rfl, hbrace, hgain, hlead, hlast, _, hheader⟩⟩ :=
    hopens
  · have hlast := (of_decide_eq_true henters).2.1
    obtain ⟨text, hrow, hcarried⟩ := h.lay_opening hkept hgain hlast (splitCaseLabel_laidCode hlabel)
    have hlevel := (h.entered header).1
    refine ⟨_, hrow, ?_, ?_, ?_⟩
    · rw [← hgain]
      exact (h.lay_frame hkept (Int.le_refl _) (by omega)).1
    · simp only [Indenter.layAll, hcarried, hlevel, Int.max_eq_left hkept]
      omega
    · obtain ⟨pending, offsets, hnext, _⟩ := h.lay_next header
      simp only [Indenter.layAll, hnext, henters, if_true]
      simp
  · have hlay := h.lay_header hlead hgain hlast hlabel hheader
    have hp := h.pending
    have hst := h.lay header
    have hkept : kept st.level header = st.level := by simp [kept, hlead]
    have hentered : st.entered header = st := by simp [Indenter.entered, hlead]
    rw [hlay] at hst ⊢
    obtain ⟨_, _, hcarried, hlevel, hswitches⟩ := hst.lay_lone_brace hbrace (by simp only; omega)
    refine ⟨_, rfl, ?_, ?_, ?_⟩
    · simp only [Indenter.layAll, hlevel, hkept]
    · have hsame : Indenter.carried { st with pending := st.pending + 1 } = st.carried := rfl
      simp only [Indenter.layAll, hcarried, hkept, hentered, hsame]
      omega
    · simp only [Indenter.layAll, hswitches, hentered]
      simp

/-- The closing brace of a `switch` is laid out as deep as its header. -/
theorem Steady.depth_closing_body (h : Steady st) {header closing : Text} {opening body : List Text}
    (hopens : OpensBody header opening) (hkept : 0 ≤ kept st.level header)
    (hbody : nest 0 body = some 0) (hclosing : leads closing = true) {row : Row}
    (hrow : (st.lay header).1 = [row]) :
    ∃ row' rows, ((((st.lay header).2.layAll opening).2.layAll body).2.lay closing).1 =
      row' :: rows ∧ row'.depth = row.depth := by
  obtain ⟨hlabel, ⟨rfl, hgain, henters⟩ | ⟨brace, head, rfl, hbrace, hgain, hlead, hlast, _, hheader⟩⟩ :=
    hopens
  · obtain ⟨r, row', rows, hr, hrows, hdepth⟩ := h.depth_closing hkept hgain
      (of_decide_eq_true henters).2.1 (splitCaseLabel_laidCode hlabel) hbody hclosing
    obtain rfl : row = r := by simpa [hrow] using hr
    exact ⟨row', rows, hrows, hdepth⟩
  · have hlay := h.lay_header hlead hgain hlast hlabel hheader
    have hp := h.pending
    have hst := h.lay header
    rw [hlay] at hst hrow ⊢
    obtain ⟨hlead', hgain', hcode', _⟩ := lone_brace hbrace
    obtain ⟨text', hbraceRow, _⟩ := hst.lay_lone_brace hbrace (by simp only; omega)
    obtain ⟨r, row', rows, hr, hrows, hdepth⟩ := hst.depth_closing
      (by simpa [kept, hlead'] using hst.level) hgain' (by rw [hcode']; rfl)
      (by rw [hcode']; decide) hbody hclosing
    refine ⟨row', rows, hrows, ?_⟩
    obtain rfl : _ = r := by simpa [hbraceRow] using hr
    obtain rfl : _ = row := by simpa using hrow
    exact hdepth

/-! ### Inside the body -/

theorem sum_filter_le {l : List (Int × Int)} (h : ∀ x ∈ l, 0 < x.2) (p : Int × Int → Bool) :
    (l.filter p).foldr (fun x sum => x.2 + sum) 0 ≤ l.foldr (fun x sum => x.2 + sum) 0 := by
  induction l with
  | nil => exact Int.le_refl 0
  | cons x l ih =>
    obtain ⟨hx, hl⟩ := List.forall_mem_cons.mp h
    have := ih hl
    rw [List.filter_cons]
    split <;> simp only [List.foldr_cons] <;> omega

/-- What stands directly inside a block is laid out in the `switch` bodies and with the extra depth
    that the block has. -/
theorem Steady.inside (h : Steady st) {inner : List Text} {f : Text}
    (hinner : nest 0 inner = some (if leads f then 1 else 0)) :
    ((st.layAll inner).2.entered f).level = st.level ∧
      ((st.layAll inner).2.entered f).switches = st.switches ∧
      st.carried ≤ (st.layAll inner).2.carried := by
  have hst := h.layAll inner
  obtain ⟨hlevel, hswitches, hoffsets⟩ :=
    Steady.layAll_frame h.level h (Int.add_zero _).symm hinner
  obtain ⟨hl, hs, _⟩ := hst.entered f
  have hkept : kept (st.layAll inner).2.level f = st.level := by
    rw [kept, hlevel]
    split <;> simp_all
  rw [hkept, Int.max_eq_left h.level] at hl hs
  refine ⟨hl, ?_, ?_⟩
  · rw [hs, hswitches, h.filter_switches]
  · rw [h.filter_offsets] at hoffsets
    rw [carried_eq_sum fun x hx => (h.offsets_lt x hx).2.1,
      carried_eq_sum fun x hx => (hst.offsets_lt x hx).2.1, ← hoffsets]
    exact sum_filter_le (fun x hx => (hst.offsets_lt x hx).2.2) _

theorem Steady.depth_inside (h : Steady st) {inner : List Text} {f : Text}
    (hinner : nest 0 inner = some (if leads f then 1 else 0))
    (hlabel : splitCaseLabel (codePart f) = none) {row : Row}
    (hrow : row ∈ ((st.layAll inner).2.lay f).1) :
    st.level + (if st.switches = [] then 0 else 1) + st.carried ≤ row.depth := by
  obtain ⟨hl, hs, hcarried⟩ := h.inside hinner
  have hst := h.layAll inner
  have hoffset := hst.switchOffset_entered f
  have hdepth := hst.depth_statement hlabel hrow
  rw [hl, hoffset, hs] at hdepth
  omega

theorem Steady.depth_label_inside (h : Steady st) {inner : List Text} {f : Text}
    (hinner : nest 0 inner = some 0) (hlabel : splitCaseLabel (codePart f) ≠ none) :
    ∃ text rows, ((st.layAll inner).2.lay f).1 = ⟨st.level + st.carried, text⟩ :: rows := by
  obtain ⟨hlevel, _, hoffsets⟩ := h.layAll_nested hinner
  have hcarried : (st.layAll inner).2.carried = st.carried := by
    rw [carried, hlevel, hoffsets]
    rfl
  obtain ⟨text, rows, hrows⟩ := lay_label hlabel (st.layAll inner).2
  exact ⟨text, rows, by rw [hrows, hlevel, hcarried]⟩

end Indenter

/-- The rows of a fragment that is laid out after others. -/
def rowsAfter (before : List Text) (fragment : Text) : List Row :=
  ((({} : Indenter).layAll before).2.lay fragment).1

theorem rowsAfter_body (before opening inner : List Text) (header f : Text) :
    rowsAfter (before ++ header :: (opening ++ inner)) f =
      (((((({} : Indenter).layAll before).2.lay header).2.layAll opening).2.layAll inner).2.lay
        f).1 := by
  simp only [rowsAfter, Indenter.layAll_append, Indenter.layAll]

/-- Where a text with one fragment on every line has a `switch` statement, the closing brace is as
    deep as the header, and all labels directly inside the body have one depth: one level deeper than
    the header unless a `switch` body encloses it, and then as deep as the header. No other fragment
    directly inside lies above the labels, and all are deeper than the labels if the brace of the body
    ends the line of the header or a `switch` body encloses it. -/
theorem layout_switch {code : Text} (hlines : LineByLine code)
    (hnest : nest 0 (lineFragments code) = some 0) :
    layout code = (({} : Indenter).layAll (lineFragments code)).1 ∧
      ∀ before header opening body closing after,
        lineFragments code = before ++ header :: (opening ++ (body ++ closing :: after)) →
          Indenter.OpensBody header opening → nest 0 body = some 0 → leads closing = true →
            ∃ row labels, rowsAfter before header = [row] ∧
              (∃ row' rows, rowsAfter (before ++ header :: (opening ++ body)) closing =
                row' :: rows ∧ row'.depth = row.depth) ∧
              (¬Enclosed before header → labels = row.depth + 1) ∧
              (Enclosed before header → labels = row.depth) ∧
              ∀ inner f rest, body = inner ++ f :: rest →
                (splitCaseLabel (codePart f) ≠ none → nest 0 inner = some 0 →
                  ∃ row' rows, rowsAfter (before ++ header :: (opening ++ inner)) f =
                    row' :: rows ∧ row'.depth = labels) ∧
                (splitCaseLabel (codePart f) = none →
                  nest 0 inner = some (if leads f then 1 else 0) →
                    ∀ row' ∈ rowsAfter (before ++ header :: (opening ++ inner)) f,
                      labels ≤ row'.depth ∧
                        (opening = [] ∨ Enclosed before header → labels < row'.depth)) := by
  refine ⟨layout_lineByLine hlines, ?_⟩
  intro before header opening body closing after hparts hopens hbody hclosing
  -- the header closes no block that is not open
  rw [hparts, nest_append, Option.bind_eq_some_iff] at hnest
  obtain ⟨n, hn, hrest⟩ := hnest
  obtain ⟨hkept, hgain, _⟩ := nest_cons_eq_some_iff.mp hrest
  have hknown := Indenter.switches_entered_ne_nil_iff hn hkept hgain
  have hst := Indenter.steady_start.layAll before
  have hlevel := Indenter.layAll_level hn
  simp only [rowsAfter_body]
  rw [rowsAfter]
  generalize (({} : Indenter).layAll before).2 = st at *
  subst hlevel
  obtain ⟨row, hrow, hl, hdepth, hswitches⟩ := hst.lay_opensBody hopens hkept
  have hoffset := hst.switchOffset_entered header
  have hst₁ := (hst.lay header).layAll opening
  have hclosed := hst.depth_closing_body hopens hkept hbody hclosing hrow
  generalize ((st.lay header).2.layAll opening).2 = st₁ at *
  refine ⟨row, st₁.level + st₁.carried, hrow, hclosed, ?_, ?_, ?_⟩
  · intro hfree
    rw [hoffset, if_pos (by tauto)] at hdepth
    omega
  · intro hin
    rw [hoffset, if_neg (hknown.mpr hin)] at hdepth
    omega
  · rintro inner f rest rfl
    constructor
    · intro hlabel hinner
      obtain ⟨text, rows, hlaid⟩ := hst₁.depth_label_inside hinner hlabel
      exact ⟨_, rows, hlaid, rfl⟩
    · intro hlabel hinner row' hrow'
      have hge := hst₁.depth_inside hinner hlabel hrow'
      refine ⟨by split at hge <;> omega, fun hknows => ?_⟩
      rw [if_neg (by tauto)] at hge
      omega

/-- A `switch` in a method, governed by a loop without braces, with an `if` and `else` in its body. -/
theorem layout_switch_in_loop :
    let code : Text := ("void f() \x7b\nfor (;;)\nswitch (a) \x7b // a\ncase 1: x();\nif (b) \x7b\n" ++
      "y();\n\x7d\nelse \x7b\n\x7d\ndefault:\n\x7d\n\x7d").toList
    let before : List Text := ["void f() \x7b", "for (;;)"].map String.toList
    let header : Text := "switch (a) \x7b // a".toList
    let inner : List Text := ["case 1: x();", "if (b) \x7b", "y();"].map String.toList
    let other : Text := "\x7d else \x7b".toList
    let body : List Text := inner ++ other :: ["\x7d", "default:"].map String.toList
    LineByLine code ∧ nest 0 (lineFragments code) = some 0 ∧ ¬Enclosed before header ∧
      ∃ row, rowsAfter before header = [row] ∧
        (∃ row' rows, rowsAfter (before ++ header :: body) "\x7d".toList = row' :: rows ∧
          row'.depth = row.depth) ∧
        ∀ row' ∈ rowsAfter (before ++ header :: inner) other, row.depth + 1 < row'.depth := by
  intro code before header inner other body
  have hlines : LineByLine code := by decide +kernel
  have hnest : nest 0 (lineFragments code) = some 0 := by decide +kernel
  have hfree : ¬Enclosed before header := by
    rintro ⟨pre, outer, rest, hsplit, henters, _⟩
    have hnone : ∀ f ∈ before, Indenter.entersSwitch f = false := by decide +kernel
    have := hnone outer (by rw [hsplit]; simp)
    simp [this] at henters
  have hopens : Indenter.OpensBody header [] :=
    ⟨by decide +kernel, Or.inl ⟨rfl, by decide +kernel, by decide +kernel⟩⟩
  obtain ⟨row, labels, hrow, hclosed, hlabels, _, hinside⟩ := (layout_switch hlines hnest).2
    before header [] body "\x7d".toList ["\x7d".toList] (by decide +kernel) hopens
    (by decide +kernel) (by decide +kernel)
  refine ⟨hlines, hnest, hfree, row, hrow, hclosed, fun row' hrow' => ?_⟩
  rw [← hlabels hfree]
  have hother := (hinside inner other _ rfl).2 (by decide +kernel) (by decide +kernel) row' hrow'
  exact hother.2 (Or.inl rfl)

/-- In the body of a `switch` the labels of another one are as deep as its header, and after a brace
    on a line of its own the statements are as deep as the labels. -/
theorem layout_switch_nested_and_lone_brace :
    let nested : Text := "switch (a) \x7b\ncase 1:\nswitch (b) \x7b\ncase 2:\nx();\n\x7d\n\x7d".toList
    let lone : Text := "switch (a)\n\x7b\ncase 1:\nx();\n\x7d".toList
    (LineByLine nested ∧ nest 0 (lineFragments nested) = some 0 ∧
        (layout nested).map Row.depth = [0, 1, 2, 2, 3, 2, 0]) ∧
      LineByLine lone ∧ nest 0 (lineFragments lone) = some 0 ∧
        (layout lone).map Row.depth = [0, 0, 1, 1, 0] := by
  decide +kernel

end JspLayout.Java
