import JspLayout.Proofs.Rows

/-! Fragments whose braces match.

    What a fragment does to the indenter is said once: it may close a block before it is laid out, it
    may set the pending headers and one extra depth, and then its other braces move the level. From
    this follow the invariant of every reachable indenter and a frame: as long as the level does not
    fall below a base, nothing that belongs to the base or to what lies outside is touched. Main
    statement: fragments whose braces match leave the indenter as it was, and a closing brace is laid
    out as deep as the line that opened its block. -/

namespace JspLayout.Java

open Text

/-! ### The braces of a fragment -/

/-- The code of a fragment, without the comment after it. -/
def codePart (fragment : Text) : Text := (splitTrailingComment fragment).1

/-- The text of a row: code and the comment after it. -/
def rowText (code comment : Text) : Text := if comment = [] then code else code ++ ' ' :: comment

/-- Whether a fragment begins by closing a block. -/
def leads (fragment : Text) : Bool := (codePart fragment).head? = some '}'

/-- Whether a fragment ends by opening a block. -/
def opensBlock (fragment : Text) : Bool :=
  (classify (codePart fragment)).getLast? = some ('{', .code)

/-- The level that the braces of a fragment add, a leading closing brace apart. -/
def gain (fragment : Text) : Int :=
  (countBraces (codePart fragment)).1 - (countBraces (codePart fragment)).2 +
    if leads fragment then 1 else 0

/-- A fragment without code braces but a closing one in front and an opening one at the end. -/
def BracesAtEnds (fragment : Text) : Prop :=
  (countBraces (codePart fragment)).1 ≤ (if opensBlock fragment then 1 else 0) ∧
    (countBraces (codePart fragment)).2 ≤ (if leads fragment then 1 else 0)

instance (fragment : Text) : Decidable (BracesAtEnds fragment) :=
  inferInstanceAs (Decidable ((countBraces (codePart fragment)).1 ≤ _ ∧
    (countBraces (codePart fragment)).2 ≤ _))

/-- What is left of `n` open blocks after the closing brace that a fragment may begin with. -/
def kept (n : Int) (fragment : Text) : Int := if leads fragment then n - 1 else n

/-- How many blocks are open after fragments that start with `n` open ones. There is no answer where
    a block is closed that is not open, or where a fragment closes more than it opens after its first
    character. -/
def nest (n : Int) : List Text → Option Int
  | [] => some n
  | fragment :: rest =>
    if 0 ≤ kept n fragment ∧ 0 ≤ gain fragment then nest (kept n fragment + gain fragment) rest
    else none

theorem nest_cons_eq_some_iff {n m : Int} {f : Text} {fs : List Text} :
    nest n (f :: fs) = some m ↔
      0 ≤ kept n f ∧ 0 ≤ gain f ∧ nest (kept n f + gain f) fs = some m := by
  rw [nest]
  split
  · next h => simp [h.1, h.2]
  · next h => simp only [reduceCtorEq, false_iff]; tauto

theorem nest_append (n : Int) (a b : List Text) :
    nest n (a ++ b) = (nest n a).bind fun m => nest m b := by
  induction a generalizing n with
  | nil => rfl
  | cons f fs ih =>
    rw [List.cons_append, nest, nest]
    split
    · exact ih _
    · rfl

/-! ### Code that is laid out -/

theorem classify_cons_unquoted {c : Char} (h : Unquoted [c]) (s : Text) :
    classify (c :: s) = (c, .code) :: classify s := by
  obtain ⟨h1, h2, h3⟩ := h c List.mem_cons_self
  rw [classify, classifyFrom, Mode.step, if_neg (by tauto), if_neg (by tauto), if_neg (by tauto)]
  rfl

theorem classify_append_unquoted {w : Text} (hw : Unquoted w) (s : Text) :
    classify (w ++ s) = (w.map fun c => (c, .code)) ++ classify s := by
  induction w with
  | nil => rfl
  | cons c w ih =>
    obtain ⟨hc, hw⟩ := List.forall_mem_cons.mp hw
    rw [List.cons_append, classify_cons_unquoted (by simpa [Unquoted] using hc), ih hw]
    rfl

theorem codeOf_append_unquoted {w : Text} (h : Unquoted w) (s : Text) :
    codeOf (w ++ s) = w ++ codeOf s := by
  induction w with
  | nil => rfl
  | cons c w ih =>
    obtain ⟨hc, hw⟩ := List.forall_mem_cons.mp h
    rw [List.cons_append, codeOf, classify_cons_unquoted (by simpa [Unquoted] using hc),
      List.filterMap_cons, ← codeOf, ih hw]
    rfl

theorem countBraces_laidCode (code : Text) :
    countBraces (Indenter.laidCode code) = countBraces code := by
  unfold Indenter.laidCode
  split
  · rcases spaceAfterClose_spec code with h | ⟨w, r, hw, hcode, hspaced⟩
    · rw [h]
    · have hcount : ∀ {w : Text}, Blank w → countBraces ('}' :: (w ++ r)) =
          ((codeOf r).count '{', (codeOf r).count '}' + 1) := by
        intro w hw
        have hb : ∀ b : Char, isBlank b = false → w.count b = 0 := fun b hb =>
          List.count_eq_zero.mpr fun hm => by rw [hw b hm] at hb; exact absurd hb (by simp)
        have hw' : Unquoted ('}' :: w) := Unquoted.append (s := ['}']) (by decide) (unquoted_of_blank hw)
        rw [countBraces, ← List.cons_append, codeOf_append_unquoted hw']
        simp [hb '{' (by decide), hb '}' (by decide)]
      have hone : Blank [' '] := Blank.cons (by decide) blank_nil
      rw [hspaced, hcode, hcount hw]
      exact hcount hone
  · rfl

theorem head?_laidCode (code : Text) : (Indenter.laidCode code).head? = code.head? := by
  unfold Indenter.laidCode
  split
  · rcases spaceAfterClose_spec code with h | ⟨w, r, _, hcode, hspaced⟩
    · rw [h]
    · rw [hspaced, hcode]
      rfl
  · rfl

theorem gain_of_bracesAtEnds {f : Text} (h : BracesAtEnds f) :
    gain f = if opensBlock f then 1 else 0 := by
  obtain ⟨hopens, hcloses⟩ := h
  have hlead : leads f = true → 0 < (countBraces (codePart f)).2 := by
    intro h
    obtain ⟨t, ht⟩ := List.head?_eq_some_iff.mp (of_decide_eq_true h)
    rw [ht, countBraces, show '}' :: t = ['}'] ++ t from rfl, codeOf_append_unquoted (by decide)]
    simp
  have hlast : opensBlock f = true → 0 < (countBraces (codePart f)).1 := by
    intro h
    refine List.count_pos_iff.mpr (List.mem_filterMap.mpr ⟨('{', .code), ?_, rfl⟩)
    exact List.mem_of_getLast? (of_decide_eq_true h)
  rw [gain]
  split at hopens <;> split at hcloses <;> simp_all <;> omega

/-! ### Laying out a fragment -/

namespace Indenter

/-- The indenter after the closing brace that a fragment may begin with. -/
def entered (st : Indenter) (fragment : Text) : Indenter :=
  if leads fragment then { st.closeBlock with pending := 0 } else st

theorem inComment_entered (st : Indenter) (f : Text) : (st.entered f).inComment = st.inComment := by
  rw [entered]
  split <;> rfl

/-- The rows of code, and the indenter before its braces are counted. -/
def layCode (st : Indenter) (carried : Int) (code : Text) : List Row × Indenter :=
  match splitCaseLabel code with
  | some (head, tail) => (labelRows (st.level + carried) head tail, { st with pending := 0 })
  | none => layStatement st carried code

theorem lay_of_code_eq_nil {f : Text} (h : codePart f = []) (st : Indenter) :
    st.lay f =
      ([⟨st.level + st.switchOffset + st.pending + st.carried, (splitTrailingComment f).2⟩], st) := by
  rw [codePart] at h
  simp [lay, h]

theorem lay_of_code_ne_nil {f : Text} (h : codePart f ≠ []) (st : Indenter) :
    st.lay f =
      (withComment (splitTrailingComment f).2
          (layCode (st.entered f) st.carried (laidCode (codePart f))).1,
        ((layCode (st.entered f) st.carried (laidCode (codePart f))).2.applyBraces
          (laidCode (codePart f)) (leads f)).leaveOffsets) := by
  rw [codePart] at h
  by_cases hlead : (splitTrailingComment f).1.head? = some '}'
  · simp only [lay, h, if_false, codePart, leads, entered, laidCode, hlead, decide_true, if_true]
    rfl
  · simp only [lay, h, if_false, codePart, leads, entered, laidCode, hlead, decide_false,
      Bool.false_eq_true]
    rfl

/-- What the layout of code does to the indenter before its braces are counted: it may leave headers
    pending, and it may note an extra depth if any were. -/
theorem layCode_next {st : Indenter} (hp : 0 ≤ st.pending) (carried : Int) (code : Text) :
    ∃ pending offsets, (layCode st carried code).2 =
        { st with pending, offsets := offsets ++ st.offsets } ∧ 0 ≤ pending ∧
      (offsets = [] ∨ ∃ extra, 0 < extra ∧ extra ≤ st.pending ∧ offsets = [(st.level, extra)]) := by
  rw [layCode]
  split
  · exact ⟨0, [], rfl, Int.le_refl 0, Or.inl rfl⟩
  · simp only [layStatement]
    split
    · split
      · exact ⟨st.pending + 1, [], rfl, by omega, Or.inl rfl⟩
      · split <;> exact ⟨0, [], rfl, Int.le_refl 0, Or.inl rfl⟩
    · have hextra : 0 ≤ (if code.head? = some '{' then max (st.pending - 1) 0 else st.pending) ∧
          (if code.head? = some '{' then max (st.pending - 1) 0 else st.pending) ≤ st.pending := by
        split <;> omega
      generalize (if code.head? = some '{' then max (st.pending - 1) 0 else st.pending) = extra at *
      by_cases h : extra ≠ 0 ∧ code.getLast? = some '{'
      · refine ⟨0, [(st.level, extra)], by rw [if_pos h]; rfl, Int.le_refl 0, Or.inr ⟨extra, ?_, ?_⟩⟩
        · omega
        · exact ⟨hextra.2, rfl⟩
      · exact ⟨0, [], by rw [if_neg h]; rfl, Int.le_refl 0, Or.inl rfl⟩

/-- Whether a fragment opens the body of a `switch`. -/
def entersSwitch (fragment : Text) : Bool :=
  0 < gain fragment ∧ (laidCode (codePart fragment)).getLast? = some '{' ∧
    opensSwitch (codeOf (laidCode (codePart fragment)))

theorem applyBraces_eq (st : Indenter) (f : Text) :
    st.applyBraces (laidCode (codePart f)) (leads f) =
      { st with
        level := max (st.level + gain f) 0
        switches := ((if entersSwitch f then [max (st.level + gain f) 0] else []) ++
          st.switches).dropWhile fun s => s > max (st.level + gain f) 0 } := by
  have hlevel : st.level + ((countBraces (codePart f)).1 : Int) -
      (((countBraces (codePart f)).2 : Int) - if leads f = true then 1 else 0) =
        st.level + gain f := by
    rw [gain]
    omega
  have hgain : ((countBraces (codePart f)).1 : Int) >
      ((countBraces (codePart f)).2 : Int) - (if leads f = true then 1 else 0) ↔ 0 < gain f := by
    rw [gain]
    omega
  simp only [applyBraces, leaveSwitches, countBraces_laidCode, hlevel, hgain, entersSwitch,
    decide_eq_true_eq]
  split <;> rfl

/-- Braces that match do nothing. -/
theorem applyBraces_idle (st : Indenter) {f : Text} (hgain : gain f = 0) (hlevel : 0 ≤ st.level)
    (hswitches : ∀ s ∈ st.switches, s ≤ st.level) :
    st.applyBraces (laidCode (codePart f)) (leads f) = st := by
  have henters : entersSwitch f = false := by simp [entersSwitch, hgain]
  have hmax : max (st.level + 0) 0 = st.level := by omega
  have hdrop : st.switches.dropWhile (fun s => s > st.level) = st.switches := by
    cases hs : st.switches with
    | nil => rfl
    | cons s l =>
      have := hswitches s (by simp [hs])
      rw [List.dropWhile_cons_of_neg (by simpa using this)]
  rw [applyBraces_eq, hgain, henters, hmax]
  simp only [Bool.false_eq_true, if_false, List.nil_append, hdrop]

theorem leaveOffsets_idle (st : Indenter) (h : ∀ x ∈ st.offsets, x.1 < st.level) : st.leaveOffsets = st := by
  rw [leaveOffsets, List.filter_eq_self.mpr fun x hx => by simpa using h x hx]

/-! ### The invariant of the indenter -/

/-- What holds of every indenter between two fragments. -/
structure Steady (st : Indenter) : Prop where
  level : 0 ≤ st.level
  pending : 0 ≤ st.pending
  switches_sorted : st.switches.Pairwise (· > ·)
  switches_le : ∀ s ∈ st.switches, 0 < s ∧ s ≤ st.level
  offsets_sorted : st.offsets.Pairwise fun a b => a.1 > b.1
  offsets_lt : ∀ x ∈ st.offsets, 0 ≤ x.1 ∧ x.1 < st.level ∧ 0 < x.2

theorem steady_start : Steady {} := by
  constructor <;> simp

theorem dropWhile_gt_eq_filter {l : List Int} (h : l.Pairwise (· > ·)) (n : Int) :
    l.dropWhile (fun s => s > n) = l.filter fun s => s ≤ n := by
  induction l with
  | nil => rfl
  | cons s l ih =>
    obtain ⟨hs, hl⟩ := List.pairwise_cons.mp h
    by_cases hn : s ≤ n
    · have hall : ∀ t ∈ s :: l, t ≤ n := by
        intro t ht
        rcases List.mem_cons.mp ht with rfl | ht
        · exact hn
        · have := hs t ht
          omega
      rw [List.dropWhile_cons_of_neg (by simpa using hn),
        List.filter_eq_self.mpr fun t ht => by simpa using hall t ht]
    · rw [List.dropWhile_cons_of_pos (by simpa using hn), List.filter_cons_of_neg (by simpa using hn)]
      exact ih hl

variable {st : Indenter}

theorem leaveSwitches_switches (h : st.switches.Pairwise (· > ·)) :
    st.leaveSwitches.switches = st.switches.filter fun s => s ≤ st.level :=
  dropWhile_gt_eq_filter h _

theorem Steady.filter_switches (h : Steady st) :
    st.switches.filter (fun s => s ≤ st.level) = st.switches :=
  List.filter_eq_self.mpr fun s hs => by simpa using (h.switches_le s hs).2

theorem Steady.filter_offsets (h : Steady st) :
    st.offsets.filter (fun x => x.1 < st.level) = st.offsets :=
  List.filter_eq_self.mpr fun x hx => by simpa using (h.offsets_lt x hx).2.1

/-- The indenter after the first brace of a fragment: nothing but closed `switch` bodies is gone. -/
theorem Steady.entered (h : Steady st) (f : Text) :
    (st.entered f).level = max (kept st.level f) 0 ∧
      (st.entered f).switches = st.switches.filter (fun s => s ≤ max (kept st.level f) 0) ∧
      (st.entered f).offsets = st.offsets ∧ 0 ≤ (st.entered f).pending ∧
      (leads f = true → (st.entered f).pending = 0) := by
  have hlevel := h.level
  rw [Indenter.entered, kept]
  split
  · exact ⟨rfl, leaveSwitches_switches h.switches_sorted, rfl, Int.le_refl 0, fun _ => rfl⟩
  · next hlead =>
    refine ⟨by omega, ?_, rfl, h.pending, fun h => absurd h hlead⟩
    rw [Int.max_eq_left hlevel, h.filter_switches]

/-- The level after a fragment. -/
def levelAfter (st : Indenter) (f : Text) : Int := max (max (kept st.level f) 0 + gain f) 0

/-- The body of a `switch` lies deeper than the bodies around it. -/
theorem Steady.pushed_sorted (h : Steady st) (f : Text) :
    ((if entersSwitch f then [st.levelAfter f] else []) ++
      st.switches.filter fun s => s ≤ max (kept st.level f) 0).Pairwise (· > ·) := by
  refine List.pairwise_append.mpr ⟨by split <;> simp, h.switches_sorted.filter _, ?_⟩
  intro s hs t ht
  split at hs
  · next henters =>
    have hgain : 0 < gain f := (of_decide_eq_true henters).1
    have ht' := (List.mem_filter.mp ht).2
    simp only [List.mem_singleton, levelAfter, decide_eq_true_eq] at hs ht'
    omega
  · simp at hs

/-- What a fragment does to an indenter. The level moves by its braces, what belongs to a closed block
    is forgotten, and one `switch` body and one extra depth may be added. -/
theorem Steady.lay_next (h : Steady st) (f : Text) : ∃ pending offsets,
    (st.lay f).2 = { st with
      level := st.levelAfter f
      switches := ((if entersSwitch f then [st.levelAfter f] else []) ++
        st.switches.filter fun s => s ≤ max (kept st.level f) 0).filter fun s => s ≤ st.levelAfter f
      pending
      offsets := (offsets ++ st.offsets).filter fun x => x.1 < st.levelAfter f } ∧ 0 ≤ pending ∧
    (offsets = [] ∨ leads f = false ∧ ∃ extra, 0 < extra ∧ offsets = [(st.level, extra)]) := by
  have hlevel := h.level
  by_cases hcode : codePart f = []
  · -- a comment alone leaves everything as it is
    have hlead : leads f = false := by simp [leads, hcode]
    have hgain : gain f = 0 := by rw [gain, hcode, hlead]; rfl
    have henters : entersSwitch f = false := by simp [entersSwitch, hgain]
    have hkept : max (kept st.level f) 0 = st.level := by simp [kept, hlead, Int.max_eq_left hlevel]
    have hafter : st.levelAfter f = st.level := by rw [levelAfter, hkept, hgain]; omega
    refine ⟨st.pending, [], ?_, h.pending, Or.inl rfl⟩
    rw [lay_of_code_eq_nil hcode, hafter, hkept, henters]
    simp [h.filter_switches, h.filter_offsets]
  · obtain ⟨hlevel', hswitches, hoffsets, hpending, hclosed⟩ := h.entered f
    obtain ⟨pending, offsets, hnext, hp, hnew⟩ :=
      layCode_next hpending st.carried (laidCode (codePart f))
    refine ⟨pending, offsets, ?_, hp, ?_⟩
    · have hdrop := dropWhile_gt_eq_filter (h.pushed_sorted f) (st.levelAfter f)
      have hafter : max (max (kept st.level f) 0 + gain f) 0 = st.levelAfter f := rfl
      rw [lay_of_code_ne_nil hcode, hnext, applyBraces_eq, leaveOffsets]
      simp only [hlevel', hswitches, hoffsets, hafter, hdrop, inComment_entered]
    · rcases hnew with rfl | ⟨extra, hpos, hle, rfl⟩
      · exact Or.inl rfl
      · have hlead : leads f = false := by
          by_contra hlead
          have := hclosed (by simpa using hlead)
          omega
        refine Or.inr ⟨hlead, extra, hpos, ?_⟩
        rw [hlevel', kept, hlead, Int.max_eq_left (by simpa)]
        rfl

theorem Steady.lay (h : Steady st) (f : Text) : Steady (st.lay f).2 := by
  obtain ⟨pending, offsets, hnext, hp, hnew⟩ := h.lay_next f
  have hafter : 0 ≤ st.levelAfter f := by rw [levelAfter]; omega
  rw [hnext]
  constructor
  · exact hafter
  · exact hp
  · exact (h.pushed_sorted f).filter _
  · intro s hs
    obtain ⟨hs, hle⟩ := List.mem_filter.mp hs
    refine ⟨?_, by simpa using hle⟩
    rcases List.mem_append.mp hs with hs | hs
    · split at hs
      · next henters =>
        have hgain : 0 < gain f := (of_decide_eq_true henters).1
        simp only [List.mem_singleton, levelAfter] at hs
        omega
      · simp at hs
    · exact (h.switches_le s (List.mem_filter.mp hs).1).1
  · refine List.Pairwise.filter _ ?_
    rcases hnew with rfl | ⟨_, extra, _, rfl⟩
    · exact h.offsets_sorted
    · refine List.pairwise_cons.mpr ⟨fun x hx => ?_, h.offsets_sorted⟩
      exact (h.offsets_lt x hx).2.1
  · intro x hx
    obtain ⟨hx, hlt⟩ := List.mem_filter.mp hx
    have hlt' : x.1 < st.levelAfter f := by simpa using hlt
    rcases List.mem_append.mp hx with hx | hx
    · rcases hnew with rfl | ⟨_, extra, hpos, rfl⟩
      · simp at hx
      · rw [List.mem_singleton] at hx
        subst hx
        exact ⟨h.level, hlt', hpos⟩
    · obtain ⟨hnonneg, _, hpos⟩ := h.offsets_lt x hx
      exact ⟨hnonneg, hlt', hpos⟩

theorem Steady.layAll (h : Steady st) : ∀ fs : List Text, Steady (st.layAll fs).2 := by
  intro fs
  induction fs generalizing st with
  | nil => exact h
  | cons f fs ih => exact ih (h.lay f)

theorem Steady.with_inComment (h : Steady st) (b : Bool) : Steady { st with inComment := b } :=
  ⟨h.1, h.2, h.3, h.4, h.5, h.6⟩

theorem Steady.layLine (h : Steady st) (line : Text) : Steady (st.layLine line).2 := by
  simp only [Indenter.layLine]
  split
  · exact h
  · split
    · exact h.with_inComment _
    · exact (h.layAll _).with_inComment _

/-- The indenters that can be met while a text is laid out. -/
inductive Reachable : Indenter → Prop
  | start : Reachable {}
  | lay {st : Indenter} (fragment : Text) : Reachable st → Reachable (st.lay fragment).2
  | comment {st : Indenter} (inside : Bool) : Reachable st → Reachable { st with inComment := inside }

theorem Reachable.steady (h : Reachable st) : Steady st := by
  induction h with
  | start => exact steady_start
  | lay f _ ih => exact ih.lay f
  | comment b _ ih => exact ih.with_inComment b

/-! ### What lies outside stays as it is -/

theorem filter_filter_of_imp {α : Type} {p q : α → Bool} (h : ∀ a, p a = true → q a = true)
    (l : List α) : (l.filter q).filter p = l.filter p := by
  rw [List.filter_filter]
  refine List.filter_congr fun a _ => ?_
  cases hp : p a with
  | false => rfl
  | true => rw [h a hp]; rfl

/-- A fragment that keeps the level at `base` or above moves the level by its braces and leaves the
    `switch` bodies and the extra depths outside of `base` as they are. -/
theorem Steady.lay_frame (h : Steady st) {f : Text} {base : Int} (hbase : 0 ≤ base)
    (hkept : base ≤ kept st.level f) (hgain : 0 ≤ gain f) :
    (st.lay f).2.level = kept st.level f + gain f ∧
      (st.lay f).2.switches.filter (fun s => s ≤ base) = st.switches.filter (fun s => s ≤ base) ∧
      (st.lay f).2.offsets.filter (fun x => x.1 < base) =
        st.offsets.filter fun x => x.1 < base := by
  obtain ⟨pending, offsets, hnext, _, hnew⟩ := h.lay_next f
  have hlevel : st.levelAfter f = kept st.level f + gain f := by rw [levelAfter]; omega
  rw [hnext]
  refine ⟨hlevel, ?_, ?_⟩
  · have hle : ∀ n, base ≤ n → ∀ s : Int, decide (s ≤ base) = true → decide (s ≤ n) = true := by
      intro n hn s hs
      simp only [decide_eq_true_eq] at hs ⊢
      omega
    have hpushed : (if entersSwitch f then [st.levelAfter f] else []).filter
        (fun s => s ≤ base) = [] := by
      refine List.filter_eq_nil_iff.mpr fun s hs => ?_
      split at hs
      · next henters =>
        have : 0 < gain f := (of_decide_eq_true henters).1
        simp only [List.mem_singleton] at hs
        simp only [decide_eq_true_eq]
        omega
      · simp at hs
    rw [filter_filter_of_imp (hle _ (by omega)), List.filter_append, hpushed,
      filter_filter_of_imp (hle _ (by omega)), List.nil_append]
  · have hnew' : offsets.filter (fun x => x.1 < base) = [] := by
      rcases hnew with rfl | ⟨hlead, extra, _, rfl⟩
      · rfl
      · have : base ≤ st.level := by simpa [kept, hlead] using hkept
        simpa using this
    have hlt : ∀ x : Int × Int, decide (x.1 < base) = true →
        decide (x.1 < st.levelAfter f) = true := by
      intro x hx
      simp only [decide_eq_true_eq] at hx ⊢
      omega
    rw [filter_filter_of_imp hlt, List.filter_append, hnew', List.nil_append]

/-- Fragments that never close more than is open keep what lies outside. -/
theorem Steady.layAll_frame {base : Int} (hbase : 0 ≤ base) : ∀ {fs : List Text} {st : Indenter}
    {n m : Int}, Steady st → st.level = base + n → nest n fs = some m →
      (st.layAll fs).2.level = base + m ∧
        (st.layAll fs).2.switches.filter (fun s => s ≤ base) =
          st.switches.filter (fun s => s ≤ base) ∧
        (st.layAll fs).2.offsets.filter (fun x => x.1 < base) =
          st.offsets.filter fun x => x.1 < base
  | [], st, n, m, _, hlevel, hn => by
    obtain rfl : n = m := by simpa [nest] using hn
    exact ⟨hlevel, rfl, rfl⟩
  | f :: fs, st, n, m, h, hlevel, hn => by
    obtain ⟨hkept, hgain, hrest⟩ := nest_cons_eq_some_iff.mp hn
    have hk : kept st.level f = base + kept n f := by
      rw [kept, kept]
      split <;> omega
    obtain ⟨hl, hs, ho⟩ := h.lay_frame hbase (by omega) hgain
    have hl' : (st.lay f).2.level = base + (kept n f + gain f) := by omega
    obtain ⟨ihl, ihs, iho⟩ := layAll_frame hbase (h.lay f) hl' hrest
    exact ⟨ihl, ihs.trans hs, iho.trans ho⟩

/-- Fragments whose braces match leave the level, the `switch` bodies and the extra depths alone. -/
theorem Steady.layAll_nested (h : Steady st) {fs : List Text} (hn : nest 0 fs = some 0) :
    (st.layAll fs).2.level = st.level ∧ (st.layAll fs).2.switches = st.switches ∧
      (st.layAll fs).2.offsets = st.offsets := by
  obtain ⟨hl, hs, ho⟩ := Steady.layAll_frame h.level h (Int.add_zero _).symm hn
  rw [Int.add_zero] at hl
  have hs' := (h.layAll fs).filter_switches
  have ho' := (h.layAll fs).filter_offsets
  rw [hl] at hs' ho'
  exact ⟨hl, by rw [← hs', hs, h.filter_switches], by rw [← ho', ho, h.filter_offsets]⟩

/-! ### How deep a block is laid out -/

/-- The extra depth of code that waits for its place under pending headers. A lone opening brace
    belongs to the innermost of them. -/
def extraDepth (st : Indenter) (code : Text) : Int :=
  if code.head? = some '{' then max (st.pending - 1) 0 else st.pending

theorem layStatement_rows (st : Indenter) (carried : Int) (code : Text) :
    ∃ text rows, (st.layStatement carried code).1 =
      ⟨st.level + st.switchOffset + carried + st.extraDepth code, text⟩ :: rows := by
  simp only [layStatement]
  split
  · split
    · exact ⟨_, _, rfl⟩
    · split <;> exact ⟨_, _, rfl⟩
  · exact ⟨_, _, rfl⟩

theorem layStatement_of_brace (st : Indenter) (carried : Int) {code : Text}
    (h : code.getLast? = some '{') : st.layStatement carried code =
      ([⟨st.level + st.switchOffset + carried + st.extraDepth code, code⟩],
        { st with
          pending := 0
          offsets := (if st.extraDepth code ≠ 0 then [(st.level, st.extraDepth code)] else []) ++
            st.offsets }) := by
  have hextra : (if code.head? = some '{' then max (st.pending - 1) 0 else st.pending) =
      st.extraDepth code := rfl
  simp only [layStatement, h, if_true, and_true, hextra]
  split <;> rfl

theorem withComment_single (comment : Text) (depth : Int) (text : Text) :
    withComment comment [⟨depth, text⟩] = [⟨depth, rowText text comment⟩] := by
  rw [withComment, rowText]
  split <;> rfl

theorem withComment_cons (comment : Text) (row : Row) (rows : List Row) :
    ∃ text rows', withComment comment (row :: rows) = ⟨row.depth, text⟩ :: rows' ∧
      (rows = [] → rows' = []) := by
  cases rows with
  | nil =>
    rw [withComment]
    split <;> exact ⟨_, _, rfl, fun _ => rfl⟩
  | cons row' rows =>
    rw [withComment]
    · exact ⟨_, _, rfl, by simp⟩
    · simp

theorem splitCaseLabel_of_brace {code : Text} (h : code.head? = some '}') :
    splitCaseLabel code = none := by
  obtain ⟨t, rfl⟩ := List.head?_eq_some_iff.mp h
  simp [splitCaseLabel, isCaseLabel, afterWord?, after?]

theorem carried_eq_sum (h : ∀ x ∈ st.offsets, x.1 < st.level) :
    st.carried = st.offsets.foldr (fun x sum => x.2 + sum) 0 := by
  rw [carried]
  generalize st.offsets = l at h
  induction l with
  | nil => rfl
  | cons x l ih =>
    obtain ⟨hx, hl⟩ := List.forall_mem_cons.mp h
    rw [List.foldr_cons, ih hl]
    simp [hx]

/-- A fragment that begins with a closing brace is laid out where the block it closes was opened. -/
theorem lay_closing {f : Text} (h : leads f = true) (st : Indenter) :
    ∃ text rows, (st.lay f).1 =
      ⟨(st.entered f).level + (st.entered f).switchOffset + st.carried, text⟩ :: rows := by
  have hhead : (codePart f).head? = some '}' := of_decide_eq_true h
  have hne : codePart f ≠ [] := by rintro he; rw [he] at hhead; simp at hhead
  have hhead' : (laidCode (codePart f)).head? = some '}' := (head?_laidCode _).trans hhead
  obtain ⟨text, rows, hrows⟩ := layStatement_rows (st.entered f) st.carried (laidCode (codePart f))
  have hextra : (st.entered f).extraDepth (laidCode (codePart f)) = 0 := by
    rw [extraDepth, hhead', entered, if_pos h]
    rfl
  rw [hextra, Int.add_zero] at hrows
  rw [lay_of_code_ne_nil hne, layCode, splitCaseLabel_of_brace hhead']
  simp only [hrows]
  obtain ⟨text', rows', hcomment, _⟩ := withComment_cons (splitTrailingComment f).2
    ⟨(st.entered f).level + (st.entered f).switchOffset + st.carried, text⟩ rows
  exact ⟨text', rows', hcomment⟩

/-- A fragment that opens a block and is not a label takes one row, and the extra depth it has stays
    with the block. -/
theorem Steady.lay_opening (h : Steady st) {f : Text} (hkept : 0 ≤ kept st.level f)
    (hgain : gain f = 1) (hlast : (laidCode (codePart f)).getLast? = some '{')
    (hlabel : splitCaseLabel (laidCode (codePart f)) = none) :
    ∃ text, (st.lay f).1 = [⟨(st.entered f).level + (st.entered f).switchOffset + st.carried +
        (st.entered f).extraDepth (laidCode (codePart f)), text⟩] ∧
      (st.lay f).2.carried =
        st.carried + (st.entered f).extraDepth (laidCode (codePart f)) := by
  have hne : codePart f ≠ [] := by
    rintro he
    rw [he] at hlast
    exact absurd hlast (by decide)
  have hlay := lay_of_code_ne_nil hne st
  rw [layCode, hlabel] at hlay
  simp only [layStatement_of_brace _ _ hlast] at hlay
  generalize (st.entered f).extraDepth (laidCode (codePart f)) = extra at hlay ⊢
  obtain ⟨hlevel, _, hoffsets, _, hclosed⟩ := h.entered f
  have hafter := h.lay f
  obtain ⟨text, rows, hcomment, hnil⟩ := withComment_cons (splitTrailingComment f).2
    ⟨(st.entered f).level + (st.entered f).switchOffset + st.carried + extra,
      laidCode (codePart f)⟩ []
  refine ⟨text, by rw [hlay, hcomment, hnil rfl], ?_⟩
  have hstays : ((if extra ≠ 0 then [((st.entered f).level, extra)] else []) ++ st.offsets).filter
      (fun x => x.1 < kept st.level f + 1) =
        (if extra ≠ 0 then [((st.entered f).level, extra)] else []) ++ st.offsets := by
    refine List.filter_eq_self.mpr fun x hx => ?_
    simp only [decide_eq_true_eq]
    rcases List.mem_append.mp hx with hx | hx
    · split at hx
      · rw [List.mem_singleton] at hx
        rw [hx]
        simp only
        omega
      · simp at hx
    · have := (h.offsets_lt x hx).2.1
      rw [kept]
      split <;> omega
  have hmoved : (st.lay f).2.offsets =
      (if extra ≠ 0 then [((st.entered f).level, extra)] else []) ++ st.offsets := by
    have hmax : max ((st.entered f).level + gain f) 0 = kept st.level f + 1 := by omega
    rw [hlay, applyBraces_eq]
    simp only [leaveOffsets, hoffsets, hmax]
    exact hstays
  rw [carried_eq_sum fun x hx => (hafter.offsets_lt x hx).2.1,
    carried_eq_sum fun x hx => (h.offsets_lt x hx).2.1, hmoved]
  split
  · simp [Int.add_comm]
  · next hzero => simp [show extra = 0 by omega]

/-- The closing brace of a block is laid out as deep as the line that opened the block. -/
theorem Steady.depth_closing (h : Steady st) {opening closing : Text} {inside : List Text}
    (hkept : 0 ≤ kept st.level opening) (hgain : gain opening = 1)
    (hlast : (laidCode (codePart opening)).getLast? = some '{')
    (hlabel : splitCaseLabel (laidCode (codePart opening)) = none)
    (hinside : nest 0 inside = some 0) (hclosing : leads closing = true) :
    ∃ row row' rows, (st.lay opening).1 = [row] ∧
      (((st.lay opening).2.layAll inside).2.lay closing).1 = row' :: rows ∧
        row'.depth = row.depth := by
  obtain ⟨text, hrow, hcarried⟩ := h.lay_opening hkept hgain hlast hlabel
  have hst := h.lay opening
  obtain ⟨hlevel, hswitches, hoffsets⟩ := hst.layAll_nested hinside
  obtain ⟨text', rows, hrows⟩ := lay_closing hclosing ((st.lay opening).2.layAll inside).2
  refine ⟨_, _, rows, hrow, hrows, ?_⟩
  obtain ⟨hopened, hframe, _⟩ := h.lay_frame hkept (Int.le_refl _) (by omega)
  obtain ⟨hl, hs, _⟩ := h.entered opening
  obtain ⟨hl', hs', _⟩ := (hst.layAll inside).entered closing
  have hkept' : kept ((st.lay opening).2.layAll inside).2.level closing = kept st.level opening := by
    rw [kept, if_pos hclosing, hlevel, hopened, hgain]
    omega
  rw [hkept'] at hl' hs'
  have hmax : max (kept st.level opening) 0 = kept st.level opening := Int.max_eq_left hkept
  rw [hmax] at hs hs'
  rw [hswitches, hframe, ← hs] at hs'
  rw [← hl] at hl'
  have hcarried' : ((st.lay opening).2.layAll inside).2.carried = (st.lay opening).2.carried := by
    rw [carried, hlevel, hoffsets]
    rfl
  have hoffset : (((st.lay opening).2.layAll inside).2.entered closing).switchOffset =
      (st.entered opening).switchOffset := by
    rw [switchOffset, hl', hs']
    rfl
  simp only [hl', hoffset, hcarried', hcarried]
  omega

theorem layAll_append (st : Indenter) (a b : List Text) :
    st.layAll (a ++ b) =
      ((st.layAll a).1 ++ ((st.layAll a).2.layAll b).1, ((st.layAll a).2.layAll b).2) := by
  induction a generalizing st with
  | nil => rfl
  | cons f fs ih =>
    rw [List.cons_append, layAll, layAll]
    simp only [ih, List.append_assoc]

end Indenter

theorem getLast?_laidCode {f : Text} (h : opensBlock f = true) :
    (Indenter.laidCode (codePart f)).getLast? = some '{' := by
  have hlast : (codePart f).getLast? = some '{' := by
    rw [← map_fst_classify (codePart f), List.getLast?_map, of_decide_eq_true h]
    rfl
  unfold Indenter.laidCode
  split
  · rcases spaceAfterClose_spec (codePart f) with hsame | ⟨w, r, hw, hcode, hspaced⟩
    · rw [hsame, hlast]
    · have hr : r ≠ [] := by
        rintro rfl
        have hmem : '{' ∈ '}' :: w := by
          rw [hcode, List.append_nil] at hlast
          exact List.mem_of_getLast? hlast
        rcases List.mem_cons.mp hmem with hbrace | hblank
        · exact absurd hbrace (by decide)
        · exact absurd (hw _ hblank) (by decide)
      rw [hcode, ← List.cons_append, List.getLast?_append_of_ne_nil _ hr] at hlast
      rw [hspaced, ← hlast, show '}' :: ' ' :: r = ['}', ' '] ++ r from rfl,
        List.getLast?_append_of_ne_nil _ hr]
  · exact hlast

theorem splitCaseLabel_laidCode {code : Text} (h : splitCaseLabel code = none) :
    splitCaseLabel (Indenter.laidCode code) = none := by
  by_cases hhead : code.head? = some '}'
  · exact Indenter.splitCaseLabel_of_brace ((head?_laidCode code).trans hhead)
  · rwa [Indenter.laidCode, if_neg hhead]

/-- Fragments whose braces match are transparent to the indenter: from any indenter that can be met,
    they leave the level, the `switch` bodies and the extra depths as they were, and every closing
    brace is laid out as deep as the line that opened its block, unless that line is a label. -/
theorem layAll_matched {st : Indenter} (hst : st.Reachable) {fs : List Text}
    (hfs : ∀ f ∈ fs, BracesAtEnds f) (hn : nest 0 fs = some 0) :
    (st.layAll fs).2.level = st.level ∧ (st.layAll fs).2.switches = st.switches ∧
      (st.layAll fs).2.offsets = st.offsets ∧
        ∀ before opening inside closing after,
          fs = before ++ opening :: (inside ++ closing :: after) → opensBlock opening = true →
            leads closing = true → nest 0 inside = some 0 →
              splitCaseLabel (codePart opening) = none →
                ∃ row row' rows, ((st.layAll before).2.lay opening).1 = [row] ∧
                  ((st.layAll (before ++ opening :: inside)).2.lay closing).1 = row' :: rows ∧
                    row'.depth = row.depth := by
  obtain ⟨hlevel, hswitches, hoffsets⟩ := hst.steady.layAll_nested hn
  refine ⟨hlevel, hswitches, hoffsets, ?_⟩
  rintro before opening inside closing after rfl hopen hclose hinside hlabel
  have hgain : gain opening = 1 := by
    rw [gain_of_bracesAtEnds (hfs opening (by simp)), if_pos hopen]
  -- the blocks that the list has opened so far are enough for the first brace of `opening`
  rw [nest_append, Option.bind_eq_some_iff] at hn
  obtain ⟨m, hm, hrest⟩ := hn
  obtain ⟨hkept, _, _⟩ := nest_cons_eq_some_iff.mp hrest
  have hbase := (Indenter.Steady.layAll_frame hst.steady.level hst.steady (Int.add_zero _).symm hm).1
  have hkept' : 0 ≤ kept (st.layAll before).2.level opening := by
    have := hst.steady.level
    rw [kept] at hkept ⊢
    split at hkept <;> simp_all <;> omega
  rw [Indenter.layAll_append]
  exact (hst.steady.layAll before).depth_closing hkept' hgain (getLast?_laidCode hopen)
    (splitCaseLabel_laidCode hlabel) hinside hclose

/-- A `switch` that a header without braces governs, with a header of the same kind before the block
    of its `if`. -/
theorem layAll_matched_switch :
    let st : Indenter := (({} : Indenter).lay "while (go)".toList).2
    let before : List Text := ["switch (x) \x7b", "case 1: // one", "for (;;)"].map String.toList
    let opening : Text := "if (a) \x7b".toList
    let inside : List Text := ["case 2: \x7b", "\x7d"].map String.toList
    let closing : Text := "\x7d else \x7b".toList
    let after : List Text := ["c = '\x7d';", "\x7d", "\x7d"].map String.toList
    let fs : List Text := before ++ opening :: (inside ++ closing :: after)
    (∀ f ∈ fs, BracesAtEnds f) ∧ nest 0 fs = some 0 ∧ (st.layAll fs).2.level = st.level ∧
      ∃ row row' rows, ((st.layAll before).2.lay opening).1 = [row] ∧
        ((st.layAll (before ++ opening :: inside)).2.lay closing).1 = row' :: rows ∧
          row'.depth = row.depth := by
  intro st before opening inside closing after fs
  have hst : st.Reachable := .lay _ .start
  have hfs : ∀ f ∈ fs, BracesAtEnds f := by decide +kernel
  have hn : nest 0 fs = some 0 := by decide +kernel
  obtain ⟨hlevel, _, _, hpairs⟩ := layAll_matched hst hfs hn
  exact ⟨hfs, hn, hlevel, hpairs before opening inside closing after rfl (by decide +kernel)
    (by decide +kernel) (by decide +kernel) (by decide +kernel)⟩

end JspLayout.Java
