import Mathlib.Order.Bounds.Defs
import JspLayout.Proofs.Bodies

/-! Texts without their margin.

    The margin of a text is the widest indentation that all its lines have, the blank ones apart. Main
    statement: removing it keeps the number of lines, takes exactly the margin off every line that is
    not blank, empties at most blank lines between the first and the last, and leaves a text that has
    no margin, so that removing it once more changes nothing (`dedented_stripMargin`). -/

namespace JspLayout.Text

/-! ### The width of the margin -/

/-- Some line that is not blank has the margin for its indentation. -/
theorem exists_indent_eq_margin? {m : Nat} : ∀ {ls : List Text}, margin? ls = some m →
    ∃ l ∈ ls, ¬Blank l ∧ l.indent.length = m
  | [], h => absurd h (by simp [margin?])
  | l :: ls, h => by
    rw [margin?] at h
    split at h
    · obtain ⟨k, hk, hkm⟩ := exists_indent_eq_margin? h
      exact ⟨k, List.mem_cons_of_mem _ hk, hkm⟩
    · next hl =>
      have hl : ¬Blank l := fun hblank => hl ((blank_iff l).mpr hblank)
      cases hm : margin? ls with
      | none =>
        rw [hm] at h
        exact ⟨l, List.mem_cons_self, hl, Option.some.inj h⟩
      | some m' =>
        rw [hm] at h
        have hmin : min l.indent.length m' = m := Option.some.inj h
        rcases Nat.le_total l.indent.length m' with hle | hle
        · exact ⟨l, List.mem_cons_self, hl, by omega⟩
        · obtain ⟨k, hk, hkblank, hkm⟩ := exists_indent_eq_margin? hm
          exact ⟨k, List.mem_cons_of_mem _ hk, hkblank, by omega⟩

/-- The margin is the greatest width that no line which is not blank falls short of. -/
theorem isGreatest_margin? {m : Nat} {ls : List Text} (h : margin? ls = some m) :
    IsGreatest {k | ∀ l ∈ ls, ¬Blank l → k ≤ l.indent.length} m := by
  constructor
  · intro l hl hblank
    obtain ⟨m', hm', hle⟩ := exists_margin?_le ((not_blank_iff l).mpr hblank) hl
    rw [h, Option.some.injEq] at hm'
    exact hm' ▸ hle
  · intro k hk
    obtain ⟨l, hl, hblank, rfl⟩ := exists_indent_eq_margin? h
    exact hk l hl hblank

/-! ### Lines without their margin -/

/-- The lines of `t` are those of `s` with a margin of `m` characters taken off. -/
structure Dedented (m : Nat) (s t : Text) : Prop where
  length : t.lines.length = s.lines.length
  inked : ∀ (i : Nat) (l : Text), s.lines[i]? = some l → ¬Blank l →
    m ≤ l.indent.length ∧ t.lines[i]? = some (l.drop m)
  blank : ∀ (i : Nat) (l : Text), s.lines[i]? = some l → Blank l →
    ∃ l', t.lines[i]? = some l' ∧ (l' = l ∨ l' = [] ∧ 0 < i ∧ i + 1 < s.lines.length)

theorem dedented_zero (s : Text) : Dedented 0 s s where
  length := rfl
  inked _ _ h _ := ⟨Nat.zero_le _, h⟩
  blank _ l h _ := ⟨l, h, Or.inl rfl⟩

theorem dedented_of_lines {m : Nat} {s t : Text} (hm : margin? s.lines = some m)
    (ht : t.lines = dedentLines m s.lines) : Dedented m s t := by
  rw [dedentLines_eq_mapIdx] at ht
  refine ⟨by rw [ht, List.length_mapIdx], fun i l hl hinked => ?_, fun i l hl hblank => ?_⟩
  · refine ⟨(isGreatest_margin? hm).1 l (List.mem_of_getElem? hl) hinked, ?_⟩
    have hl' := (not_blank_iff l).mpr hinked
    rw [ht, List.getElem?_mapIdx, hl]
    simp [dedentEdge, dedentInterior, hl']
  · have hl' := (blank_iff l).mpr hblank
    refine ⟨_, by rw [ht, List.getElem?_mapIdx, hl]; rfl, ?_⟩
    simp only [dedentEdge, dedentInterior, hl', if_true]
    split
    · exact Or.inl rfl
    · next hedge =>
      have hi := (List.getElem?_eq_some_iff.mp hl).1
      exact Or.inr ⟨rfl, by omega, by omega⟩

/-! ### Removing the margin -/

theorem stripMargin_eq_self {s : Text} (h : (margin? s.lines).getD 0 = 0) : s.stripMargin = s := by
  unfold stripMargin
  split
  · rfl
  · rfl
  · next m hm hmargin =>
    rw [hmargin] at h
    exact absurd h hm

theorem lines_stripMargin {s : Text} {m : Nat} (h : margin? s.lines = some (m + 1)) :
    s.stripMargin.lines = dedentLines (m + 1) s.lines := by
  have hne : dedentLines (m + 1) s.lines ≠ [] := by
    cases hs : s.lines with
    | nil => exact absurd hs (lines_ne_nil s)
    | cons l ls => exact List.cons_ne_nil _ _
  rw [stripMargin, h]
  exact lines_unlines hne (no_feed_dedentLines (m + 1) s)

/-- Without a line that is not blank the margin counts as zero, and nothing is taken off. -/
theorem dedented_margin? (s : Text) : Dedented ((margin? s.lines).getD 0) s s.stripMargin := by
  cases hm : (margin? s.lines).getD 0 with
  | zero =>
    rw [stripMargin_eq_self hm]
    exact dedented_zero s
  | succ m =>
    -- A margin that is not zero is that of some line, not the default.
    have hsome : margin? s.lines = some (m + 1) := by
      cases h : margin? s.lines with
      | none =>
        rw [h] at hm
        cases hm
      | some k =>
        rw [h] at hm
        exact congrArg some hm
    exact dedented_of_lines hsome (lines_stripMargin hsome)

theorem indent_drop_indent : ∀ l : Text, indent (l.drop l.indent.length) = []
  | [] => rfl
  | c :: l => by
    by_cases hc : isIndent c = true
    · have hindent : indent (c :: l) = c :: indent l := List.takeWhile_cons_of_pos hc
      rw [hindent, List.length_cons, List.drop_succ_cons, indent_drop_indent l]
    · have hindent : indent (c :: l) = [] := List.takeWhile_cons_of_neg hc
      rw [hindent, List.length_nil, List.drop_zero, hindent]

/-- A text that has lost its margin has none: the line that set it is not indented any more. -/
theorem Dedented.margin?_eq {m : Nat} {s t : Text} (h : Dedented m s t)
    (hm : margin? s.lines = some m) : margin? t.lines = some 0 := by
  obtain ⟨l, hl, hinked, rfl⟩ := exists_indent_eq_margin? hm
  obtain ⟨i, hi⟩ := List.mem_iff_getElem?.mp hl
  have hmem := List.mem_of_getElem? (h.inked i l hi hinked).2
  have hdrop : ¬Blank (l.drop l.indent.length) := by
    rwa [← trim_eq_nil_iff, trim_drop_indent le_rfl, trim_eq_nil_iff]
  obtain ⟨k, hk, hle⟩ := exists_margin?_le ((not_blank_iff _).mpr hdrop) hmem
  rw [indent_drop_indent, List.length_nil, Nat.le_zero] at hle
  rw [hk, hle]

theorem stripMargin_stripMargin (s : Text) : s.stripMargin.stripMargin = s.stripMargin := by
  apply stripMargin_eq_self
  have hdedented := dedented_margin? s
  cases hs : margin? s.lines with
  | none =>
    -- All lines are blank, and the text stays as it is.
    rw [stripMargin_eq_self (by rw [hs]; rfl), hs]
    rfl
  | some m =>
    rw [hs] at hdedented
    rw [hdedented.margin?_eq hs]
    rfl

/-- Removing the margin keeps the number of lines, takes the widest indentation that all of them
    have, the blank ones apart, off every line that is not blank, and nothing but blanks off the
    others. Doing it twice is doing it once. -/
theorem dedented_stripMargin (s : Text) :
    (∃ m, ((∃ l ∈ s.lines, ¬Blank l) →
        IsGreatest {k | ∀ l ∈ s.lines, ¬Blank l → k ≤ l.indent.length} m) ∧
      Dedented m s s.stripMargin) ∧
      s.stripMargin.stripMargin = s.stripMargin := by
  refine ⟨⟨_, ?_, dedented_margin? s⟩, stripMargin_stripMargin s⟩
  rintro ⟨l, hl, hinked⟩
  obtain ⟨m, hm, -⟩ := exists_margin?_le ((not_blank_iff l).mpr hinked) hl
  rw [hm]
  exact isGreatest_margin? hm

end JspLayout.Text
