import JspLayout.Proofs.Spacing
import JspLayout.Text.Search

/-! Where one text occurs in another.

    An occurrence does not reach across a character that the text looked for does not hold, nor past
    its last character where that one is found nowhere else in it. A text without blanks that occurs
    in the looser of two texts occurs in the other one too. -/

namespace JspLayout.Text

/-! ### Searching -/

theorem after?_append (p r : Text) : after? p (p ++ r) = some r := by
  induction p with
  | nil => rfl
  | cons a p ih => simp [after?, ih]

theorem after?_eq_some_iff {p s r : Text} : after? p s = some r ↔ s = p ++ r :=
  ⟨eq_append_of_after?, fun h => h ▸ after?_append p r⟩

theorem after?_isSome_iff {p s : Text} : (after? p s).isSome = true ↔ p <+: s := by
  rw [Option.isSome_iff_exists]
  exact ⟨fun ⟨r, h⟩ => ⟨r, (eq_append_of_after? h).symm⟩, fun ⟨r, h⟩ => ⟨r, h ▸ after?_append p r⟩⟩

/-- A text is found where it occurs. -/
theorem holds_iff_isInfix {p s : Text} : holds p s = true ↔ p <:+: s := by
  induction s with
  | nil => by_cases hp : p = [] <;> simp [holds, cut?, hp]
  | cons c s ih =>
    rw [List.infix_cons_iff, ← ih, ← after?_isSome_iff, holds, cut?]
    cases after? p (c :: s) with
    | some r => simp
    | none => simp [holds]

/-! ### Across a character -/

/-- An occurrence at the start does not reach across a character that it does not hold. -/
theorem prefix_of_prefix_append {c : Char} {t : Text} : ∀ {p s : Text}, c ∉ p → p <+: s ++ c :: t →
    p <+: s
  | [], _, _, _ => List.nil_prefix
  | d :: p, [], hc, h => by
    obtain ⟨rfl, _⟩ := List.cons_prefix_cons.mp h
    exact absurd List.mem_cons_self hc
  | d :: p, e :: s, hc, h => by
    obtain ⟨hd, hs⟩ := List.cons_prefix_cons.mp h
    have hp : c ∉ p := fun hm => hc (List.mem_cons_of_mem _ hm)
    exact List.cons_prefix_cons.mpr ⟨hd, prefix_of_prefix_append hp hs⟩

theorem suffix_of_suffix_append {c : Char} {p s t : Text} (hc : c ∉ p) (h : p <:+ s ++ c :: t) :
    p <:+ t := by
  rw [← List.reverse_prefix] at h ⊢
  refine prefix_of_prefix_append (c := c) (t := s.reverse) (by simpa using hc) ?_
  simpa using h

theorem suffix_append_cases {s u v : Text} (h : s <:+ u ++ v) :
    s <:+ v ∨ ∃ u', u' ≠ [] ∧ u' <:+ u ∧ s = u' ++ v := by
  induction u with
  | nil => exact Or.inl h
  | cons c u ih =>
    rcases List.suffix_cons_iff.mp h with rfl | h
    · exact Or.inr ⟨c :: u, by simp, List.suffix_rfl, rfl⟩
    · exact (ih h).imp_right fun ⟨u', hne, hu', hs⟩ =>
        ⟨u', hne, List.suffix_cons_iff.mpr (Or.inr hu'), hs⟩

theorem suffix_of_not_mem {c : Char} {s u v : Text} (hc : c ∉ u) (h : c :: s <:+ u ++ v) :
    c :: s <:+ v := by
  rcases suffix_append_cases h with h | ⟨u', hne, hu', hs⟩
  · exact h
  · cases u' with
    | nil => exact absurd rfl hne
    | cons d u' =>
      rw [List.cons_append, List.cons.injEq] at hs
      exact absurd (hu'.subset (hs.1 ▸ List.mem_cons_self)) hc

/-- An occurrence lies on one side of a character that it does not hold. -/
theorem infix_append_cons {c : Char} {p s t : Text} (hc : c ∉ p) (h : p <:+: s ++ c :: t) :
    p <:+: s ∨ p <:+: t := by
  obtain ⟨u, hp, hu⟩ := List.infix_iff_prefix_suffix.mp h
  rcases suffix_append_cases hu with hu | ⟨s', _, hs', rfl⟩
  · rcases List.suffix_cons_iff.mp hu with rfl | hu
    · have := prefix_of_prefix_append (s := []) hc hp
      rw [List.prefix_nil.mp this]
      exact Or.inl List.nil_infix
    · exact Or.inr (hp.isInfix.trans hu.isInfix)
  · exact Or.inl ((prefix_of_prefix_append hc hp).isInfix.trans hs'.isInfix)

/-- An occurrence ends with its last character, where that one is found nowhere else in it. -/
theorem infix_append_last {c : Char} {q s t : Text} (hc : c ∉ q) (h : q ++ [c] <:+: s ++ c :: t) :
    q ++ [c] <:+: s ++ [c] ∨ q ++ [c] <:+: t := by
  obtain ⟨u, hp, hu⟩ := List.infix_iff_prefix_suffix.mp h
  have hcut : ∀ {s : Text}, q ++ [c] <+: s ++ c :: t → q ++ [c] <+: s ++ [c] := by
    intro s hp
    have hs : s ++ [c] <+: s ++ c :: t := ⟨t, by simp⟩
    rcases List.prefix_or_prefix_of_prefix hp hs with h | h
    · exact h
    · rcases List.prefix_concat_iff.mp h with h | h
      · exact h ▸ List.prefix_rfl
      · exact absurd (h.subset (by simp)) hc
  rcases suffix_append_cases hu with hu | ⟨s', _, hs', rfl⟩
  · rcases List.suffix_cons_iff.mp hu with rfl | hu
    · exact Or.inl ((hcut (s := []) hp).isInfix.trans (List.suffix_append s [c]).isInfix)
    · exact Or.inr (hp.isInfix.trans hu.isInfix)
  · refine Or.inl ((hcut hp).isInfix.trans ?_)
    obtain ⟨v, rfl⟩ := hs'
    exact ⟨v, [], by simp⟩

/-- A text without blanks does not reach into blanks. -/
theorem infix_of_append_blank {p s w : Text} (hp : Solid p) (hne : p ≠ []) (hw : Blank w)
    (h : p <:+: s ++ w) : p <:+: s := by
  obtain ⟨d, p, rfl⟩ := List.exists_cons_of_ne_nil hne
  induction w generalizing s with
  | nil => rwa [List.append_nil] at h
  | cons c w ih =>
    obtain ⟨hc, hw⟩ := List.forall_mem_cons.mp hw
    have hmem : c ∉ d :: p := fun hm => by rw [hp c hm] at hc; exact absurd hc (by simp)
    rcases infix_append_cons hmem h with h | h
    · exact h
    · have := hw d (h.subset List.mem_cons_self)
      rw [hp d List.mem_cons_self] at this
      exact absurd this (by simp)

theorem append_eq_dropLast_append {p : Text} (hp : p ≠ []) (r : Text) :
    p ++ r = p.dropLast ++ p.getLast hp :: r := by
  conv_lhs => rw [← List.dropLast_concat_getLast hp]
  simp

/-- The first occurrence is at a place where the text does not occur before, nor across. -/
theorem cut?_eq_some_iff {p s l r : Text} (hp : p ≠ []) :
    cut? p s = some (l, r) ↔ s = l ++ (p ++ r) ∧ ¬p <:+: l ++ p.dropLast := by
  constructor
  · intro h
    refine ⟨eq_append_of_cut? h, ?_⟩
    induction s generalizing l with
    | nil => simp [cut?, hp] at h
    | cons c s ih =>
      have hs := eq_append_of_cut? h
      rw [cut?] at h
      split at h
      · obtain ⟨rfl, _⟩ := Prod.mk.inj (Option.some.inj h)
        intro hi
        have := hi.length_le
        have := List.length_pos_iff.mpr hp
        simp only [List.nil_append, List.length_dropLast] at *
        omega
      · next hnone =>
        obtain ⟨⟨l', r'⟩, hc, he⟩ := Option.map_eq_some_iff.mp h
        obtain ⟨rfl, rfl⟩ := Prod.mk.inj he
        intro hi
        rcases List.infix_cons_iff.mp hi with hi | hi
        · obtain ⟨t, ht⟩ := hi
          refine absurd hnone ((Option.isSome_iff_ne_none).mp (after?_isSome_iff.mpr ?_))
          refine ⟨t ++ p.getLast hp :: r', ?_⟩
          rw [hs, append_eq_dropLast_append hp r', ← List.append_assoc, ht]
          exact List.append_assoc (c :: l') _ _
        · exact ih hc hi
  · rintro ⟨rfl, h⟩
    induction l with
    | nil =>
      obtain ⟨c, p, rfl⟩ := List.exists_cons_of_ne_nil hp
      rw [List.nil_append, List.cons_append, cut?, ← List.cons_append, after?_append]
    | cons c l ih =>
      have hnone : after? p (c :: (l ++ (p ++ r))) = none := by
        rw [Option.eq_none_iff_forall_not_mem]
        intro r' hr'
        refine h (List.IsPrefix.isInfix ?_)
        have hlong : p <+: (c :: l ++ p.dropLast) ++ p.getLast hp :: r := by
          refine ⟨r', ?_⟩
          rw [← eq_append_of_after? hr', append_eq_dropLast_append hp]
          simp
        refine List.prefix_of_prefix_length_le hlong (List.prefix_append _ _) ?_
        simp only [List.length_append, List.length_cons, List.length_dropLast]
        omega
      rw [List.cons_append, cut?, hnone]
      simp [ih fun hi => h (List.infix_cons hi)]

/-! ### Occurrences of texts without blanks -/

/-- The marks of a text without blanks. -/
theorem marksFrom_solid {c : Char} {p : Text} (h : Solid (c :: p)) (gap : Bool) :
    marksFrom gap (c :: p) = (c, gap) :: p.map fun d => (d, false) := by
  have hc : isBlank c = false := h c List.mem_cons_self
  rw [marksFrom, if_neg (by simp [hc])]
  have hp : Solid p := fun d hd => h d (List.mem_cons_of_mem _ hd)
  clear h hc
  induction p with
  | nil => rfl
  | cons d p ih =>
    have hd : isBlank d = false := hp d List.mem_cons_self
    rw [marksFrom, if_neg (by simp [hd]), List.map_cons]
    have := ih fun e he => hp e (List.mem_cons_of_mem _ he)
    simp only [List.cons.injEq, true_and] at this
    rw [this]

/-- The first mark after a gap says so. -/
theorem gap_of_marks_cons : ∀ {s : Text} {x : Char × Bool} {m : List (Char × Bool)},
    marks s = x :: m → x.2 = true
  | [], _, _, h => by simp [marks, marksFrom] at h
  | c :: s, x, m, h => by
    rw [marks, marksFrom] at h
    split at h
    · exact gap_of_marks_cons h
    · rw [List.cons.injEq] at h
      rw [← h.1]

/-- Marks without gaps are those of a text that begins with these characters. -/
theorem prefix_of_marksFrom : ∀ {p s : Text} {b : List (Char × Bool)},
    marksFrom false s = p.map (fun d => (d, false)) ++ b → p <+: s
  | [], _, _, _ => List.nil_prefix
  | d :: p, [], _, h => by simp [marksFrom] at h
  | d :: p, c :: s, b, h => by
    rw [marksFrom] at h
    split at h
    · exact absurd (gap_of_marks_cons h) (by simp)
    · simp only [List.map_cons, List.cons_append, List.cons.injEq, Prod.mk.injEq, and_true] at h
      exact List.cons_prefix_cons.mpr ⟨h.1.symm, prefix_of_marksFrom h.2⟩

/-- A run of marks without gaps inside is a run of characters. -/
theorem infix_of_marksFrom {c : Char} {g : Bool} {p : Text} {b : List (Char × Bool)} :
    ∀ {s : Text} {gap : Bool} {a : List (Char × Bool)},
    marksFrom gap s = a ++ (c, g) :: (p.map (fun d => (d, false)) ++ b) → c :: p <:+: s
  | [], _, _, h => by simp [marksFrom] at h
  | d :: s, gap, a, h => by
    rw [marksFrom] at h
    split at h
    · exact List.infix_cons (infix_of_marksFrom h)
    · cases a with
      | nil =>
        simp only [List.nil_append, List.cons.injEq, Prod.mk.injEq] at h
        have := prefix_of_marksFrom h.2
        exact (List.cons_prefix_cons.mpr ⟨h.1.1.symm, this⟩).isInfix
      | cons x a =>
        simp only [List.cons_append, List.cons.injEq] at h
        exact List.infix_cons (infix_of_marksFrom h.2)

/-- Marks without gaps come from marks without gaps. -/
theorem Looser.eq_of_no_gaps {p : Text} : ∀ {a : List (Char × Bool)},
    Looser a (p.map fun d => (d, false)) → a = p.map fun d => (d, false) := by
  induction p with
  | nil => intro a h; cases h; rfl
  | cons d p ih =>
    intro a h
    cases h with
    | cons hx hxs =>
      rw [ih hxs, List.map_cons]
      obtain ⟨hc, hg⟩ := hx
      congr 1
      exact Prod.ext hc (Bool.eq_false_iff.mpr fun h => absurd (hg h) (by simp))

/-- What occurs in the looser text without a blank inside occurs in the tighter one. -/
theorem Looser.isInfix_of_isInfix {g g' : Bool} {s t p : Text}
    (h : Looser (marksFrom g s) (marksFrom g' t)) (hp : Solid p) (ht : p <:+: t) : p <:+: s := by
  obtain ⟨u, v, rfl⟩ := ht
  cases p with
  | nil => exact List.nil_infix
  | cons c p =>
    have hm : marksFrom g' (u ++ (c :: p) ++ v) = marksFrom g' u ++ ((c, gapAfter g' u) ::
        (p.map (fun d => (d, false)) ++ marksFrom (gapAfter g' (u ++ c :: p)) v)) := by
      rw [marksFrom_append, marksFrom_append, marksFrom_solid hp]
      simp
    rw [hm] at h
    obtain ⟨a, b, _, hb, hs⟩ := h.split_right
    cases hb with
    | @cons x _ b _ hx hb =>
      obtain ⟨m, b', hm', _, rfl⟩ := Looser.split_right hb
      obtain ⟨d, g⟩ := x
      obtain rfl : d = c := hx.1
      rw [Looser.eq_of_no_gaps hm'] at hs
      exact infix_of_marksFrom hs

end JspLayout.Text
