import JspLayout.Proofs.Fragments
import JspLayout.Proofs.Nesting
import JspLayout.Proofs.Reading

/-! Braces of the code.

    A text is *nested* when no part from its start closes more braces than it opens. Only the code
    counts, and blanks play no part in it, so the braces of a line are told by its characters that are
    not blank, each with its kind. Main statements: these are the same for a line and for its fragments
    in turn, which are cut in code only (`Cuts.solidKinds_eq`, `Cuts.modeAfter_of_mem_dropLast`), and a
    fragment has its braces in front of the comment after it (`solid_codeOf_codePart`). -/

namespace JspLayout.Java

open Text

/-! ### Braces in order -/

/-- How many more braces a text opens than it closes. -/
def surplus (s : Text) : Int := s.count '{' - s.count '}'

/-- Where `n` blocks are open, no part of the text from its start closes one that is not. -/
def Covers (n : Int) (s : Text) : Prop := ∀ p, p <+: s → 0 ≤ n + surplus p

/-- No part of the text from its start closes more braces than it opens. -/
def Nested (s : Text) : Prop := ∀ p, p <+: s → p.count '}' ≤ p.count '{'

@[simp] theorem surplus_nil : surplus [] = 0 := rfl

theorem surplus_append (s t : Text) : surplus (s ++ t) = surplus s + surplus t := by
  simp only [surplus, List.count_append]
  omega

theorem surplus_solid (s : Text) : surplus s.solid = surplus s := by
  rw [surplus, solid, List.count_filter (by decide), List.count_filter (by decide), surplus]

theorem surplus_codeOf (s : Text) : surplus (codeOf s) = (countBraces s).1 - (countBraces s).2 := rfl

variable {n : Int} {s t : Text}

theorem nested_iff_covers : Nested s ↔ Covers 0 s := by
  refine forall₂_congr fun p _ => ?_
  rw [surplus]
  omega

theorem Covers.nonneg (h : Covers n s) : 0 ≤ n := by
  have := h [] (List.nil_prefix)
  rw [surplus_nil] at this
  omega

/-- What a text leaves open is not less than nothing. -/
theorem Covers.surplus_nonneg (h : Covers n s) : 0 ≤ n + surplus s := h s List.prefix_rfl

theorem covers_append : Covers n (s ++ t) ↔ Covers n s ∧ Covers (n + surplus s) t := by
  constructor
  · intro h
    refine ⟨fun p hp => h p (hp.trans (List.prefix_append s t)), fun p hp => ?_⟩
    have := h (s ++ p) ((List.prefix_append_right_inj s).mpr hp)
    rw [surplus_append] at this
    omega
  · rintro ⟨hs, ht⟩ p hp
    rcases List.prefix_or_prefix_of_prefix hp (List.prefix_append s t) with hps | ⟨q, rfl⟩
    · exact hs p hps
    · have := ht q ((List.prefix_append_right_inj s).mp hp)
      rw [surplus_append]
      omega

theorem covers_nil : Covers n [] ↔ 0 ≤ n := by
  refine ⟨Covers.nonneg, fun h p hp => ?_⟩
  rw [List.prefix_nil.mp hp, surplus_nil]
  omega

theorem covers_cons {c : Char} : Covers n (c :: s) ↔ 0 ≤ n ∧ Covers (n + surplus [c]) s := by
  rw [← List.singleton_append, covers_append]
  constructor
  · rintro ⟨hc, hs⟩
    exact ⟨hc.nonneg, hs⟩
  · rintro ⟨hn, hs⟩
    refine ⟨fun p hp => ?_, hs⟩
    rcases List.prefix_cons_iff.mp hp with rfl | ⟨q, rfl, hq⟩
    · rw [surplus_nil]
      omega
    · rw [List.prefix_nil.mp hq]
      exact hs.nonneg

instance decidableCovers : ∀ (n : Int) (s : Text), Decidable (Covers n s)
  | _, [] => decidable_of_iff _ covers_nil.symm
  | n, c :: s =>
    have := decidableCovers (n + surplus [c]) s
    decidable_of_iff _ covers_cons.symm

instance (s : Text) : Decidable (Nested s) := decidable_of_iff _ nested_iff_covers.symm

theorem covers_solid : Covers n s.solid ↔ Covers n s := by
  constructor
  · intro h p hp
    rw [← surplus_solid]
    exact h (solid p) (hp.filter _)
  · intro h p hp
    obtain ⟨q, hq, rfl⟩ := List.prefix_filter_iff.mp hp
    have := h q hq
    rwa [← surplus_solid] at this

/-! ### Kinds of the characters that are not blank -/

/-- The code among characters with their kinds. -/
def codeAmong (l : List (Char × CharKind)) : Text :=
  l.filterMap fun x => if x.2 = .code then some x.1 else none

theorem codeAmong_append (l₁ l₂ : List (Char × CharKind)) :
    codeAmong (l₁ ++ l₂) = codeAmong l₁ ++ codeAmong l₂ := List.filterMap_append

theorem codeOf_eq_codeAmong (s : Text) : codeOf s = codeAmong (classify s) := rfl

theorem solid_codeAmong (l : List (Char × CharKind)) :
    (codeAmong l).solid = codeAmong (l.filter fun x => !isBlank x.1) := by
  induction l with
  | nil => rfl
  | cons x l ih =>
    obtain ⟨c, kind⟩ := x
    simp only [codeAmong, solid] at ih ⊢
    by_cases hk : kind = .code <;> by_cases hc : isBlank c = true <;> simp [hk, hc, ih]

theorem solid_codeOf (s : Text) : (codeOf s).solid = codeAmong (solidKinds s) := solid_codeAmong _

/-- Parts that are read apart have their kinds one after the other. -/
theorem classify_append_apart {u v : Text} (h : Apart u v.head?) :
    classify (u ++ v) = classify u ++ classifyFrom (modeAfter .code none u) v := by
  obtain ⟨htrace, hmode⟩ := trace_eq_of_apart h .code
  simp only [classify, classifyFrom_eq_trace]
  rw [trace_append, Option.or_none, htrace, hmode, List.map_append]

/-- The fragments of a line, each read on its own, have the kinds of the line. -/
theorem Cuts.solidKinds_eq {fs : List Text} (h : Cuts s fs) (hf : '\n' ∉ s) :
    solidKinds s = fs.flatMap solidKinds := by
  induction h with
  | blank hw => exact solidKinds_blank hw
  | last => rw [List.flatMap_singleton, solidKinds_trim]
  | @comment u c _ hm ha =>
    have hone : Blank [' '] := Blank.cons (by decide) blank_nil
    have htrim : modeAfter .code none u.trim = .code :=
      (read_trim rests_code (fun h => hf (List.mem_append_left _ h)) (by rw [hm]; rfl)).1.trans hm
    rw [solidKinds_append (sealed_of_apart hm ha), List.flatMap_singleton,
      solidKinds_append (sealed_of_apart htrim (Or.inl (by simp [Plain]))), solidKinds_trim]
    exact congrArg _ (solidKinds_blank_append hone c).symm
  | cut _ hm ha _ ih =>
    rw [solidKinds_append (sealed_of_apart hm ha), ih fun h => hf (List.mem_append_right _ h),
      List.flatMap_cons, solidKinds_trim]

/-- The code of a line is that of its fragments. -/
theorem Cuts.solid_codeOf_eq {fs : List Text} (h : Cuts s fs) (hf : '\n' ∉ s) :
    (codeOf s).solid = fs.flatMap fun f => (codeOf f).solid := by
  simp only [solid_codeOf]
  rw [h.solidKinds_eq hf, codeAmong, List.filterMap_flatMap]
  rfl

/-- The braces of a fragment are those of its code, in front of the comment after it. -/
theorem solid_codeOf_codePart (fragment : Text) :
    (codeOf (codePart fragment)).solid = (codeOf fragment).solid := by
  obtain ⟨a, b, rfl, hsplit, hseal, -, htrails⟩ := splitTrailingComment_parts fragment
  have hb : codeAmong (solidKinds b) = [] := by
    refine List.filterMap_eq_nil_iff.mpr fun x hx => ?_
    obtain ⟨hmem, hsolid⟩ := List.mem_filter.mp hx
    obtain ⟨c, kind⟩ := x
    have htrail := htrails _ hmem
    cases kind with
    | code => simp_all [trailsCode]
    | literal => rfl
    | comment => rfl
  rw [codePart, hsplit, solid_codeOf, solid_codeOf, solidKinds_trimRight]
  by_cases hnil : b = []
  · rw [hnil, List.append_nil]
  · rw [solidKinds_append (hseal hnil), codeAmong_append, hb, List.append_nil]

/-! ### The fragments of a line -/

/-- Every fragment but the last ends in code, so no literal and no comment goes on in the next one. -/
theorem Cuts.modeAfter_of_mem_dropLast {fs : List Text} (h : Cuts s fs) (hf : '\n' ∉ s) :
    ∀ f ∈ fs.dropLast, modeAfter .code none f = .code := by
  induction h with
  | blank => simp
  | last => simp
  | comment => simp
  | @cut u s fs _ hm _ _ ih =>
    rw [List.mem_append, not_or] at hf
    intro f hfs
    cases fs with
    | nil => simp at hfs
    | cons f' fs =>
      rw [List.dropLast_cons_of_ne_nil (List.cons_ne_nil _ _)] at hfs
      rcases List.mem_cons.mp hfs with rfl | hfs
      · exact (read_trim rests_code hf.1 (by rw [hm]; rfl)).1.trans hm
      · exact ih hf.2 f hfs

/-- Counts of opening and closing braces added up. -/
def totalBraces (counts : List (Nat × Nat)) : Nat × Nat :=
  counts.foldr (fun n total => (n.1 + total.1, n.2 + total.2)) (0, 0)

/-- The braces of a line are those of its fragments. -/
theorem Cuts.countBraces_eq {fs : List Text} (h : Cuts s fs) (hf : '\n' ∉ s) :
    countBraces s = totalBraces (fs.map countBraces) := by
  rw [Java.countBraces_eq, h.solidKinds_eq hf]
  clear h
  induction fs with
  | nil => rfl
  | cons f fs ih =>
    rw [List.flatMap_cons, List.count_append, List.count_append, List.map_cons, totalBraces,
      List.foldr_cons, ← totalBraces, ← ih, Java.countBraces_eq]

/-- Both ways of lexing agree: the fragments of a line, each read on its own, have the characters of
    the line with their kinds, blanks apart; no literal and no comment is cut between two fragments;
    and the braces of the line are those of its fragments. -/
theorem scan_reads_as_line {line : Text} (hf : '\n' ∉ line) (splitBraces : Bool) :
    (scan line splitBraces).1.flatMap solidKinds = solidKinds line ∧
      (∀ f ∈ (scan line splitBraces).1.dropLast, modeAfter .code none f = .code) ∧
        totalBraces ((splitFragments line).map countBraces) = countBraces line :=
  ⟨((cuts_scan hf splitBraces).solidKinds_eq hf).symm,
    (cuts_scan hf splitBraces).modeAfter_of_mem_dropLast hf, ((cuts_scan hf true).countBraces_eq hf).symm⟩

/-- Braces in a literal and in a comment, one of which is attached to the fragment before it. -/
theorem scan_reads_as_line_loop :
    let line : Text := "for (;;) \x7b a(\"\x7d //\", '\\''); /* ; */ b(); \x7d // \x7b \"".toList
    '\n' ∉ line ∧
      (scan line true).1.flatMap solidKinds = solidKinds line ∧
        (∀ f ∈ (scan line true).1.dropLast, modeAfter .code none f = .code) ∧
          totalBraces ((splitFragments line).map countBraces) = countBraces line := by
  intro line
  have hf : '\n' ∉ line := by decide +kernel
  exact ⟨hf, scan_reads_as_line hf true⟩

end JspLayout.Java
