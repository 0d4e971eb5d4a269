import JspLayout.Java.Wrapper
import JspLayout.Proofs.Bodies
import JspLayout.Proofs.Braces

/-! Fragments in and out of their wrapper.

    A fragment is found again in its wrapper by the brace that closes the one in front of it. Main
    statement: where the braces of the fragment are nested and closed, unwrapping gives it back up to
    blanks if the lexer is back in code at its end. At the end of a line comment it is not: the braces
    of the wrapper are then part of the comment, and only a declaration, whose wrapper is found by the
    characters alone, comes back. -/

namespace JspLayout.Java

open Text

/-! ### The closing brace -/

section

variable {k n : Nat} {l r : List (Char × CharKind)}

/-- A character that leaves `k` blocks open inside the one looked for is passed over. -/
theorem untilClose?_cons {x : Char × CharKind} (hk : (k : Int) = n + surplus (codeAmong [x])) :
    untilClose? (n + 1) (x :: l) = (untilClose? (k + 1) l).map (x.1 :: ·) := by
  obtain ⟨c, kind⟩ := x
  rw [untilClose?]
  split
  · next hopen =>
    obtain ⟨rfl, rfl⟩ := hopen
    have hone : surplus (codeAmong [('{', .code)]) = 1 := by decide
    obtain rfl : k = n + 1 := by omega
    rfl
  · next hopen =>
    split
    · next hclose =>
      obtain ⟨rfl, rfl⟩ := hclose
      have hone : surplus (codeAmong [('}', .code)]) = -1 := by decide
      obtain rfl : n = k + 1 := by omega
      rfl
    · next hclose =>
      have hnone : surplus (codeAmong [(c, kind)]) = 0 := by
        by_cases hkind : kind = .code
        · have h1 : c ≠ '{' := fun h => hopen ⟨hkind, h⟩
          have h2 : c ≠ '}' := fun h => hclose ⟨hkind, h⟩
          simp [codeAmong, hkind, surplus, h1, h2]
        · simp [codeAmong, hkind]
      obtain rfl : k = n := by omega
      rfl

theorem untilClose?_append (h : Covers n (codeAmong l))
    (hk : (k : Int) = n + surplus (codeAmong l)) :
    untilClose? (n + 1) (l ++ r) = (untilClose? (k + 1) r).map (l.map Prod.fst ++ ·) := by
  induction l generalizing n with
  | nil =>
    have hkn : (k : Int) = n := hk.trans (Int.add_zero _)
    obtain rfl : k = n := by omega
    simp
  | cons x l ih =>
    rw [← List.singleton_append, codeAmong_append] at h hk
    rw [covers_append] at h
    rw [surplus_append] at hk
    obtain ⟨j, hj⟩ := Int.eq_ofNat_of_zero_le h.1.surplus_nonneg
    rw [List.cons_append, untilClose?_cons hj.symm, ih (hj ▸ h.2) (by omega), Option.map_map]
    rfl

theorem untilClose?_eq_none (h : Covers n (codeAmong l)) : untilClose? (n + 1) l = none := by
  obtain ⟨k, hk⟩ := Int.eq_ofNat_of_zero_le h.surplus_nonneg
  have := untilClose?_append (r := []) h hk.symm
  rwa [List.append_nil] at this

end

/-! ### The body of the method -/

/-- What follows a fragment in its wrapper is code only where the fragment ends in code. -/
theorem codeAmong_wrapperEnd {m : Mode} (h : m.Meets none) (hm : m ≠ .code) :
    codeAmong (classifyFrom m (wrapperEnd ++ wrapperEnd)) = [] := by
  cases m with
  | code => exact absurd rfl hm
  | literal q escaped => rcases h.quoted rfl with rfl | rfl <;> cases escaped <;> decide
  | lineComment => decide
  | commentStart => exact absurd (h.opening rfl) (by simp)
  | blockComment => decide
  | commentEnd => exact absurd (h.closing rfl) (by simp)

theorem braced?_append {w : Text} (hw : '{' ∉ w) (l : List (Char × CharKind)) :
    braced? (w.map (·, .code) ++ ('{', .code) :: l) = untilClose? 1 l := by
  have hdrop : (w.map (·, CharKind.code) ++ ('{', .code) :: l).dropWhile (· != ('{', .code)) =
      ('{', .code) :: l := by
    rw [List.dropWhile_append_of_pos, List.dropWhile_cons_of_neg (by simp)]
    intro p hp
    obtain ⟨c, hc, rfl⟩ := List.mem_map.mp hp
    have : c ≠ '{' := fun h => hw (h ▸ hc)
    simpa using this
  rw [braced?, hdrop]

theorem methodBody?_of_cut? {formatted before after : Text}
    (h : cut? methodSignature formatted = some (before, after)) :
    methodBody? formatted = braced? ((classify formatted).drop before.length) := by
  rw [methodBody?, h]
  rfl

variable {code : Text}

/-- The body of the method is looked for right after its opening brace. -/
theorem methodBody?_wrapped (rest : Text) :
    methodBody? (classHead ++ methodSignature ++ " \x7b ".toList ++ rest) =
      untilClose? 1 ((' ', .code) :: classify rest) := by
  have hcut : cut? methodSignature (classHead ++ methodSignature ++ " \x7b ".toList ++ rest) =
      some (classHead, " \x7b ".toList ++ rest) :=
    (cut?_eq_some_iff (by decide)).mpr ⟨by simp only [List.append_assoc], by decide +kernel⟩
  have hkinds : classify (classHead ++ methodSignature ++ " \x7b ".toList ++ rest) =
      classHead.map (·, .code) ++ ((methodSignature ++ [' ']).map (·, .code) ++
        ('{', .code) :: (' ', .code) :: classify rest) := by
    rw [classify_append_unquoted (by decide)]
    simp only [List.map_append, List.append_assoc]
    rfl
  have hdrop : (classify (classHead ++ methodSignature ++ " \x7b ".toList ++ rest)).drop
      classHead.length = (methodSignature ++ [' ']).map (·, .code) ++
        ('{', .code) :: (' ', .code) :: classify rest := by
    rw [hkinds]
    exact List.drop_left' (List.length_map _)
  rw [methodBody?_of_cut? hcut, hdrop, braced?_append (by decide)]

theorem methodBody?_wrap (hnested : Nested (codeOf code))
    (hclosed : (countBraces code).1 = (countBraces code).2) {kind : BlockKind}
    (hkind : kind ≠ .declaration) : methodBody? (wrap code kind) =
      if modeAfter .code none code = .code then some (' ' :: (code ++ [' '])) else none := by
  have hcovers : Covers (0 : Nat) (codeAmong (classify code)) := nested_iff_covers.mp hnested
  have heven : ((0 : Nat) : Int) = (0 : Nat) + surplus (codeAmong (classify code)) := by
    rw [← codeOf_eq_codeAmong, surplus_codeOf]
    omega
  have hend : untilClose? 1 (classifyFrom .code (wrapperEnd ++ wrapperEnd)) = some [' '] := by decide
  have hfirst (l) : untilClose? 1 ((' ', .code) :: l) = (untilClose? 1 l).map (' ' :: ·) :=
    untilClose?_cons (n := 0) (k := 0) (by decide)
  have hwrap : wrap code kind =
      classHead ++ methodSignature ++ " \x7b ".toList ++ (code ++ (wrapperEnd ++ wrapperEnd)) := by
    cases kind <;> first | exact absurd rfl hkind | simp only [wrap, List.append_assoc]
  rw [hwrap, methodBody?_wrapped, classify_append_apart (Or.inl (by decide)), hfirst]
  split
  · next hm =>
    rw [hm, untilClose?_append hcovers heven, map_fst_classify, hend, Option.map_some, Option.map_some]
  · next hm =>
    rw [untilClose?_eq_none (n := 0), Option.map_none]
    · rw [codeAmong_append, codeAmong_wrapperEnd (rests_code.meets _).modeAfter hm, List.append_nil]
      exact hcovers

/-! ### The body of the class -/

theorem classBody?_wrap (code : Text) :
    classBody? (wrap code .declaration) = some (' ' :: (code ++ [' '])) := by
  have hhead : classHead = "class __J ".toList ++ ['{', ' '] := by decide
  have htail : wrapperEnd = [' ', '}'] := by decide
  have hopen : cut? ['{'] (wrap code .declaration) =
      some ("class __J ".toList, ' ' :: (code ++ wrapperEnd)) := by
    refine (cut?_eq_some_iff (by simp)).mpr ⟨?_, by decide +kernel⟩
    rw [wrap, hhead]
    simp only [List.append_assoc, List.cons_append, List.nil_append]
  have hclose : cut? ['}'] (' ' :: (code ++ wrapperEnd)).reverse =
      some ([], (' ' :: (code ++ [' '])).reverse) := by
    refine (cut?_eq_some_iff (by simp)).mpr ⟨by simp [htail], by decide⟩
  simp only [classBody?, hopen, Option.bind_eq_bind, Option.bind_some, hclose, List.reverse_reverse]
  rfl

/-! ### There and back -/

theorem solid_dedentUnwrapped (body : Text) : (dedentUnwrapped body).solid = body.solid :=
  solid_of_marks (by
    rw [dedentUnwrapped, marks_trimRight, marks_stripMargin, marks_trimBlankLines])

/-- What comes back of a fragment whose braces are nested and closed: the fragment, blanks apart, if it is
    a declaration or ends in code, and else nothing. -/
theorem solid_unwrap_wrap (code : Text) (kind : BlockKind) (hnested : Nested (codeOf code))
    (hclosed : (countBraces code).1 = (countBraces code).2) :
    (unwrap? (wrap code kind) kind).map solid =
      if kind = .declaration ∨ modeAfter .code none code = .code then some code.solid else none := by
  have hbody : (dedentUnwrapped (' ' :: (code ++ [' ']))).solid = code.solid := by
    rw [solid_dedentUnwrapped]
    simp [solid, isBlank]
  by_cases hkind : kind = .declaration
  · rw [if_pos (Or.inl hkind), hkind, unwrap?, classBody?_wrap, Option.map_some, Option.map_some, hbody]
  · have hmethod : unwrap? (wrap code kind) kind =
        (methodBody? (wrap code kind)).map dedentUnwrapped := by
      cases kind <;> first | exact absurd rfl hkind | rfl
    rw [hmethod, methodBody?_wrap hnested hclosed hkind]
    by_cases hm : modeAfter .code none code = .code
    · rw [if_pos hm, if_pos (Or.inr hm), Option.map_some, Option.map_some, hbody]
    · rw [if_neg hm, if_neg (by tauto), Option.map_none, Option.map_none]

/-- The signature again, braces in literals and comments, and a line comment that a line feed ends. -/
theorem solid_unwrap_wrap_nested :
    let code : Text := "void __m() \x7b // \x7d\n  x('\x7d', \"\x7b\\\"\"); /* \x7b */ \x7d".toList
    Nested (codeOf code) ∧ (countBraces code).1 = (countBraces code).2 ∧
      (unwrap? (wrap code .scriptlet) .scriptlet).map solid = some code.solid := by
  intro code
  have hnested : Nested (codeOf code) := by decide +kernel
  have hclosed : (countBraces code).1 = (countBraces code).2 := by decide +kernel
  refine ⟨hnested, hclosed, (solid_unwrap_wrap code .scriptlet hnested hclosed).trans ?_⟩
  exact if_pos (Or.inr (by decide +kernel))

/-- After a line comment the method that was wrapped around the fragment is not found. -/
theorem unwrap_wrap_lineComment :
    let code : Text := "x(); // c".toList
    modeAfter .code none code = .lineComment ∧ Nested (codeOf code) ∧
      (countBraces code).1 = (countBraces code).2 ∧ unwrap? (wrap code .scriptlet) .scriptlet = none := by
  decide +kernel

end JspLayout.Java
