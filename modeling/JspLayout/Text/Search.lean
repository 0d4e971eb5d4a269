import JspLayout.Text.Blank

/-! Finding and replacing one text inside another.

    `cut?` is the search everything else is built on: it splits a text around the first occurrence
    of another, and nothing is lost in the split. -/

namespace JspLayout.Text

/-- What follows `p` when the text begins with it. -/
def after? : Text → Text → Option Text
  | [], s => some s
  | _ :: _, [] => none
  | a :: p, b :: s => if a = b then after? p s else none

/-- Whether `s` begins with `p`. -/
def begins (p s : Text) : Bool := (after? p s).isSome

/-- What stands before `p` when the text ends with it. -/
def before? (p s : Text) : Option Text := (after? p.reverse s.reverse).map List.reverse

/-- Whether `s` ends with `p`. -/
def ends (p s : Text) : Bool := (before? p s).isSome

/-- The text before and the text after the first occurrence of `p`. -/
def cut? (p : Text) : Text → Option (Text × Text)
  | [] => if p = [] then some ([], []) else none
  | c :: s =>
    match after? p (c :: s) with
    | some rest => some ([], rest)
    | none => (cut? p s).map fun (l, r) => (c :: l, r)

/-- Whether `p` occurs in `s`. -/
def holds (p s : Text) : Bool := (cut? p s).isSome

theorem eq_append_of_after? : ∀ {p s r : Text}, after? p s = some r → s = p ++ r
  | [], s, r, h => by simpa [after?] using h
  | _ :: _, [], _, h => by simp [after?] at h
  | a :: p, b :: s, r, h => by
    rw [after?] at h
    split at h
    · next hab => rw [hab, eq_append_of_after? h]; rfl
    · exact absurd h (by simp)

/-- A cut loses nothing: the parts around `p` give the text back. -/
theorem eq_append_of_cut? {p : Text} : ∀ {s l r : Text}, cut? p s = some (l, r) → s = l ++ (p ++ r)
  | [], l, r, h => by
    rw [cut?] at h
    split at h
    · next hp => simp only [Option.some.injEq, Prod.mk.injEq] at h; simp [← h.1, ← h.2, hp]
    · exact absurd h (by simp)
  | c :: s, l, r, h => by
    rw [cut?] at h
    split at h
    · next rest hr =>
      simp only [Option.some.injEq, Prod.mk.injEq] at h
      rw [← h.1, ← h.2]
      simpa using eq_append_of_after? hr
    · obtain ⟨⟨l', r'⟩, hc, he⟩ := Option.map_eq_some_iff.mp h
      simp only [Prod.mk.injEq] at he
      rw [eq_append_of_cut? hc, ← he.1, ← he.2]
      rfl

/-- What follows an occurrence of a text that is not empty is shorter than the whole. -/
theorem length_lt_of_cut? {p s l r : Text} (hp : p ≠ []) (h : cut? p s = some (l, r)) :
    r.length < s.length := by
  have hlen : 0 < p.length := List.length_pos_iff.mpr hp
  rw [eq_append_of_cut? h]
  simp only [List.length_append]
  omega

/-- Every occurrence of `old` replaced by `new`, from the left. An empty `old` occurs before every
    character and at the end. -/
def replace (old new : Text) (s : Text) : Text :=
  if _ : old = [] then new ++ s.flatMap fun c => c :: new
  else
    match _ : cut? old s with
    | none => s
    | some (l, r) => l ++ new ++ replace old new r
termination_by s.length
decreasing_by exact length_lt_of_cut? (by assumption) (by assumption)

/-- Whether `s` stands before `t` in the order of code points, or is `t`. -/
def le : Text → Text → Bool
  | [], _ => true
  | _ :: _, [] => false
  | a :: s, b :: t => a.toNat < b.toNat || (a == b && le s t)

/-- The texts joined with `sep` between them. -/
def join (sep : Text) (parts : List Text) : Text := sep.intercalate parts

end JspLayout.Text
