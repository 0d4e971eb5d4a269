import JspLayout.Text.Search

/-! Names that a misspelt one may stand for.

    Two names are alike by what they have in common: their longest common part, and in the same way
    what lies to the left and to the right of it. -/

namespace JspLayout

/-- The length of what two texts begin with in common. -/
def commonLength : Text → Text → Nat
  | a :: s, b :: t => if a = b then commonLength s t + 1 else 0
  | _, _ => 0

/-- Where the longest common part of two texts begins in each, and its length; of several the one
    that comes first in `s`, then in `t`. -/
def longestCommon (s t : Text) : Nat × Nat × Nat :=
  let places := (List.range s.length).flatMap fun i => (List.range t.length).map fun j => (i, j)
  places.foldl
    (fun best (i, j) =>
      let n := commonLength (s.drop i) (t.drop j)
      if n > best.2.2 then (i, j, n) else best)
    (0, 0, 0)

/-- The number of characters that two texts have in common, cut at most `depth` times. -/
def common : Nat → Text → Text → Nat
  | 0, _, _ => 0
  | depth + 1, s, t =>
    let (i, j, n) := longestCommon s t
    if n = 0 then 0
    else common depth (s.take i) (t.take j) + n + common depth (s.drop (i + n)) (t.drop (j + n))

/-- How alike a name is to another, as twice the characters in common over the characters of
    both. -/
def likeness (name other : Text) : Nat × Nat :=
  (2 * common (other.length + 1) other name, other.length + name.length)

/-- Whether a likeness is enough for a suggestion. -/
def isAlike (p : Nat × Nat) : Bool := 5 * p.1 ≥ 3 * p.2

/-- Whether the first of two names with their likenesses is suggested before the second. -/
def precedes (a b : (Nat × Nat) × Text) : Bool :=
  let x := a.1.1 * b.1.2
  let y := b.1.1 * a.1.2
  x > y || (x == y && Text.le b.2 a.2)

/-- The most names that are suggested. -/
def maxSuggestions : Nat := 3

/-- The names most like the given one, in alphabetical order. -/
def suggestions (names : List Text) (name : Text) : List Text :=
  let alike := (names.map fun n => (likeness name n, n)).filter fun p => isAlike p.1
  (((alike.mergeSort precedes).take maxSuggestions).map Prod.snd).mergeSort Text.le

end JspLayout
