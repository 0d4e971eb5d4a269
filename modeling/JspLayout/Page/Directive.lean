import JspLayout.Page.Segment
import JspLayout.Text.LetterCase

/-! Directives in canonical form.

    A directive is a name followed by attributes, `key="value"`, `key='value'` or `key=value`. Its
    canonical form has the attributes sorted by key, without regard to case first, one space apart
    and between double quotes where the value allows it. A body that is not of this shape is kept
    as it is. -/

namespace JspLayout.Directive

/-- An attribute of a directive. -/
structure Attribute where
  key : Text
  value : Text
  deriving DecidableEq

/-- What a directive body is made of: attributes, and characters that belong to none. -/
inductive Item where
  | attribute (a : Attribute)
  | other (c : Char)
  deriving DecidableEq

/-- A character that can stand in a value without quotes. -/
def isBare (c : Char) : Bool := !isBlank c && c != '"' && c != '\'' && c != '>'

/-- The value that `s` begins with, and what follows it: text between quotes, or a run of
    characters that need none. -/
def value? (s : Text) : Option (Text × Text) :=
  match s with
  | '"' :: r => Text.cut? ['"'] r
  | '\'' :: r => Text.cut? ['\''] r
  | _ => if s.takeWhile isBare = [] then none else some (s.takeWhile isBare, s.dropWhile isBare)

/-- The attribute that `s` begins with, and what follows it. Blanks may stand around the sign. -/
def attribute? (s : Text) : Option (Attribute × Text) :=
  match s.takeWhile isWord, Text.trimLeft (s.dropWhile isWord) with
  | [], _ => none
  | k :: key, '=' :: r => (value? (Text.trimLeft r)).map fun (v, rest) => (⟨k :: key, v⟩, rest)
  | _, _ => none

theorem length_dropWhile_le (p : Char → Bool) (s : Text) : (s.dropWhile p).length ≤ s.length :=
  (List.dropWhile_suffix p).length_le

theorem length_le_of_value? {s v rest : Text} (h : value? s = some (v, rest)) :
    rest.length ≤ s.length := by
  unfold value? at h
  split at h
  · have := Text.length_lt_of_cut? (by simp) h
    simp only [List.length_cons]; omega
  · have := Text.length_lt_of_cut? (by simp) h
    simp only [List.length_cons]; omega
  · split at h
    · exact absurd h (by simp)
    · simp only [Option.some.injEq, Prod.mk.injEq] at h
      rw [← h.2]
      exact length_dropWhile_le _ _

/-- What follows an attribute is shorter than the whole. -/
theorem length_lt_of_attribute? {s rest : Text} {a : Attribute}
    (h : attribute? s = some (a, rest)) : rest.length < s.length := by
  unfold attribute? at h
  split at h
  · exact absurd h (by simp)
  · next k key r hk hr =>
    obtain ⟨⟨v, rest'⟩, hv, he⟩ := Option.map_eq_some_iff.mp h
    simp only [Prod.mk.injEq] at he
    have h1 := length_le_of_value? hv
    have h2 := length_dropWhile_le isBlank r
    have h3 := length_dropWhile_le isBlank (s.dropWhile isWord)
    have h4 := length_dropWhile_le isWord s
    rw [Text.trimLeft] at hr h1
    rw [hr, List.length_cons] at h3
    rw [← he.2]
    omega
  · exact absurd h (by simp)

/-- A directive body taken apart: at each place an attribute if one starts there, else one
    character. -/
def items (s : Text) : List Item :=
  match s with
  | [] => []
  | c :: r =>
    match _ : attribute? (c :: r) with
    | some (a, rest) => .attribute a :: items rest
    | none => .other c :: items r
termination_by s.length
decreasing_by
  · exact length_lt_of_attribute? (by assumption)
  · simp

def attributesOf (is : List Item) : List Attribute :=
  is.filterMap fun
    | .attribute a => some a
    | .other _ => none

/-- What is left of a body when its attributes are taken out. -/
def residueOf (is : List Item) : Text :=
  is.filterMap fun
    | .attribute _ => none
    | .other c => some c

/-- The order of attributes: by the key without regard to case, then by the key. -/
def Attribute.le (a b : Attribute) : Bool :=
  let s := a.key.caseFold
  let t := b.key.caseFold
  if s = t then Text.le a.key b.key else Text.le s t

/-- An attribute with its value between quotes, single ones when it holds a double one. -/
def Attribute.render (a : Attribute) : Text :=
  if a.value.contains '"' then a.key ++ ['=', '\''] ++ a.value ++ ['\'']
  else a.key ++ ['=', '"'] ++ a.value ++ ['"']

/-- A directive body without blanks around it and role marks before it. -/
def plain (inner : Text) : Text := Text.trim (inner.trim.dropWhile (· == '@'))

/-- The name and the attributes of a directive body that holds nothing else. -/
def parse? (text : Text) : Option (Text × List Attribute) :=
  let name := text.takeWhile isWord
  let is := items (Text.trimLeft (text.dropWhile isWord))
  if name = [] ∨ (residueOf is).blank = false then none else some (name, attributesOf is)

/-- The canonical form of a directive body. -/
def normalize (inner : Text) : Text :=
  let text := plain inner
  match parse? text with
  | none => text
  | some (name, as) =>
    Text.join [' '] (name :: (as.mergeSort Attribute.le).map Attribute.render)

end JspLayout.Directive
