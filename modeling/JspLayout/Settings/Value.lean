import JspLayout.Number.Double
import JspLayout.Text.Quoted

/-! Setting values of any kind, as they come out of a settings file.

    Settings are checked after they are collected, so a value of the wrong kind has to be carried
    until then. A value also has a text, in which the texts inside lists and tables are quoted. -/

namespace JspLayout

/-- A value of a settings file. -/
inductive Value where
  | null
  | bool (b : Bool)
  | int (i : Int)
  | double (x : Double)
  | text (s : Text)
  /-- A date, a time or both, as written. -/
  | moment (s : Text)
  | list (items : List Value)
  | table (entries : List (Text × Value))
  deriving Inhabited

namespace Value

/-- The value under a key of a table. -/
def get? (v : Value) (key : Text) : Option Value :=
  match v with
  | .table entries => entries.lookup key
  | _ => none

/-- The words for true and false. -/
def boolText (b : Bool) : Text := if b then "True".toList else "False".toList

mutual

/-- The text of a value inside another one. -/
def inner : Value → Text
  | .null => "None".toList
  | .bool b => boolText b
  | .int i => Text.ofInt i
  | .double x => x.text
  | .text s => s.quoted
  | .moment s => s
  | .list items => '[' :: innerList items ++ [']']
  | .table entries => '{' :: innerTable entries ++ ['}']

def innerList : List Value → Text
  | [] => []
  | [v] => inner v
  | v :: w :: vs => inner v ++ ',' :: ' ' :: innerList (w :: vs)

def innerTable : List (Text × Value) → Text
  | [] => []
  | [(k, v)] => k.quoted ++ ':' :: ' ' :: inner v
  | (k, v) :: e :: es => k.quoted ++ ':' :: ' ' :: inner v ++ ',' :: ' ' :: innerTable (e :: es)

end

/-- The text of a value. -/
def display : Value → Text
  | .text s => s
  | v => inner v

end Value

end JspLayout
