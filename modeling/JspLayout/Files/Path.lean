import JspLayout.Text.LetterCase
import JspLayout.Text.Search

/-! Paths of files.

    A path is a list of names below the root or below the working directory. Repeated slashes and
    single dots say nothing and are dropped when a path is read; double dots are kept, for what they
    mean depends on what stands before them. -/

namespace JspLayout

/-- A place in a file system: the names on the way down from the root. -/
abbrev Location := List Text

namespace Text

/-- The parts of a text between slashes. -/
def splitSlash : Text → List Text
  | [] => [[]]
  | c :: s =>
    if c = '/' then [] :: splitSlash s
    else
      match splitSlash s with
      | [] => [[c]]
      | name :: names => (c :: name) :: names

end Text

/-- The name of the directory itself. -/
def dot : Text := ['.']

/-- The name of the directory above. -/
def dotDot : Text := ['.', '.']

/-- Where a path begins: in the working directory, at the root, or at the root written with two
    slashes. -/
inductive Anchor where
  | here
  | root
  | doubleRoot
  deriving DecidableEq, Repr

def Anchor.text : Anchor → Text
  | .here => []
  | .root => ['/']
  | .doubleRoot => ['/', '/']

/-- A path. -/
structure Path where
  anchor : Anchor
  names : List Text
  deriving DecidableEq

namespace Path

/-- The anchor of a path as it is written. -/
def anchorOf : Text → Anchor
  | '/' :: '/' :: '/' :: _ => .root
  | '/' :: '/' :: _ => .doubleRoot
  | '/' :: _ => .root
  | _ => .here

/-- The names that say something. -/
def namesOf (s : Text) : List Text := s.splitSlash.filter fun n => n != [] && n != dot

def ofText (s : Text) : Path := ⟨anchorOf s, namesOf s⟩

/-- The path of a place. -/
def ofLocation (l : Location) : Path := ⟨.root, l⟩

/-- The text of a path; an empty one stands for the working directory. -/
def text (p : Path) : Text :=
  if p.anchor = .here ∧ p.names = [] then dot else p.anchor.text ++ Text.join ['/'] p.names

/-- The path of an entry of a directory. -/
def entry (p : Path) (name : Text) : Path := { p with names := p.names ++ [name] }

/-- The path without its last name. -/
def parent (p : Path) : Path := { p with names := p.names.dropLast }

/-- The path and those above it, the whole path first. -/
def chain (p : Path) : List Path :=
  (List.range (p.names.length + 1)).reverse.map fun n => { p with names := p.names.take n }

/-- The ending of a file name: from the last dot on, which is neither its first nor its last
    character. -/
def suffixOf (name : Text) : Text :=
  let tail := (name.reverse.takeWhile (· != '.')).reverse
  let stem := name.take (name.length - tail.length - 1)
  if tail = [] ∨ stem = [] ∨ tail.length = name.length then [] else '.' :: tail

/-- The ending of the last name. -/
def suffix (p : Path) : Text := (p.names.getLast?.map suffixOf).getD []

/-- Whether the path is `base` or below it, name by name. -/
def isWithin (p base : Path) : Bool := p.anchor == base.anchor && base.names.isPrefixOf p.names

/-- The home directories: that of the user, and those of other accounts by name. -/
structure Homes where
  own : Text
  others : List (Text × Text) := []

/-- The path with a home directory in place of a first name that begins with a tilde, if it is known
    whose home is meant. -/
def expandHome? (homes : Homes) (p : Path) : Option Path :=
  match p.anchor, p.names with
  | .here, ('~' :: user) :: rest =>
    let home? := if user = [] then some homes.own else homes.others.lookup user
    home?.map fun home =>
      let home := ofText home
      { home with names := home.names ++ rest }
  | _, _ => some p

end Path

end JspLayout
