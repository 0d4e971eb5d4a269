import JspLayout.Text.LetterCase

/-! How names are spelled in markup.

    Reading markup lowers the case of tag and attribute names, which custom tags do not tolerate.
    The spellings found in the source, and the tags written closed in themselves, are kept so that
    they can be restored. -/

namespace JspLayout.Markup

/-- ASCII letters, which a tag name starts with. -/
def isLetter (c : Char) : Bool := c.isAlpha

/-- A character of a tag name as written. -/
def isNameChar (c : Char) : Bool := !isBlank c && c != '/' && c != '>'

/-- A character of an attribute name as written. -/
def isKeyChar (c : Char) : Bool :=
  !isBlank c && c != '"' && c != '\'' && c != '=' && c != '/' && c != '>'

/-- The attributes of a tag up to its closing bracket: as written, with every quoted value replaced
    by a space, and what follows the bracket. -/
def tagRest? (s : Text) : Option (Text × Text × Text) :=
  match s with
  | [] => none
  | c :: r =>
    if c = '>' then some ([], [], r)
    else if c = '"' ∨ c = '\'' then
      match _ : Text.cut? [c] r with
      | none => none
      | some (value, rest) =>
        (tagRest? rest).map fun (raw, masked, tail) => (c :: value ++ c :: raw, ' ' :: masked, tail)
    else (tagRest? r).map fun (raw, masked, tail) => (c :: raw, c :: masked, tail)
termination_by s.length
decreasing_by
  · have := Text.length_lt_of_cut? (List.cons_ne_nil _ _) ‹Text.cut? [c] r = some (value, rest)›
    simp only [List.length_cons]; omega
  · simp

/-- The start tag whose name is the longest of at most `n` characters of `s` for which the rest of
    the tag can be read. -/
def tagUpTo? (s : Text) : Nat → Option (Text × Text × Text × Text)
  | 0 => none
  | n + 1 =>
    match tagRest? (s.drop (n + 1)) with
    | some (raw, masked, tail) => some (s.take (n + 1), raw, masked, tail)
    | none => tagUpTo? s n

/-- The start tag after an opening bracket: its name, its attributes as `tagRest?` gives them, and
    what follows. -/
def tag? (s : Text) : Option (Text × Text × Text × Text) :=
  match s with
  | [] => none
  | c :: _ => if isLetter c then tagUpTo? s (s.takeWhile isNameChar).length else none

/-- The runs of characters of attribute names; `run` is the run in progress, last character
    first. -/
def keysFrom (run : Text) : Text → List Text
  | [] => if run = [] then [] else [run.reverse]
  | c :: s =>
    if isKeyChar c then keysFrom (c :: run) s
    else if run = [] then keysFrom [] s
    else run.reverse :: keysFrom [] s

/-- The spellings of names by their lower case, first one first, and the lowered names of the tags
    closed in themselves. -/
structure Spelling where
  names : List (Text × Text) := []
  selfClosed : List Text := []

namespace Spelling

/-- Adds a spelling unless the name has one already. -/
def add (sp : Spelling) (name : Text) : Spelling :=
  if sp.names.any fun p => p.1 == name.lower then sp
  else { sp with names := sp.names ++ [(name.lower, name)] }

/-- The spelling of a lowered name. -/
def restore (sp : Spelling) (lowered : Text) : Text := (sp.names.lookup lowered).getD lowered

/-- Adds the names of one start tag. -/
def addTag (sp : Spelling) (name raw masked : Text) : Spelling :=
  let sp := sp.add name
  let sp :=
    if raw.trimRight.getLast? == some '/' && !sp.selfClosed.contains name.lower then
      { sp with selfClosed := sp.selfClosed ++ [name.lower] }
    else sp
  (keysFrom [] masked).foldl add sp

/-- Adds the names of all start tags in the text. -/
def scan (sp : Spelling) (s : Text) : Spelling :=
  match s with
  | [] => sp
  | c :: r =>
    if c = '<' then
      match tag? r with
      | some (name, raw, masked, tail) =>
        if _ : tail.length ≤ r.length then scan (sp.addTag name raw masked) tail else sp
      | none => scan sp r
    else scan sp r
termination_by s.length
decreasing_by all_goals simp only [List.length_cons]; omega

/-- The spellings in a text. -/
def ofText (s : Text) : Spelling := scan {} s

end Spelling

/-- Whether some tag in the text is closed in itself. -/
def closesTags : Text → Bool
  | [] => false
  | c :: s => (c == '/' && (Text.trimLeft s).head? == some '>') || closesTags s

end JspLayout.Markup
