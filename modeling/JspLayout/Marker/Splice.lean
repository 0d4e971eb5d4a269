import JspLayout.Marker.Basic

/-! Putting code blocks back where their markers stand.

    A block goes on the line of its marker: the first line where the marker was, the last line at
    the indentation of that line, and the lines between one step further in, their own common
    indentation taken off. A block inside a start tag must not break the tag's line. -/

namespace JspLayout

/-- The longest common beginning of two texts. -/
def commonStart : Text → Text → Text
  | a :: s, b :: t => if a = b then a :: commonStart s t else []
  | _, _ => []

/-- The indentation that the lines share, lines of spaces and tabs alone left out. -/
def commonIndent? : List Text → Option Text
  | [] => none
  | l :: ls =>
    if l.all isIndent then commonIndent? ls
    else
      match commonIndent? ls with
      | none => some l.indent
      | some m => some (commonStart l.indent m)

/-- A line with the indentation `base`, or empty when it is blank. -/
def indentLine (base line : Text) : Text := if line.blank then [] else base ++ line.trimRight

/-- The lines between the first and the last of a block: their common indentation is replaced by
    `base`. -/
def indentInterior (base : Text) (interior : List Text) : List Text :=
  let m := (commonIndent? interior).getD []
  interior.map fun l => indentLine base (if l.all isIndent then [] else l.drop m.length)

/-- A block placed on a line with indentation `base`: the first line gets `first`, the last one
    `base`, and those between `base` and `pad`. -/
def indentBlock (replacement base pad first : Text) : Text :=
  match replacement.lines with
  | [] => first
  | [only] => first ++ only.trim
  | top :: rest =>
    let bottom := rest.getLastD []
    Text.unlines
      ((first ++ top.trim) :: indentInterior (base ++ pad) rest.dropLast ++ [base ++ bottom.trim])

/-- The text up to the start of its last line, and that line. -/
def splitLastLine (s : Text) : Text × Text :=
  ((s.reverse.dropWhile (· != '\n')).reverse, (s.reverse.takeWhile (· != '\n')).reverse)

/-- Puts a block between `before` and `rest`, in place of its marker. A block right after another
    one's closing delimiter starts a new line. -/
def spliceBlock (before rest replacement pad : Text) : Text :=
  let (head, line) := splitLastLine before
  let base := line.indent
  if Text.ends blockClose line.trimRight then
    head ++ line.trimRight ++ '\n' :: indentBlock replacement base pad base ++ rest
  else if line.blank then head ++ indentBlock replacement base pad base ++ rest
  else head ++ line ++ indentBlock replacement base pad [] ++ rest

/-- Puts a block back inside a start tag: on one line, as written when it would take several. -/
def spliceInTag (before rest raw replacement : Text) : Text :=
  before ++ (if replacement.trim.contains '\n' then raw else replacement.trim) ++ rest

end JspLayout
