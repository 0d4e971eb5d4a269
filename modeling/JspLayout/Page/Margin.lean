import JspLayout.Text.Lines

/-! The margin of a text: the indentation that all its lines share.

    Blank lines have no say in the margin. Removing it keeps the number of lines, and a blank first
    or last line is left as it is, since it belongs to the delimiters around the text. -/

namespace JspLayout.Text

/-- The smaller of two widths, where one may be unknown. -/
def narrower (w : Nat) : Option Nat → Nat
  | none => w
  | some m => min w m

/-- The width of the margin: the least number of leading spaces and tabs of a line that is not
    blank, if there is such a line. -/
def margin? : List Text → Option Nat
  | [] => none
  | l :: ls => if l.blank then margin? ls else some (narrower l.indent.length (margin? ls))

/-- An interior line without its margin; a blank one becomes empty. -/
def dedentInterior (m : Nat) (l : Text) : Text := if l.blank then [] else l.drop m

/-- A first or last line without its margin; a blank one is kept. -/
def dedentEdge (m : Nat) (l : Text) : Text := if l.blank then l else l.drop m

/-- The lines after the first without their margin. -/
def dedentRest (m : Nat) : List Text → List Text
  | [] => []
  | [l] => [dedentEdge m l]
  | l :: ls => dedentInterior m l :: dedentRest m ls

/-- The lines without their margin. -/
def dedentLines (m : Nat) : List Text → List Text
  | [] => []
  | l :: ls => dedentEdge m l :: dedentRest m ls

/-- The text without its margin; a text without one is kept as it is. -/
def stripMargin (s : Text) : Text :=
  match margin? s.lines with
  | none | some 0 => s
  | some m => unlines (dedentLines m s.lines)

/-- The text without the blank lines at both ends. -/
def trimBlankLines (s : Text) : Text :=
  unlines ((s.lines.dropWhile blank).reverse.dropWhile blank).reverse

end JspLayout.Text
