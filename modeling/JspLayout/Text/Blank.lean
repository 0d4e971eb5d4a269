/-! Blank characters and the trimming that goes with them.

    A text is a list of characters. A character is blank when it is white space in Unicode, the
    control separators U+001C to U+001F included. Trimming drops blanks from an end; `solid` drops
    them everywhere, which is the view under which two layouts of one text agree. -/

namespace JspLayout

/-- Text, one character at a time. -/
abbrev Text := List Char

/-- White space: U+0009 to U+000D, U+001C to U+0020, and the spaces and line separators above. -/
def isBlank (c : Char) : Bool :=
  let n := c.toNat
  (0x09 ≤ n && n ≤ 0x0D) || (0x1C ≤ n && n ≤ 0x20) || n == 0x85 || n == 0xA0 || n == 0x1680
    || (0x2000 ≤ n && n ≤ 0x200A) || n == 0x2028 || n == 0x2029 || n == 0x202F || n == 0x205F
    || n == 0x3000

/-- A space or a tab: what indentation is made of. -/
def isIndent (c : Char) : Bool := c == ' ' || c == '\t'

namespace Text

/-- Every character is blank; so is the empty text. -/
def blank (s : Text) : Bool := s.all isBlank

/-- The characters of `s` up to the last one that fails `p`. -/
def dropEndWhile (p : Char → Bool) (s : Text) : Text := (s.reverse.dropWhile p).reverse

def trimLeft (s : Text) : Text := s.dropWhile isBlank

def trimRight (s : Text) : Text := s.dropEndWhile isBlank

def trim (s : Text) : Text := s.trimLeft.trimRight

/-- The text without its blanks. -/
def solid (s : Text) : Text := s.filter fun c => !isBlank c

/-- The leading run of spaces and tabs. -/
def indent (s : Text) : Text := s.takeWhile isIndent

/-- `n` spaces, none when `n` is negative. -/
def spaces (n : Int) : Text := List.replicate n.toNat ' '

/-- `unit` written `n` times over. -/
def times (unit : Text) : Nat → Text
  | 0 => []
  | n + 1 => unit ++ times unit n

end Text

end JspLayout
