import JspLayout.Text.Digit
import JspLayout.Text.Printable

/-! Quoted text in messages.

    A text is shown between single quotes, or between double quotes when it holds a single quote and
    no double one. The backslash, the quote in use and every character that is not printable are
    written as escapes. -/

namespace JspLayout.Text

/-- The quote a text is shown in. -/
def quoteOf (s : Text) : Char := if s.contains '\'' && !s.contains '"' then '"' else '\''

/-- A character as it stands between quotes `q`. -/
def escapeChar (q c : Char) : Text :=
  if c = q ∨ c = '\\' then ['\\', c]
  else if c = '\n' then ['\\', 'n']
  else if c = '\r' then ['\\', 'r']
  else if c = '\t' then ['\\', 't']
  else if isPrintable c then [c]
  else if c.toNat < 0x100 then '\\' :: 'x' :: hex 2 c.toNat
  else if c.toNat < 0x10000 then '\\' :: 'u' :: hex 4 c.toNat
  else '\\' :: 'U' :: hex 8 c.toNat

/-- The text between quotes, with escapes. -/
def quoted (s : Text) : Text :=
  let q := quoteOf s
  q :: s.flatMap (escapeChar q) ++ [q]

end JspLayout.Text
