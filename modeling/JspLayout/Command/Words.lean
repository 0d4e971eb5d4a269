import JspLayout.Text.Search

/-! Command lines as words.

    Blanks divide words. Single quotes keep everything between them; double quotes do too, but for a
    backslash before a double quote or another backslash; outside quotes a backslash keeps the next
    character. Joining quotes the words that need it, so that splitting gives them back. -/

namespace JspLayout.Words

/-- A character that divides words. -/
def isDivider (c : Char) : Bool := c == ' ' || c == '\t' || c == '\r' || c == '\n'

/-- Where the splitter stands. -/
inductive State where
  | outside
  | word
  | single
  | double
  /-- After a backslash outside quotes. -/
  | escape
  /-- After a backslash between double quotes. -/
  | doubleEscape
  deriving DecidableEq, Repr

/-- The words of a command line from a state on, with the word in progress, last character first.
    Quotes that are not closed and a backslash at the end are refused. -/
def splitFrom (state : State) (word : Text) : Text → Option (List Text)
  | [] =>
    match state with
    | .outside => some []
    | .word => some [word.reverse]
    | _ => none
  | c :: s =>
    match state with
    | .outside =>
      if isDivider c then splitFrom .outside [] s
      else if c = '\\' then splitFrom .escape [] s
      else if c = '\'' then splitFrom .single [] s
      else if c = '"' then splitFrom .double [] s
      else splitFrom .word [c] s
    | .word =>
      if isDivider c then (splitFrom .outside [] s).map (word.reverse :: ·)
      else if c = '\\' then splitFrom .escape word s
      else if c = '\'' then splitFrom .single word s
      else if c = '"' then splitFrom .double word s
      else splitFrom .word (c :: word) s
    | .single => if c = '\'' then splitFrom .word word s else splitFrom .single (c :: word) s
    | .double =>
      if c = '"' then splitFrom .word word s
      else if c = '\\' then splitFrom .doubleEscape word s
      else splitFrom .double (c :: word) s
    | .escape => splitFrom .word (c :: word) s
    | .doubleEscape =>
      if c = '"' ∨ c = '\\' then splitFrom .double (c :: word) s
      else splitFrom .double (c :: '\\' :: word) s

/-- The words of a command line. -/
def split? (s : Text) : Option (List Text) := splitFrom .outside [] s

/-- A character that needs no quotes. -/
def isSafe (c : Char) : Bool :=
  (c.toNat < 0x80 && c.isAlphanum) || "_@%+=:,./-".toList.contains c

/-- A word as it is written in a command line. -/
def quote (w : Text) : Text :=
  if w = [] then ['\'', '\'']
  else if w.all isSafe then w
  else '\'' :: (w.flatMap fun c => if c = '\'' then "'\"'\"'".toList else [c]) ++ ['\'']

/-- Words as a command line. -/
def join (ws : List Text) : Text := Text.join [' '] (ws.map quote)

end JspLayout.Words
