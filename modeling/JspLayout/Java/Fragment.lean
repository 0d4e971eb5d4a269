import JspLayout.Java.Lexeme
import JspLayout.Java.Keyword

/-! Cutting a line of Java into fragments.

    A fragment is a statement, or what opens or closes a block. A line is cut after every semicolon
    outside parentheses and, when braces split, after a brace that opens a block and around one that
    closes it. The braces of an array initializer stay inside their fragment. A comment after the
    last fragment stays on its line. -/

namespace JspLayout.Java

/-- The state of a cut in progress. -/
structure Scan where
  mode : Mode := .code
  /-- Open parentheses. -/
  parens : Nat := 0
  /-- Open braces of an initializer. -/
  inline : Nat := 0
  /-- The fragment in progress, last character first. -/
  pending : Text := []
  /-- The finished fragments, last one first. -/
  done : List Text := []

namespace Scan

def push (st : Scan) (c : Char) : Scan := { st with pending := c :: st.pending }

/-- Finishes the fragment in progress; one of blanks only is dropped. -/
def flush (st : Scan) : Scan :=
  let piece := Text.trim st.pending.reverse
  { st with pending := [], done := if piece = [] then st.done else piece :: st.done }

/-- Adds a comment that runs to the end of the line: to the last fragment when only blanks stand
    between, else to the fragment in progress. -/
def attach (st : Scan) (comment : Text) : Scan :=
  match st.done with
  | last :: earlier =>
    if st.pending.blank then { st with pending := [], done := (last ++ ' ' :: comment) :: earlier }
    else { st with pending := comment.reverse ++ st.pending }
  | [] => { st with pending := comment.reverse ++ st.pending }

/-- The finished fragments in order. -/
def fragments (st : Scan) : List Text := st.flush.done.reverse

/-- Whether an opening brace here starts an initializer. -/
def opensInitializer (st : Scan) : Bool :=
  match st.pending.dropWhile isBlank with
  | [] => false
  | c :: _ => c == '=' || c == ',' || c == ']'

/-- Reads the code character `c`, with `rest` after it. -/
def code (splitBraces : Bool) (st : Scan) (c : Char) (rest : Text) : Scan :=
  if c = '(' then { st with parens := st.parens + 1 }.push c
  else if c = ')' then { st with parens := st.parens - 1 }.push c
  else if splitBraces ∧ st.parens = 0 ∧ c = '{' then
    if st.inline ≠ 0 ∨ st.opensInitializer then { st with inline := st.inline + 1 }.push c
    else (st.push c).flush
  else if splitBraces ∧ st.parens = 0 ∧ c = '}' then
    if st.inline ≠ 0 then { st with inline := st.inline - 1 }.push c
    else if gluesToClose rest.trimLeft then st.flush.push c
    else (st.flush.push c).flush
  else if c = ';' ∧ st.parens = 0 ∧ st.inline = 0 then (st.push c).flush
  else st.push c

/-- How the scan reads the character `c`, which opens no comment that runs to the end of the line:
    its kind and the mode after it. Here a literal ends at its own quote alone. -/
def step (m : Mode) (c : Char) (next : Option Char) : CharKind × Mode :=
  match m with
  | .code =>
    if c = '"' ∨ c = '\'' then (.literal, .literal c false)
    else if c = '/' ∧ next = some '*' then (.comment, .commentStart)
    else (.code, .code)
  | .literal q escaped =>
    if escaped then (.literal, .literal q false)
    else if c = '\\' then (.literal, .literal q true)
    else if c = q then (.literal, .code)
    else (.literal, .literal q false)
  | .commentStart => (.comment, .blockComment)
  | .blockComment =>
    if c = '*' ∧ next = some '/' then (.comment, .commentEnd) else (.comment, .blockComment)
  | .commentEnd => (.comment, .code)
  | .lineComment => (.comment, .lineComment)

/-- Whether a block comment that starts with `s` is closed in it. -/
def closesComment (s : Text) : Bool := Text.holds ['*', '/'] (s.drop 2)

/-- The fragments of a line from state `st` on, and whether it leaves a block comment open. -/
def run (splitBraces : Bool) (st : Scan) : Text → List Text × Bool
  | [] => (st.fragments, false)
  | c :: s =>
    if st.mode = .code ∧ c = '/' ∧ s.head? = some '/' then
      ((st.attach (c :: s)).fragments, false)
    else if st.mode = .code ∧ c = '/' ∧ s.head? = some '*' ∧ closesComment (c :: s) = false then
      ((st.attach (c :: s)).fragments, true)
    else
      match step st.mode c s.head? with
      | (.code, mode) => run splitBraces (Scan.code splitBraces { st with mode } c s) s
      | (_, mode) => run splitBraces ({ st with mode }.push c) s

end Scan

/-- The fragments of a line, and whether it leaves a block comment open. -/
def scan (line : Text) (splitBraces : Bool) : List Text × Bool := Scan.run splitBraces {} line

/-- The line cut at semicolons. -/
def splitStatements (line : Text) : List Text := (scan line false).1

/-- The line cut at semicolons and at the braces of blocks. -/
def splitFragments (line : Text) : List Text := (scan line true).1

end JspLayout.Java
