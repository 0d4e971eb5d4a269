import JspLayout.Text.Search

/-! What each character of Java text belongs to.

    A one-pass lexer with one character of look-ahead sorts characters into code, literals (their
    quotes included) and comments. A literal ends at its quote or at the end of the line, whichever
    comes first; a block comment that is never closed runs to the end of the text. -/

namespace JspLayout.Java

/-- What a character belongs to. -/
inductive CharKind where
  | code
  | literal
  | comment
  deriving DecidableEq, Repr

/-- Where the lexer stands between two characters. -/
inductive Mode where
  | code
  /-- Inside a literal; `escaped` after a backslash. -/
  | literal (quote : Char) (escaped : Bool)
  | lineComment
  /-- Between the slash and the star that open a block comment. -/
  | commentStart
  | blockComment
  /-- Between the star and the slash that close a block comment. -/
  | commentEnd
  deriving DecidableEq, Repr

/-- The kind of the character `c` read in a mode, and the mode after it; `next` is the character
    that follows. -/
def Mode.step (m : Mode) (c : Char) (next : Option Char) : CharKind × Mode :=
  match m with
  | .code =>
    if c = '"' ∨ c = '\'' then (.literal, .literal c false)
    else if c = '/' ∧ next = some '/' then (.comment, .lineComment)
    else if c = '/' ∧ next = some '*' then (.comment, .commentStart)
    else (.code, .code)
  | .literal q true => (.literal, .literal q false)
  | .literal q false =>
    if c = '\\' then (.literal, .literal q true)
    else if c = q ∨ c = '\n' then (.literal, .code)
    else (.literal, .literal q false)
  | .lineComment => if c = '\n' then (.code, .code) else (.comment, .lineComment)
  | .commentStart => (.comment, .blockComment)
  | .blockComment =>
    if c = '*' ∧ next = some '/' then (.comment, .commentEnd) else (.comment, .blockComment)
  | .commentEnd => (.comment, .code)

/-- The characters of a text, each with its kind, for a lexer that starts in mode `m`. -/
def classifyFrom (m : Mode) : Text → List (Char × CharKind)
  | [] => []
  | c :: s =>
    let (kind, m') := m.step c s.head?
    (c, kind) :: classifyFrom m' s

/-- The characters of a text, each with its kind. -/
def classify (s : Text) : List (Char × CharKind) := classifyFrom .code s

/-- The kinds of the characters of a text. -/
def charKinds (s : Text) : List CharKind := (classify s).map Prod.snd

/-- The places of the code characters, in ascending order. -/
def codePositions (s : Text) : List Nat :=
  (charKinds s).zipIdx.filterMap fun (kind, i) => if kind = .code then some i else none

/-- The code characters alone. -/
def codeOf (s : Text) : Text :=
  (classify s).filterMap fun (c, kind) => if kind = .code then some c else none

/-- How many opening and how many closing braces a text has as code. -/
def countBraces (s : Text) : Nat × Nat := ((codeOf s).count '{', (codeOf s).count '}')

/-- A comment character, or a blank between comments. -/
def trailsCode : Char × CharKind → Bool
  | (_, .comment) => true
  | (c, .code) => isBlank c
  | (_, .literal) => false

/-- The code of a fragment and the comment after it. -/
def splitTrailingComment (fragment : Text) : Text × Text :=
  let backwards := (classify fragment).reverse
  let code := ((backwards.dropWhile trailsCode).map Prod.fst).reverse
  let comment := ((backwards.takeWhile trailsCode).map Prod.fst).reverse
  (Text.trimRight code, Text.trim comment)

/-- Whether the last character that is not blank is a closing brace of the code. -/
def endsWithBrace (line : Text) : Bool :=
  (classify line.trimRight).getLast? == some ('}', .code)

end JspLayout.Java
