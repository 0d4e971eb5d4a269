import JspLayout.Text.WordChar

/-! Java keywords that steer the layout.

    Each recogniser looks at the start of a text; a keyword counts only where a word ends after
    it. -/

namespace JspLayout.Java

/-- The first of `words` that `s` begins with as a whole word, and what follows it. -/
def keyword? (words : List Text) (s : Text) : Option (Text × Text) :=
  words.findSome? fun word => (Text.afterWord? word s).map fun rest => (word, rest)

/-- A statement that goes on after a closing brace. -/
def continuationWords : List Text := ["else".toList, "catch".toList, "finally".toList]

/-- The words that stay on the line of a closing brace. -/
def closingWords : List Text :=
  ["else".toList, "catch".toList, "finally".toList, "while".toList]

/-- Whether a line continues the statement that a closing brace before it ended. -/
def isContinuation (s : Text) : Bool := (keyword? continuationWords s).isSome

/-- Whether `s` stays with a closing brace right before it. -/
def gluesToClose (s : Text) : Bool :=
  match s with
  | [] => false
  | c :: _ => c == ';' || c == ',' || c == ')' || (keyword? closingWords s).isSome

/-- One space between a closing brace and the word that continues after it. -/
def spaceAfterClose (code : Text) : Text :=
  match code with
  | '}' :: rest =>
    if (keyword? closingWords (Text.trimLeft rest)).isSome then '}' :: ' ' :: Text.trimLeft rest
    else code
  | _ => code

/-- The words that open a control statement, each with whether a condition in parentheses must
    follow. -/
def controlWords : List (Text × Bool) :=
  [("if".toList, true), ("for".toList, true), ("while".toList, true), ("do".toList, false),
    ("try".toList, false), ("catch".toList, true), ("finally".toList, false),
    ("else".toList, false), ("switch".toList, true), ("synchronized".toList, true)]

/-- What follows `else if`, with any blanks between the two words. -/
def afterElseIf? (s : Text) : Option Text := do
  let rest ← Text.after? "else".toList s
  if rest.head?.any isBlank then Text.afterWord? "if".toList rest.trimLeft else none

/-- Whether the control word that `s` begins with needs a condition, and what follows the word. -/
def controlWord? (s : Text) : Option (Bool × Text) :=
  ((afterElseIf? s).map fun rest => (true, rest)) <|>
    controlWords.findSome? fun (word, needsCondition) =>
      (Text.afterWord? word s).map fun rest => (needsCondition, rest)

/-- Whether a fragment begins with a label of a `switch`. -/
def isCaseLabel (s : Text) : Bool :=
  (Text.afterWord? "case".toList s).isSome ||
    match Text.after? "default".toList s with
    | some rest => rest.trimLeft.head? == some ':'
    | none => false

/-- Whether the word `switch` stands before an opening parenthesis; `inWord` says whether a word
    character comes right before the text. -/
def opensSwitchAfter (inWord : Bool) : Text → Bool
  | [] => false
  | c :: s =>
    (!inWord &&
      match Text.after? "switch".toList (c :: s) with
      | some rest => rest.trimLeft.head? == some '('
      | none => false) || opensSwitchAfter (isWord c) s

/-- Whether the head of a `switch` occurs in the code. -/
def opensSwitch (code : Text) : Bool := opensSwitchAfter false code

end JspLayout.Java
