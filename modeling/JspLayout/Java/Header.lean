import JspLayout.Java.Lexeme
import JspLayout.Java.Keyword
import JspLayout.Text.Lines

/-! Control headers, labels and continuation lines.

    A control header is a keyword with its condition, as far as the statement it governs. A label is
    `case ...:` or `default:`, where a doubled colon does not count. A line that continues the
    statement before it is joined to the closing brace it follows. -/

namespace JspLayout.Java

/-- What follows the parenthesis that closes `depth` open ones. -/
def afterParens? : Nat → List (Char × CharKind) → Option (List (Char × CharKind))
  | _, [] => none
  | depth, (c, kind) :: s =>
    if kind = .code ∧ c = '(' then afterParens? (depth + 1) s
    else if kind = .code ∧ c = ')' then
      if depth = 1 then some s else afterParens? (depth - 1) s
    else afterParens? depth s

/-- The first `n` characters and the others, with no blanks at the cut and the end. -/
def splitTrimmed (n : Nat) (s : Text) : Text × Text :=
  (Text.trimRight (s.take n), Text.trim (s.drop n))

/-- The control header a fragment begins with, a closing brace before it included, and what follows
    it. -/
def splitControlHeader (fragment : Text) : Option (Text × Text) := do
  let body :=
    match fragment with
    | '}' :: rest => Text.trimLeft rest
    | _ => fragment
  let (needsCondition, rest) ← controlWord? body
  let rest' := rest.trimLeft
  if rest'.head? = some '(' then
    let tail ← afterParens? 0 ((classify fragment).drop (fragment.length - rest'.length))
    pure (splitTrimmed (fragment.length - tail.length) fragment)
  else if needsCondition then none
  else pure (splitTrimmed (fragment.length - rest.length) fragment)

/-- How many characters a label has, its colon included; `before` is the character before the
    text. -/
def labelLength? (before : Option Char) : List (Char × CharKind) → Option Nat
  | [] => none
  | (c, kind) :: s =>
    if kind = .code ∧ c = ':' ∧ before ≠ some ':' ∧ (s.head?.map Prod.fst) ≠ some ':' then some 1
    else (labelLength? (some c) s).map (· + 1)

/-- The label a fragment begins with, and what follows it. -/
def splitCaseLabel (fragment : Text) : Option (Text × Text) :=
  if isCaseLabel fragment then
    (labelLength? none (classify fragment)).map fun n =>
      (Text.trim (fragment.take n), Text.trim (fragment.drop n))
  else none

/-- Adds a line to those before it, last one first: a continuation goes to the nearest line that is
    not blank, if that one ends with a closing brace. -/
def joinLine (before : List Text) (line : Text) : List Text :=
  if isContinuation line.trim then
    match before.dropWhile Text.blank with
    | [] => line :: before
    | target :: earlier =>
      if endsWithBrace target then (target.trimRight ++ ' ' :: line.trim) :: earlier
      else line :: before
  else line :: before

/-- The code with every continuation on the line of the closing brace before it. -/
def joinContinuations (code : Text) : Text :=
  Text.unlines (code.lines.foldl joinLine []).reverse

end JspLayout.Java
