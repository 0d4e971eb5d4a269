import JspLayout.Java.Lexeme
import JspLayout.Page.Segment

/-! Fragments as whole compilation units.

    A code formatter wants a complete class. Declarations are wrapped as members of a class,
    statements as the body of a method in one, and the fragment is taken back out of the formatted
    class by its braces. -/

namespace JspLayout.Java

def classHead : Text := "class __J \x7b ".toList

/-- The signature of the method that statements are wrapped in. -/
def methodSignature : Text := "void __m()".toList

def wrapperEnd : Text := " \x7d".toList

/-- The fragment as a class of its own. -/
def wrap (code : Text) : BlockKind → Text
  | .declaration => classHead ++ code ++ wrapperEnd
  | _ => classHead ++ methodSignature ++ " \x7b ".toList ++ code ++ wrapperEnd ++ wrapperEnd

/-- The text up to the brace that closes `depth` open ones. -/
def untilClose? : Nat → List (Char × CharKind) → Option Text
  | _, [] => none
  | depth, (c, kind) :: s =>
    if kind = .code ∧ c = '{' then (untilClose? (depth + 1) s).map (c :: ·)
    else if kind = .code ∧ c = '}' then
      if depth = 1 then some [] else (untilClose? (depth - 1) s).map (c :: ·)
    else (untilClose? depth s).map (c :: ·)

/-- What stands between the first opening brace of the code and the brace that closes it. -/
def braced? (s : List (Char × CharKind)) : Option Text :=
  match s.dropWhile fun p => p != ('{', .code) with
  | [] => none
  | _ :: inside => untilClose? 1 inside

/-- The body of the wrapping method. -/
def methodBody? (formatted : Text) : Option Text := do
  let (before, _) ← Text.cut? methodSignature formatted
  braced? ((classify formatted).drop before.length)

/-- What stands between the first opening and the last closing brace, literals and comments
    included. -/
def classBody? (formatted : Text) : Option Text := do
  let (_, rest) ← Text.cut? ['{'] formatted
  let (_, inside) ← Text.cut? ['}'] rest.reverse
  pure inside.reverse

/-- The body without the layout of its wrapper. -/
def dedentUnwrapped (body : Text) : Text := body.trimBlankLines.stripMargin.trimRight

/-- The fragment in a formatted class, if its wrapper is found. -/
def unwrap? (formatted : Text) : BlockKind → Option Text
  | .declaration => (classBody? formatted).map dedentUnwrapped
  | _ => (methodBody? formatted).map dedentUnwrapped

end JspLayout.Java
