import JspLayout.Text.Quoted

/-! The size limit that the environment may set.

    The environment variable holds an integer in any decimal digits, with a sign, single underscores
    between digits and blanks around it; it must be positive. -/

namespace JspLayout

/-- The digits of a text, least significant last, where single underscores may divide them. -/
def groupedDigits? : Text → Option (List Nat)
  | [] => none
  | [c] => (digitValue? c).map fun d => [d]
  | c :: '_' :: s => do
    let d ← digitValue? c
    let ds ← groupedDigits? s
    pure (d :: ds)
  | c :: s => do
    let d ← digitValue? c
    let ds ← groupedDigits? s
    pure (d :: ds)

/-- The most digits an integer may have. -/
def maxDigits : Nat := 4300

/-- The integer that a text stands for. -/
def readInt? (s : Text) : Option Int :=
  let (negative, rest) :=
    match s.trim with
    | '-' :: r => (true, r)
    | '+' :: r => (false, r)
    | r => (false, r)
  match groupedDigits? rest with
  | none => none
  | some ds =>
    if ds.length > maxDigits then none
    else
      let n : Nat := ds.foldl (fun n d => n * 10 + d) 0
      some (if negative then -(n : Int) else n)

/-- The name of the environment variable. -/
def sizeLimitVariable : String := "JSPFMT_MAX_FILE_SIZE"

/-- A size limit in the environment that is no positive integer. -/
structure SizeLimitError where
  raw : Text
  deriving DecidableEq

def SizeLimitError.message (e : SizeLimitError) : String :=
  sizeLimitVariable ++ " must be a positive integer, got " ++ String.ofList e.raw.quoted ++ "."

/-- The size limit: that of the environment where it is set, else `default`. -/
def sizeLimit (environment : Option Text) (default : Int) : Except SizeLimitError Int :=
  match environment with
  | none => .ok default
  | some raw =>
    match readInt? raw with
    | some n => if n > 0 then .ok n else .error ⟨raw⟩
    | none => .error ⟨raw⟩

end JspLayout
