import JspLayout.Java.Fragment
import JspLayout.Java.Header

/-! Indentation of Java by brace depth.

    Fragments are laid out one after the other. Each becomes one or two rows, a row being a depth
    and a text, and moves the indenter on: its brace depth, the open `switch` bodies, the headers
    without braces that wait for their statement, and the extra depth of blocks that such headers
    govern. The width of one level of indentation plays no part until the rows are written out. -/

namespace JspLayout.Java

/-- A line of the layout: how deep it is indented, and what it says. -/
structure Row where
  depth : Int
  text : Text
  deriving DecidableEq, Repr

/-- A row with `unit` for every level. -/
def Row.render (unit : Text) (row : Row) : Text := unit.times row.depth.toNat ++ row.text

/-- What the indenter keeps between fragments. -/
structure Indenter where
  /-- Open braces. -/
  level : Int := 0
  /-- The levels of the open `switch` bodies, innermost first. -/
  switches : List Int := []
  /-- Headers without braces that wait for their statement. -/
  pending : Int := 0
  /-- Levels with the extra depth of the block opened there, innermost first. -/
  offsets : List (Int × Int) := []
  /-- Whether a block comment is open across lines. -/
  inComment : Bool := false
  deriving DecidableEq, Repr

namespace Indenter

/-- One level for the statements of the innermost `switch`. -/
def switchOffset (st : Indenter) : Int :=
  match st.switches with
  | [] => 0
  | s :: _ => if st.level ≥ s then 1 else 0

/-- The extra depth of the blocks that are open. -/
def carried (st : Indenter) : Int :=
  st.offsets.foldr (fun (level, offset) sum => if st.level > level then offset + sum else sum) 0

/-- Forgets the `switch` bodies that are closed. -/
def leaveSwitches (st : Indenter) : Indenter :=
  { st with switches := st.switches.dropWhile fun s => s > st.level }

/-- Closes one block. -/
def closeBlock (st : Indenter) : Indenter :=
  { st with level := max (st.level - 1) 0 }.leaveSwitches

/-- Moves the level by the braces of `code`; a leading closing brace has been counted already. -/
def applyBraces (st : Indenter) (code : Text) (leadingClose : Bool) : Indenter :=
  let opens : Int := (countBraces code).1
  let closes : Int := (countBraces code).2 - if leadingClose then 1 else 0
  let level := max (st.level + opens - closes) 0
  let entersSwitch := opens > closes ∧ code.getLast? = some '{' ∧ opensSwitch (codeOf code)
  let switches := if entersSwitch then level :: st.switches else st.switches
  { st with level, switches }.leaveSwitches

/-- Forgets the extra depth of blocks that are closed. -/
def leaveOffsets (st : Indenter) : Indenter :=
  { st with offsets := st.offsets.filter fun (level, _) => level < st.level }

/-- The rows of a label and the statement on its line. -/
def labelRows (depth : Int) (head tail : Text) : List Row :=
  if tail = [] then [⟨depth, head⟩] else [⟨depth, head⟩, ⟨depth + 1, tail⟩]

/-- The rows of code that is not a label, and the indenter before its braces are counted. The extra
    depth `carried` is that of the place where the fragment starts. -/
def layStatement (st : Indenter) (carried : Int) (code : Text) : List Row × Indenter :=
  let bodyOffset := if code.head? = some '{' then max (st.pending - 1) 0 else st.pending
  let depth := st.level + st.switchOffset + carried + bodyOffset
  let opens := code.getLast? = some '{'
  match if opens then none else splitControlHeader code with
  | some (head, tail) =>
    if tail = [] then ([⟨depth, code⟩], { st with pending := st.pending + 1 })
    else if tail = [';'] then ([⟨depth, code⟩], { st with pending := 0 })
    else ([⟨depth, head⟩, ⟨depth + 1, tail⟩], { st with pending := 0 })
  | none =>
    let offsets :=
      if bodyOffset ≠ 0 ∧ opens then (st.level, bodyOffset) :: st.offsets else st.offsets
    ([⟨depth, code⟩], { st with pending := 0, offsets })

/-- The rows with a comment after the last one. -/
def withComment (comment : Text) : List Row → List Row
  | [] => []
  | [row] => if comment = [] then [row] else [{ row with text := row.text ++ ' ' :: comment }]
  | row :: rows => row :: withComment comment rows

/-- The rows of a fragment, and the indenter after it. -/
def lay (st : Indenter) (fragment : Text) : List Row × Indenter :=
  let (code, comment) := splitTrailingComment fragment
  if code = [] then
    ([⟨st.level + st.switchOffset + st.pending + st.carried, comment⟩], st)
  else
    let carried := st.carried
    let leadingClose := code.head? = some '}'
    let code := if leadingClose then spaceAfterClose code else code
    let st := if leadingClose then { st.closeBlock with pending := 0 } else st
    let (rows, st) :=
      match splitCaseLabel code with
      | some (head, tail) => (labelRows (st.level + carried) head tail, { st with pending := 0 })
      | none => layStatement st carried code
    (withComment comment rows, (st.applyBraces code leadingClose).leaveOffsets)

/-- The rows of fragments laid out in turn, and the indenter after them. -/
def layAll (st : Indenter) : List Text → List Row × Indenter
  | [] => ([], st)
  | fragment :: rest =>
    let (rows, st) := st.lay fragment
    let (more, st) := layAll st rest
    (rows ++ more, st)

/-- The row of a line inside a block comment; a leading star is set one column in. -/
def commentRow (st : Indenter) (line : Text) : Row :=
  ⟨st.level + st.switchOffset + st.carried, if line.head? = some '*' then ' ' :: line else line⟩

/-- The rows of a line, and the indenter after it. -/
def layLine (st : Indenter) (line : Text) : List Row × Indenter :=
  let line := line.trim
  if line = [] then ([⟨0, []⟩], st)
  else if st.inComment then
    ([st.commentRow line], { st with inComment := !Text.holds ['*', '/'] line })
  else
    let (fragments, opensComment) := scan line true
    let (rows, st) := st.layAll fragments
    (rows, { st with inComment := opensComment })

/-- The rows of lines, and the indenter after them. -/
def layLines (st : Indenter) : List Text → List Row × Indenter
  | [] => ([], st)
  | line :: rest =>
    let (rows, st) := st.layLine line
    let (more, st) := layLines st rest
    (rows ++ more, st)

end Indenter

/-- The layout of Java code, whatever the width of a level. -/
def layout (code : Text) : List Row := (Indenter.layLines {} (joinContinuations code).lines).1

/-- One level of indentation: a tab, or `width` spaces. -/
def indentUnit (width : Int) (useTabs : Bool) : Text :=
  if useTabs then ['\t'] else Text.spaces width

/-- Java code laid out with `unit` for every level. -/
def reformatWith (unit : Text) (code : Text) : Text :=
  Text.unlines ((layout code).map (Row.render unit))

/-- Java code laid out with tabs or with `width` spaces for every level. -/
def reformat (code : Text) (width : Int) (useTabs : Bool) : Text :=
  reformatWith (indentUnit width useTabs) code

end JspLayout.Java
