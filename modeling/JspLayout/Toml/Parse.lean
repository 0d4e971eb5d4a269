import JspLayout.Toml.Document
import JspLayout.Toml.Scalar

/-! Reading TOML documents.

    A document is read statement by statement, and each adds to the tables before the next one is
    read, so that of several faults the first one in the text is reported. The readers that call
    each other take a bound on the depth of the calls; of two calls in a row one reads a character,
    so twice the length of the text is bound enough. -/

namespace JspLayout.Toml

/-- A reader of text that may refuse it. -/
abbrev Reading := StateT Text (Except Refusal)

/-- The reader that reads what `f` reads. -/
def reading {α : Type} (f : Text → Option (α × Text)) : Reading α := fun s =>
  match f s with
  | some r => .ok r
  | none => .error .malformed

/-- The reader that refuses everything. -/
def refuse {α : Type} : Reading α := fun _ => .error .malformed

/-- Pass over spaces and tabs. -/
def skipBlanks : Reading Unit := modify fun s => s.dropWhile isIndent

/-- Pass over a text that has to be there. -/
def expect (p : Text) : Reading Unit := reading fun s => (Text.after? p s).map fun r => ((), r)

/-- Whether the text begins with `p`, which is then passed over. -/
def accept (p : Text) : Reading Bool := fun s =>
  match Text.after? p s with
  | some r => .ok (true, r)
  | none => .ok (false, s)

/-- What follows a comment, up to the end of its line. -/
def afterComment? (s : Text) : Option Text :=
  match s with
  | '#' :: r =>
    if (r.takeWhile (· != '\n')).any isControl then none else some (r.dropWhile (· != '\n'))
  | _ => some s

/-- What follows blanks, line ends and comments. -/
def afterLines? (inComment : Bool) : Text → Option Text
  | [] => some []
  | c :: s =>
    if c = '\n' then afterLines? false s
    else if inComment then if isControl c then none else afterLines? true s
    else if isIndent c then afterLines? false s
    else if c = '#' then afterLines? true s
    else some (c :: s)

/-- Pass over blanks, line ends and comments. -/
def skipLines : Reading Unit := reading fun s => (afterLines? false s).map fun r => ((), r)

/-! ### Keys -/

/-- Characters of keys without quotes. -/
def isBare (c : Char) : Bool := c.isAlphanum || c == '-' || c == '_'

/-- One name of a dotted key. -/
def keyPart? (s : Text) : Option (Text × Text) :=
  match s with
  | '"' :: r => basic? r
  | '\'' :: r => literal? r
  | _ => if s.head?.any isBare then some (s.takeWhile isBare, s.dropWhile isBare) else none

/-- A dotted key, with the blanks after it. -/
def key : Nat → Reading Key
  | 0 => refuse
  | bound + 1 => do
    let part ← reading keyPart?
    skipBlanks
    if ← accept ['.'] then
      skipBlanks
      let more ← key bound
      pure (part :: more)
    else pure [part]

/-! ### Values -/

mutual

/-- A value. -/
def value : Nat → Reading Value
  | 0 => refuse
  | bound + 1 => do
    if ← accept ['['] then
      skipLines
      if ← accept [']'] then pure (.list [])
      else
        let vs ← items bound
        pure (.list vs)
    else if ← accept ['{'] then
      skipBlanks
      if ← accept ['}'] then pure (.table [])
      else
        let d ← inlineEntries bound {}
        pure (.table d.root)
    else fun s => scalar s

/-- The values of an array from the next one on, with the closing bracket. A comma may follow the
    last one. -/
def items : Nat → Reading (List Value)
  | 0 => refuse
  | bound + 1 => do
    let v ← value bound
    skipLines
    if ← accept [']'] then pure [v]
    else
      expect [',']
      skipLines
      if ← accept [']'] then pure [v]
      else
        let vs ← items bound
        pure (v :: vs)

/-- The entries of an inline table from the next one on, with the closing brace, added to those
    before them. -/
def inlineEntries : Nat → Document → Reading Document
  | 0, _ => refuse
  | bound + 1, d => do
    let k ← key bound
    expect ['=']
    skipBlanks
    let v ← value bound
    let some d := d.insert? [] k v | refuse
    skipBlanks
    if ← accept ['}'] then pure d
    else
      expect [',']
      skipBlanks
      inlineEntries bound d

end

/-! ### Statements -/

/-- A key with its value, in the section `header`. -/
def entry (bound : Nat) (d : Document) (header : Key) : Reading Document := do
  let k ← key bound
  expect ['=']
  skipBlanks
  let v ← value bound
  let some d := d.insert? header k v | refuse
  pure d

/-- The header of a table or of an item of an array of tables, after its first bracket. -/
def sectionHeader (bound : Nat) (d : Document) : Reading (Document × Key) := do
  let isItem ← accept ['[']
  skipBlanks
  let k ← key bound
  let some d := (if isItem then d.openItem? k else d.openTable? k) | refuse
  expect (if isItem then [']', ']'] else [']'])
  pure (d, k)

/-- The document and the section after one statement. -/
def statement (bound : Nat) (d : Document) (header : Key) : Reading (Document × Key) := do
  if ← accept ['['] then sectionHeader bound d
  else
    let s ← get
    if s.head? = some '#' then pure (d, header)
    else
      let d ← entry bound d header
      pure (d, header)

/-- The document after the statements of a text. -/
def statements : Nat → Document → Key → Text → Except Refusal Document
  | 0, _, _, _ => .error .malformed
  | bound + 1, d, header, s =>
    match s.dropWhile isIndent with
    | [] => .ok d
    | '\n' :: s => statements bound d header s
    | s => do
      let ((d, header), s) ← (statement (bound + 1) d header).run s
      match afterComment? (s.dropWhile isIndent) with
      | none => .error .malformed
      | some [] => .ok d
      | some ('\n' :: s) => statements bound d header s
      | some _ => .error .malformed

/-- The tables of a document. -/
def parse (s : Text) : Except Refusal Value :=
  let s := Text.replace ['\r', '\n'] ['\n'] s
  (statements (2 * s.length + 2) {} [] s).map fun d => .table d.root

end JspLayout.Toml
