import JspLayout.Number.Format
import JspLayout.Settings.Basic

/-! Command line templates.

    A template is text with fields in braces; a doubled brace stands for itself. A field names an
    argument, may go into it with attributes and indices, may ask for its quoted form, and may end
    with a format specification, which can hold fields of its own one level deep. Fields are filled
    in from the left, and the first one that cannot be filled decides the outcome. What the
    attributes of a value are is not said here: it is known by what it comes to in a field. -/

namespace JspLayout.Template

/-- Why a template cannot be filled in. -/
inductive Error where
  /-- The template is malformed, or names something that is not there. -/
  | malformed
  | fault (fault : Fault)
  deriving DecidableEq

/-- One step into a value. -/
inductive Access where
  | member (name : Text)
  | index (key : Text)
  /-- What is no step. It ends the steps. -/
  | malformed

/-- A field: the argument with the steps into it, the conversion asked for, and the
    specification. -/
structure Field where
  name : Text
  conversion : Option Char
  spec : Text

/-! ### Fields -/

/-- The name part of a field, the character that ends it, and what follows; brackets hide the
    characters between them. -/
def fieldName? (inBrackets : Bool) : Text → Option (Text × Char × Text)
  | [] => none
  | c :: s =>
    if inBrackets then (fieldName? (c != ']') s).map fun (n, e, r) => (c :: n, e, r)
    else if c = '{' then none
    else if c = '}' ∨ c = ':' ∨ c = '!' then some ([], c, s)
    else (fieldName? (c == '[') s).map fun (n, e, r) => (c :: n, e, r)

/-- A specification up to the brace that closes its field, with `depth` braces open inside it, and
    what follows. -/
def specText? (depth : Nat) : Text → Option (Text × Text)
  | [] => none
  | c :: s =>
    if c = '{' then (specText? (depth + 1) s).map fun (t, r) => (c :: t, r)
    else if c = '}' then
      if depth = 0 then some ([], s) else (specText? (depth - 1) s).map fun (t, r) => (c :: t, r)
    else (specText? depth s).map fun (t, r) => (c :: t, r)

/-- The field after an opening brace, and what follows its closing one. -/
def field? (s : Text) : Option (Field × Text) := do
  let (name, mark, rest) ← fieldName? false s
  if mark = '}' then pure (⟨name, none, []⟩, rest)
  else if mark = ':' then
    let (spec, rest) ← specText? 0 rest
    pure (⟨name, none, spec⟩, rest)
  else
    match rest with
    | c :: '}' :: rest => pure (⟨name, some c, []⟩, rest)
    | c :: ':' :: rest =>
      let (spec, rest) ← specText? 0 rest
      pure (⟨name, some c, spec⟩, rest)
    | _ => none

/-! ### Values -/

def isStep (c : Char) : Bool := c == '.' || c == '['

/-- The steps that `s` spells out. -/
def steps (s : Text) : List Access :=
  match s with
  | [] => []
  | '.' :: r =>
    if r.takeWhile (fun c => !isStep c) = [] then [.malformed]
    else .member (r.takeWhile fun c => !isStep c) :: steps (r.dropWhile fun c => !isStep c)
  | '[' :: r =>
    match _ : Text.cut? [']'] r with
    | none | some ([], _) => [.malformed]
    | some (key, rest) => .index key :: steps rest
  | _ => [.malformed]
termination_by s.length
decreasing_by
  · have := (List.dropWhile_suffix (fun c => !isStep c) : _ <:+ r).length_le
    simp only [List.length_cons]; omega
  · have := Text.length_lt_of_cut? (List.cons_ne_nil _ _) (by assumption)
    simp only [List.length_cons]; omega

/-- The largest index that can be written. -/
def maxIndex : Nat := 0x7fffffffffffffff

/-- The number that the digits of `key` go on to from `n`, if they are all digits. A number that is
    too large is an error, whatever comes after it. -/
def indexFrom (n : Nat) : Text → Except Error (Option Nat)
  | [] => .ok (some n)
  | c :: key =>
    match digitValue? c with
    | none => .ok none
    | some d => if n * 10 + d > maxIndex then .error .malformed else indexFrom (n * 10 + d) key

/-- The item of a value at an index, a number or a key. -/
def item (v : Value) (key : Text) : Except Error Value := do
  match v, ← indexFrom 0 key with
  | .text s, some n =>
    match s[n]? with
    | some c => .ok (.text [c])
    | none => .error .malformed
  | .list items, some n =>
    match items[n]? with
    | some v => .ok v
    | none => .error .malformed
  | .table _, some _ => .error .malformed
  | .table entries, none =>
    match entries.lookup key with
    | some v => .ok v
    | none => .error .malformed
  | _, _ => .error (.fault .wrongKind)

/-- Goes into a value as far as indices lead: the value there, and the steps left, the first of which
    is an attribute. -/
def goInto (v : Value) : List Access → Except Error (Value × List Access)
  | .index key :: rest => do goInto (← item v key) rest
  | .malformed :: _ => .error .malformed
  | rest => .ok (v, rest)

/-- A value converted as a field asks. -/
def convert (conversion : Option Char) (v : Value) : Except Error Value :=
  match conversion with
  | none => .ok v
  | some 's' => .ok (.text v.display)
  | some 'r' | some 'a' => .ok (.text v.inner)
  | some _ => .error .malformed

/-- An integer written to a specification. -/
def formatInt (i : Int) (spec : FormatSpec) : Except Error Text :=
  match spec.integer i with
  | .field t => .ok t
  | .refused => .error .malformed
  | .noCharacter => .error (.fault .noCharacter)
  | .tooLarge => .error (.fault .tooLarge)

/-- A value written to a specification. -/
def format (v : Value) (spec : Text) : Except Error Text :=
  if spec = [] then .ok v.display
  else
    match v with
    | .null | .list _ | .table _ => .error (.fault .wrongKind)
    | .moment _ => .error .malformed
    | .text s =>
      match (FormatSpec.parse? spec).bind fun spec => spec.text? s with
      | some t => .ok t
      | none => .error .malformed
    | .double x =>
      match (FormatSpec.parse? spec).bind fun spec => spec.double? x with
      | some t => .ok t
      | none => .error .malformed
    | .int i =>
      match FormatSpec.parse? spec with
      | some spec => formatInt i spec
      | none => .error .malformed
    | .bool b =>
      match FormatSpec.parse? spec with
      | some spec => formatInt (if b then 1 else 0) spec
      | none => .error .malformed

/-- What a field comes to, for each specification. -/
abbrev Shape := Text → Except Error Text

/-- What the attributes of values come to: for a value, the steps from an attribute of it on, and the
    conversion asked for, a failure or the shape of the field. -/
abbrev Attributes := Value → List Access → Option Char → Except Error Shape

/-- What a field comes to with the arguments. -/
def resolve (attributes : Attributes) (args : List (Text × Value)) (f : Field) : Except Error Shape := do
  let some v := args.lookup (f.name.takeWhile fun c => !isStep c) | throw .malformed
  let (v, rest) ← goInto v (steps (f.name.dropWhile fun c => !isStep c))
  if rest.isEmpty then pure (format (← convert f.conversion v))
  else attributes v rest f.conversion

/-! ### Filling in -/

/-- A template as literal characters and fields; a malformed stretch ends it. -/
inductive Part where
  | char (c : Char)
  | field (f : Field)
  | malformed

/-- The parts of a template. -/
def parts (s : Text) : List Part :=
  match s with
  | [] => []
  | '{' :: '{' :: r => .char '{' :: parts r
  | '}' :: '}' :: r => .char '}' :: parts r
  | '}' :: _ => [.malformed]
  | '{' :: r =>
    match field? r with
    | none => [.malformed]
    | some (f, rest) => if _ : rest.length ≤ r.length then .field f :: parts rest else [.malformed]
  | c :: r => .char c :: parts r
termination_by s.length
decreasing_by all_goals simp only [List.length_cons]; omega

/-- The parts filled in with the arguments, where `expand` fills in a specification. -/
def fillParts (attributes : Attributes) (expand : Text → Except Error Text) (args : List (Text × Value)) :
    List Part → Except Error Text
  | [] => .ok []
  | .malformed :: _ => .error .malformed
  | .char c :: ps => do
    let rest ← fillParts attributes expand args ps
    pure (c :: rest)
  | .field f :: ps => do
    let shape ← resolve attributes args f
    let spec ← if f.spec.contains '{' then expand f.spec else pure f.spec
    let t ← shape spec
    let rest ← fillParts attributes expand args ps
    pure (t ++ rest)

/-- A template filled in, fields inside specifications up to `depth` levels deep. -/
def fillTo (attributes : Attributes) : Nat → List (Text × Value) → Text → Except Error Text
  | 0, _, _ => .error .malformed
  | depth + 1, args, s => fillParts attributes (fillTo attributes depth args) args (parts s)

/-- A template filled in with the arguments. -/
def fill (attributes : Attributes) (args : List (Text × Value)) (s : Text) : Except Error Text :=
  fillTo attributes 2 args s

end JspLayout.Template
