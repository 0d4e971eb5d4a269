import JspLayout.Command.Formatter
import JspLayout.Java.Wrapper
import JspLayout.Page.Directive
import JspLayout.Settings.Options

/-! One pass over the code blocks of a page.

    Directives are brought into canonical form, expressions trimmed, comments kept. Scriptlets and
    declarations go to the code formatter as long as it works; once it has failed, and wherever its
    answer cannot be used, they are indented by brace depth. -/

namespace JspLayout

/-- What a pass keeps between blocks: whether the code formatter still works, and how many blocks it
    and the indenter have formatted. -/
structure Session where
  available : Bool := true
  formatted : Nat := 0
  fallbacks : Nat := 0
  deriving DecidableEq, Repr

/-- A pass in progress: the session, the state of the code formatter, and the notes so far. -/
structure Pass (σ : Type) where
  session : Session := {}
  formatter : σ
  notes : List Note := []

namespace Pass

variable {σ : Type}

def note (p : Pass σ) (n : Note) : Pass σ := { p with notes := p.notes ++ [n] }

end Pass

/-- The opening delimiter of a scriptlet or declaration. -/
def opener : BlockKind → Text
  | .declaration => ['<', '%', '!']
  | _ => ['<', '%']

/-- The name of a kind of block. -/
def BlockKind.name : BlockKind → String
  | .directive => "directive"
  | .expression => "expression"
  | .declaration => "declaration"
  | .scriptlet => "scriptlet"
  | .comment => "comment"

/-- A block of several lines. -/
def blockLines (kind : BlockKind) (code : Text) : Text :=
  opener kind ++ '\n' :: code ++ '\n' :: blockClose

/-- A block on one line. -/
def blockLine (start body : Text) : Text := start ++ ' ' :: body ++ ' ' :: blockClose

section

variable {σ : Type}

/-- The code of a block as the code formatter gives it, if it does. -/
def formatExternally (formatter : CodeFormatter σ) (b : Block) (p : Pass σ) :
    Except Fault (Option Text × Pass σ) :=
  let (reply, state) := formatter (Java.wrap b.inner b.kind) p.formatter
  let p := { p with formatter := state, notes := p.notes ++ reply.notes }
  match reply.result with
  | .error (.fault f) => .error f
  | .error (.error e) =>
    let warning : Note := ⟨.warning, "Code formatter failed, using the built-in reformatter for " ++
      "the rest of the document: " ++ e.message⟩
    .ok (none, { p.note warning with session := { p.session with available := false } })
  | .ok formatted =>
    match Java.unwrap? formatted b.kind with
    | some code => .ok (some code, p)
    | none =>
      let offset := String.ofList (Text.ofInt b.offset)
      let place := b.kind.name ++ " at offset " ++ offset
      .ok (none, p.note ⟨.debug, "Could not unwrap formatted " ++ place⟩)

/-- A block indented by brace depth. -/
def formatByDepth (style : BlockStyle) (b : Block) (p : Pass σ) : Text × Pass σ :=
  (blockLines b.kind (Java.reformatWith style.unit b.inner),
    { p with session := { p.session with fallbacks := p.session.fallbacks + 1 } })

/-- A scriptlet or declaration, formatted. -/
def formatCode (style : BlockStyle) (formatter : Option (CodeFormatter σ)) (b : Block)
    (p : Pass σ) : Except Fault (Text × Pass σ) :=
  if b.inner.blank then .ok (opener b.kind ++ ' ' :: blockClose, p)
  else
    match style.mode, formatter with
    | .off, _ => .ok (blockLine (opener b.kind) b.inner, p)
    | .auto, some formatter =>
      if p.session.available then do
        match ← formatExternally formatter b p with
        | (some code, p) =>
          let session := { p.session with formatted := p.session.formatted + 1 }
          pure (blockLines b.kind code, { p with session })
        | (none, p) => pure (formatByDepth style b p)
      else .ok (formatByDepth style b p)
    | _, _ => .ok (formatByDepth style b p)

/-- A block, formatted. -/
def formatBlock (style : BlockStyle) (formatter : Option (CodeFormatter σ)) (b : Block)
    (p : Pass σ) : Except Fault (Text × Pass σ) :=
  match b.kind with
  | .directive =>
    let body := if style.normalizeDirectives then Directive.normalize b.inner else b.inner
    .ok (blockLine ['<', '%', '@'] body, p)
  | .expression => .ok (blockLine ['<', '%', '='] b.inner.trim, p)
  | .comment => .ok (b.raw, p)
  | .scriptlet | .declaration => formatCode style formatter b p

end

end JspLayout
