import JspLayout.Format.Session
import JspLayout.Marker.Weave

/-! Formatting a whole page. -/

namespace JspLayout

/-- Formatters of markup. -/
abbrev MarkupFormatter := Text → Except MarkupError Text

/-- What formatting a page makes use of and does not do itself. -/
structure Library where
  /-- Lays markup out anew, indented by the given unit. -/
  reflow : Text → MarkupFormatter
  /-- Looks up attributes for command templates. -/
  attributes : Template.Attributes

/-- The markup formatter that the options ask for. -/
def markupFormatter (lib : Library) (o : Options) : MarkupFormatter :=
  match o.markup with
  | .keep => .ok
  | .reflow => lib.reflow o.unit

/-- The code formatter that the options ask for. -/
def optionsFormatter (lib : Library) (o : Options) : CodeFormatter Programs :=
  commandFormatter lib.attributes o.command o.timeout (.int o.indentWidth) (.bool o.useTabs)

/-- A formatted page, the state of the code formatter after it, and the notes. -/
structure Formatted (σ : Type) where
  text : Text
  formatter : σ
  notes : List Note

variable {σ : Type}

/-- The page formatted with the given formatters, and the pass after it. -/
def formatPass (o : Options) (markup : MarkupFormatter) (code : Option (CodeFormatter σ))
    (page : Text) (p : Pass σ) : Except Fault (Text × Pass σ) :=
  let block (b : Block) : StateT (Pass σ) (Except Fault) Text := formatBlock o.blockStyle code b
  let note (n : Note) : StateT (Pass σ) (Except Fault) Unit := modify fun p => p.note n
  (weave markup block note o.pad (segments page)).run p

/-- The closing note of a pass. -/
def summary (page : Text) (s : Session) : Note :=
  let number (n : Nat) : String := String.ofList (Text.ofNat n)
  ⟨.debug, "Formatted " ++ number (segments page).length ++ " segments (" ++ number s.formatted ++
    " by code formatter, " ++ number s.fallbacks ++ " by fallback)"⟩

/-- The page formatted with the given formatters, `state` being that of the code formatter. -/
def formatPageWith (o : Options) (markup : MarkupFormatter) (code : Option (CodeFormatter σ))
    (page : Text) (state : σ) : Except Fault (Formatted σ) := do
  let (text, p) ← formatPass o markup code page { formatter := state }
  pure ⟨text, p.formatter, p.notes ++ [summary page p.session]⟩

/-- The page formatted as the options ask. -/
def formatPage (lib : Library) (o : Options) (page : Text) (programs : Programs) :
    Except Fault (Formatted Programs) :=
  let code := if o.mode = .auto then some (optionsFormatter lib o) else none
  formatPageWith o (markupFormatter lib o) code page programs

end JspLayout
