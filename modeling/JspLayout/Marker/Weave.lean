import JspLayout.Marker.Splice
import JspLayout.Note

/-! Laying out markup around code blocks.

    The blocks are replaced by markers, the markup is laid out, and every block, formatted on its
    own, goes back in place of its marker. A layout of the markup that loses a marker or changes
    more than white space is given up, and the markup then stays as written. -/

namespace JspLayout

/-- Why the layout of the markup is given up. -/
inductive MarkupError where
  /-- The markup cannot be read, for a reason in the reader's own words. -/
  | unreadable (reason : String)
  | dropped (markers : List Nat)
  | changed
  /-- An error in the formatter's own words. -/
  | reported (message : String)
  deriving DecidableEq

/-- Numbers in square brackets. -/
def numberList (ns : List Nat) : String :=
  "[" ++ String.ofList (Text.join [',', ' '] (ns.map Text.ofNat)) ++ "]"

/-- The wording of an error. -/
def MarkupError.message : MarkupError → String
  | .unreadable reason => "Markup could not be parsed: " ++ reason
  | .dropped markers => "Markup formatter dropped markers " ++ numberList markers
  | .changed => "Markup formatter changed more than whitespace"
  | .reported message => message

/-- The laid out markup, unless it has to be given up. -/
def layMarkup (markup : Text → Except MarkupError Text) (tag buffer : Text)
    (entries : List Placeholder) : Except MarkupError Text := do
  let formatted ← markup buffer
  let missing := missingMarkers formatted tag entries
  if missing ≠ [] then throw (.dropped missing)
  if buffer.solid ≠ formatted.solid then throw .changed
  pure formatted

variable {m : Type → Type} [Monad m]

/-- Puts the block of a placeholder back, formatted by `block`; a marker that is not there is left
    alone, with a note. -/
def placeBlock (block : Block → m Text) (note : Note → m Unit) (tag pad buffer : Text)
    (e : Placeholder) : m Text :=
  match Marker.find? tag e.index e.inTag buffer with
  | none => do
    let number := String.ofList (Text.ofNat e.index)
    note ⟨.debug, "Marker " ++ number ++ " not found, leaving it in place"⟩
    pure buffer
  | some (before, rest) => do
    let replacement ← block e.block
    if e.inTag then pure (spliceInTag before rest e.block.raw replacement)
    else pure (spliceBlock before rest replacement pad)

/-- Puts the blocks of all placeholders back in order. -/
def placeBlocks (block : Block → m Text) (note : Note → m Unit) (tag pad : Text) :
    Text → List Placeholder → m Text
  | buffer, [] => pure buffer
  | buffer, e :: es => do
    let buffer ← placeBlock block note tag pad buffer e
    placeBlocks block note tag pad buffer es

/-- The page of the segments with its markup laid out by `markup` and its blocks formatted by
    `block`, the lines inside a block indented by `pad`. -/
def weave (markup : Text → Except MarkupError Text) (block : Block → m Text) (note : Note → m Unit)
    (pad : Text) (segments : List Segment) : m Text := do
  let tag := freeMarkerName (Segment.reconstruct segments)
  let (buffer, entries) := markerBuffer segments tag
  match layMarkup markup tag buffer entries with
  | .ok formatted => placeBlocks block note tag pad formatted entries
  | .error e => do
    note ⟨.warning, "Markup formatting failed, keeping markup layout: " ++ e.message⟩
    placeBlocks block note tag pad buffer entries

end JspLayout
