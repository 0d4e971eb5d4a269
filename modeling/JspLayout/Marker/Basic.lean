import JspLayout.Page.Segment
import JspLayout.Text.Digit

/-! Markers that stand in for code blocks while the markup is laid out.

    A block in running markup becomes an empty element, a block inside a start tag a bare word, so
    that each survives where it stands. The marker's name does not occur in the page, and its number
    tells which block it stands for. After the layout a marker element is found again whatever white
    space was put into it, and also when it was closed in itself. -/

namespace JspLayout

/-- The name of marker elements where the page leaves it free. -/
def markerName : Text := "jspfmt".toList

/-- The marker name with a number. -/
def numberedName (n : Nat) : Text := markerName ++ '-' :: Text.ofNat n

/-- A marker name that does not occur in the page: the plain one, else the first numbered one from 1
    on. A page has fewer numbered names in it than characters, so the search is bounded by its
    length. -/
def freeMarkerName (page : Text) : Text :=
  if Text.holds markerName page then
    let free := (List.range' 1 (page.length + 1)).find? fun n => !Text.holds (numberedName n) page
    numberedName (free.getD 1)
  else markerName

namespace Marker

/-- The attribute that carries the number. -/
def numberKey : Text := "data-i".toList

/-- A marker in running markup. -/
def element (tag : Text) (index : Nat) : Text :=
  '<' :: tag ++ ' ' :: numberKey ++ ['=', '"'] ++ Text.ofNat index ++ ['"', '>', '<', '/'] ++ tag ++
    ['>']

/-- A marker inside a start tag. -/
def word (tag : Text) (index : Nat) : Text := '_' :: tag ++ '_' :: Text.ofNat index ++ ['_']

def render (tag : Text) (index : Nat) (inTag : Bool) : Text :=
  if inTag then word tag index else element tag index

/-- What follows the marker element that `s` begins with, however it is spaced. -/
def afterElement? (tag : Text) (index : Nat) (s : Text) : Option Text := do
  let s ← Text.after? ('<' :: tag) s
  if s.head?.any isBlank then
    let s ← Text.after? numberKey s.trimLeft
    let s ← Text.after? ['='] s.trimLeft
    let s ← Text.after? ('"' :: Text.ofNat index ++ ['"']) s.trimLeft
    let closed := Text.after? ['/', '>'] s.trimLeft
    let paired := do
      let s ← Text.after? ['>'] s.trimLeft
      let s ← Text.after? ('<' :: '/' :: tag) s.trimLeft
      Text.after? ['>'] s.trimLeft
    closed <|> paired
  else none

/-- What follows the marker that `s` begins with. -/
def after? (tag : Text) (index : Nat) (inTag : Bool) (s : Text) : Option Text :=
  if inTag then Text.after? (word tag index) s else afterElement? tag index s

/-- The text before and the text after the first marker with the given number. -/
def find? (tag : Text) (index : Nat) (inTag : Bool) : Text → Option (Text × Text)
  | [] => (after? tag index inTag []).map fun rest => ([], rest)
  | c :: s =>
    match after? tag index inTag (c :: s) with
    | some rest => some ([], rest)
    | none => (find? tag index inTag s).map fun (before, rest) => (c :: before, rest)

end Marker

/-- Whether the end of `text` is inside a tag: the last angle bracket opens one. -/
def insideTag (text : Text) : Bool :=
  (text.filter fun c => c == '<' || c == '>').getLast? == some '<'

/-- A marker's number, the place of its block among the segments, the block, and whether it stands
    inside a start tag. -/
structure Placeholder where
  index : Nat
  position : Nat
  block : Block
  inTag : Bool
  deriving DecidableEq

/-- The segments from `position` on as markup with markers, with the placeholders in order; `index`
    is the next number, and `inTag` says whether the markup so far ends inside a tag. -/
def markSegments (tag : Text) (index position : Nat) (inTag : Bool) :
    List Segment → Text × List Placeholder
  | [] => ([], [])
  | .markup text _ :: rest =>
    let inTag := if text.contains '<' || text.contains '>' then insideTag text else inTag
    let (buffer, entries) := markSegments tag index (position + 1) inTag rest
    (text ++ buffer, entries)
  | .block b :: rest =>
    let (buffer, entries) := markSegments tag (index + 1) (position + 1) inTag rest
    (Marker.render tag index inTag ++ buffer, ⟨index, position, b, inTag⟩ :: entries)

/-- The markup with a marker for every block, and the placeholders in order. -/
def markerBuffer (segments : List Segment) (tag : Text) : Text × List Placeholder :=
  markSegments tag 0 0 false segments

/-- The numbers of the markers that `buffer` lacks. -/
def missingMarkers (buffer tag : Text) (entries : List Placeholder) : List Nat :=
  (entries.filter fun e => (Marker.find? tag e.index e.inTag buffer).isNone).map Placeholder.index

end JspLayout
