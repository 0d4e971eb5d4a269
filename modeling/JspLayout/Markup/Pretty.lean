import JspLayout.Markup.Tree

/-! Markup laid out one tag or string to a line.

    Start tags, end tags and strings stand on lines of their own, indented by their depth; strings
    are trimmed and dropped when nothing is left. Elements that keep their white space are written
    as they are. Names come out as the source spells them, attributes in source order, and an
    element without content is closed in itself when it is void or its name is written so anywhere
    in the source. -/

namespace JspLayout.Markup

/-- What the layout depends on besides the tree. -/
structure Style where
  /-- One level of indentation. -/
  unit : Text
  spelling : Spelling
  /-- What stands before the closing bracket of an element without content. -/
  emptyClose : Text

/-- An attribute value between quotes. -/
def quoteValue (value : Text) : Text :=
  if value.contains '"' then
    if value.contains '\'' then '"' :: Text.replace ['"'] "&quot;".toList value ++ ['"']
    else '\'' :: value ++ ['\'']
  else '"' :: value ++ ['"']

namespace Style

/-- The attributes of an element in the spelling of the source. -/
def attributes (st : Style) (as : List Attribute) : List Attribute :=
  (as.map fun a => { a with key := st.spelling.restore a.key }).foldl setAttribute []

/-- The inside of a start tag. -/
def head (st : Style) (name : Text) (as : List Attribute) : Text :=
  st.spelling.restore name ++
    (st.attributes as).flatMap fun a => ' ' :: a.key ++ '=' :: quoteValue a.value

/-- Whether an element without content is written without an end tag. -/
def canBeEmpty (st : Style) (name : Text) : Bool :=
  voidNames.contains name || st.spelling.selfClosed.contains name

def startTag (st : Style) (name : Text) (as : List Attribute) : Text :=
  '<' :: st.head name as ++ ['>']

def emptyTag (st : Style) (name : Text) (as : List Attribute) : Text :=
  '<' :: st.head name as ++ st.emptyClose ++ ['>']

def endTag (st : Style) (name : Text) : Text := '<' :: '/' :: st.spelling.restore name ++ ['>']

/-- A string in the notation of its kind. -/
def string (kind : StringKind) (plain : Bool) (text : Text) : Text :=
  let text := if plain then text else decode text
  match kind with
  | .data => text
  | .comment => "<!--".toList ++ text ++ "-->".toList
  | .section => "<![CDATA[".toList ++ text ++ "]]>".toList
  | .instruction => "<?".toList ++ text ++ ">".toList
  | .declaration => "<?".toList ++ text ++ "?>".toList
  | .doctype => "<!DOCTYPE ".toList ++ text ++ ">\n".toList

/-- A line at the given depth. -/
def line (st : Style) (depth : Nat) (text : Text) : Text := st.unit.times depth ++ text ++ ['\n']

mutual

/-- A node with its white space kept. -/
def verbatim (st : Style) : Node → Text
  | .string kind plain text => string kind plain text
  | .element name as children =>
    if children.isEmpty && st.canBeEmpty name then st.emptyTag name as
    else st.startTag name as ++ verbatimAll st children ++ st.endTag name

def verbatimAll (st : Style) : List Node → Text
  | [] => []
  | n :: ns => verbatim st n ++ verbatimAll st ns

end

mutual

/-- A node laid out at the given depth. -/
def pretty (st : Style) (depth : Nat) : Node → Text
  | .string kind plain text =>
    let piece := (string kind plain text).trim
    if piece = [] then [] else st.line depth piece
  | .element name as children =>
    if children.isEmpty && st.canBeEmpty name then st.line depth (st.emptyTag name as)
    else if preservingNames.contains (st.spelling.restore name) then
      st.line depth (st.startTag name as ++ verbatimAll st children ++ st.endTag name)
    else
      st.line depth (st.startTag name as) ++ prettyAll st (depth + 1) children ++
        st.line depth (st.endTag name)

def prettyAll (st : Style) (depth : Nat) : List Node → Text
  | [] => []
  | n :: ns => pretty st depth n ++ prettyAll st depth ns

end

end Style

/-- Markup laid out with `unit` for every level. -/
def reflow (unit text : Text) : Except Rejected Text := do
  let ts ← tokens (escape text)
  let style : Style := ⟨unit, Spelling.ofText text, if closesTags text then ['/'] else []⟩
  pure (style.prettyAll 0 (treeOf ts))

end JspLayout.Markup
