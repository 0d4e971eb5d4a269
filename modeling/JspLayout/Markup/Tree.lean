import JspLayout.Markup.Token

/-! Markup as a tree.

    Start tags nest without implied ends. An end tag closes the nearest open element of its name and
    all inside it, and is ignored when there is none. A void element is closed at once, and one
    later end tag of its name is then passed over. A string of ASCII white space becomes one line
    feed or one space, except where white space is kept. -/

namespace JspLayout.Markup

/-- A node of the tree. A string is `plain` when it is character data outside scripts, style sheets,
    templates and ruby annotations. -/
inductive Node where
  | element (name : Text) (attributes : List Attribute) (children : List Node)
  | string (kind : StringKind) (plain : Bool) (text : Text)

/-- Elements that never have content. -/
def voidNames : List Text :=
  ["area".toList, "base".toList, "br".toList, "col".toList, "embed".toList, "hr".toList,
    "img".toList, "input".toList, "keygen".toList, "link".toList, "menuitem".toList, "meta".toList,
    "param".toList, "source".toList, "track".toList, "wbr".toList, "basefont".toList,
    "bgsound".toList, "command".toList, "frame".toList, "image".toList, "isindex".toList,
    "nextid".toList, "spacer".toList]

/-- Elements whose white space is kept. -/
def preservingNames : List Text := ["pre".toList, "textarea".toList]

/-- Elements whose character data is not plain text. -/
def specialTextNames : List Text :=
  ["script".toList, "style".toList, "template".toList, "rt".toList, "rp".toList]

/-- An element that is still open, its children last one first. -/
structure Frame where
  name : Text
  attributes : List Attribute
  children : List Node

/-- A tree in progress: the open elements, innermost first, the finished nodes outside all of them,
    the character data not yet made into a string, and the void elements whose end tag may still
    come. -/
structure Builder where
  frames : List Frame := []
  roots : List Node := []
  data : Text := []
  closedVoids : List Text := []

namespace Builder

/-- Adds a node to the innermost open element. -/
def add (b : Builder) (node : Node) : Builder :=
  match b.frames with
  | [] => { b with roots := node :: b.roots }
  | f :: fs => { b with frames := { f with children := node :: f.children } :: fs }

/-- Whether an element with one of the names is open. -/
def inside (b : Builder) (names : List Text) : Bool := b.frames.any fun f => names.contains f.name

/-- White space that can be collapsed. -/
def isSpace (c : Char) : Bool := c == ' ' || c == '\n' || c == '\t' || c == '\x0c' || c == '\r'

/-- The text of a string node. -/
def collapse (b : Builder) (text : Text) : Text :=
  if text.all isSpace && !b.inside preservingNames then
    if text.contains '\n' then ['\n'] else [' ']
  else text

/-- Adds a string. -/
def addString (b : Builder) (kind : StringKind) (text : Text) : Builder :=
  b.add (.string kind (kind == .data && !b.inside specialTextNames) (b.collapse text))

/-- Makes the character data so far into a string. -/
def flush (b : Builder) : Builder :=
  if b.data = [] then b else { b.addString .data b.data with data := [] }

/-- Closes the innermost element. -/
def pop (b : Builder) : Builder :=
  match b.frames with
  | [] => b
  | f :: fs => { b with frames := fs }.add (.element f.name f.attributes f.children.reverse)

/-- Closes the `n` innermost elements. -/
def popN (b : Builder) : Nat → Builder
  | 0 => b
  | n + 1 => b.pop.popN n

/-- Closes the nearest open element of the name, if there is one. -/
def close (b : Builder) (name : Text) : Builder :=
  match b.frames.findIdx? fun f => f.name == name with
  | none => b
  | some i => b.popN (i + 1)

/-- Reads an end tag. -/
def endTag (b : Builder) (name : Text) : Builder :=
  if b.closedVoids.contains name then { b with closedVoids := b.closedVoids.erase name }
  else b.flush.close name

end Builder

/-! ### Attributes -/

/-- Sets an attribute; a repeated one keeps its place. -/
def setAttribute (as : List Attribute) (a : Attribute) : List Attribute :=
  if as.any fun b => b.key == a.key then as.map fun b => if b.key == a.key then a else b
  else as ++ [a]

/-- The value of an attribute. -/
def attributeValue? (as : List Attribute) (key : Text) : Option Text :=
  (as.find? fun a => a.key == key).map Attribute.value

/-- The encoding that markup is written in. -/
def encodingName : Text := "utf-8".toList

/-- The text with the value of every character set parameter replaced by the encoding. A parameter
    stands at the start of a line or after a semicolon; `atStart` says whether `s` does. -/
def setCharset (atStart : Bool) (s : Text) : Text :=
  match s with
  | [] => []
  | c :: r =>
    let (lead, body) := if c = ';' then ([c], r) else ([], c :: r)
    let found :=
      if atStart || c == ';' then Text.after? "charset=".toList (Text.trimLeft body) else none
    match found with
    | some value =>
      let blanks := body.takeWhile isBlank
      if _ : (value.dropWhile (· != ';')).length ≤ r.length then
        lead ++ blanks ++ "charset=".toList ++ encodingName ++
          setCharset false (value.dropWhile (· != ';'))
      else c :: r
    | none => c :: setCharset (c == '\n') r
termination_by s.length
decreasing_by all_goals simp only [List.length_cons]; omega

/-- The attributes of an element as it is written out: the encoding that a `meta` element declares
    is the one the markup is written in. -/
def declareEncoding (name : Text) (as : List Attribute) : List Attribute :=
  if name = "meta".toList then
    if (attributeValue? as "charset".toList).isSome then
      as.map fun a => if a.key = "charset".toList then { a with value := encodingName } else a
    else if (attributeValue? as "http-equiv".toList).any
        fun v => v.lower == "content-type".toList then
      as.map fun a =>
        if a.key = "content".toList then { a with value := setCharset true a.value } else a
    else as
  else as

namespace Builder

/-- Reads a start tag. -/
def startTag (b : Builder) (name : Text) (attributes : List Attribute) (closed : Bool) : Builder :=
  let as := declareEncoding name (attributes.foldl setAttribute [])
  let b := b.flush
  let b := { b with frames := ⟨name, as, []⟩ :: b.frames }
  if closed then b.endTag name
  else if voidNames.contains name then { b.pop with closedVoids := name :: b.closedVoids }
  else b

/-- Reads a token. -/
def read (b : Builder) : Token → Builder
  | .startTag name as closed => b.startTag name as closed
  | .endTag name => b.endTag name
  | .string .data text => { b with data := b.data ++ text }
  | .string kind text => b.flush.addString kind text

/-- The nodes of the finished tree. -/
def nodes (b : Builder) : List Node :=
  let b := b.flush
  (b.popN b.frames.length).roots.reverse

end Builder

/-- The tree of a sequence of tokens. -/
def treeOf (ts : List Token) : List Node := (ts.foldl Builder.read {}).nodes

end JspLayout.Markup
