import JspLayout.Markup.Spelling

/-! Markup as a sequence of tokens.

    The reader is tolerant: what is no tag, comment or declaration is character data, and so is a
    construct that breaks off. Names are lowered, and the references to the ampersand are decoded in
    character data and attribute values. After the start tag of a script or a style sheet everything
    up to its end tag is data. Only a marked section with an unknown keyword is rejected. -/

namespace JspLayout.Markup

/-- An attribute with its value, empty when none is written. -/
structure Attribute where
  key : Text
  value : Text
  deriving DecidableEq

/-- What a character string in markup is. -/
inductive StringKind where
  | data
  | comment
  | section
  | instruction
  | declaration
  | doctype
  deriving DecidableEq, Repr

/-- A token of markup. -/
inductive Token where
  | startTag (name : Text) (attributes : List Attribute) (closed : Bool)
  | endTag (name : Text)
  | string (kind : StringKind) (text : Text)
  deriving DecidableEq

/-- Markup that cannot be read at all. -/
inductive Rejected where
  | markedSection
  deriving DecidableEq, Repr

/-- How an ampersand is referred to. -/
def ampersandReference : Text := "&amp;".toList

/-- The text with every ampersand written as a reference. -/
def escape (s : Text) : Text := s.flatMap fun c => if c = '&' then ampersandReference else [c]

/-- The text with references to the ampersand decoded. -/
def decode (s : Text) : Text := Text.replace ampersandReference ['&'] s

/-! ### Start tags -/

/-- A character of a tag name as read. -/
def isTagChar (c : Char) : Bool :=
  !(c == '\t' || c == '\n' || c == '\r' || c == '\x0c' || c == ' ' || c == '/' || c == '>'
    || c == '\x00')

/-- Whether an attribute may start after the character. -/
def precedesAttribute (c : Char) : Bool := c == '\'' || c == '"' || isBlank c || c == '/'

/-- The text without leading blanks and slashes; the slash right before a closing bracket stays. -/
def skipFiller : Text → Text
  | [] => []
  | c :: s =>
    if isBlank c || (c == '/' && s.head? != some '>') then skipFiller s else c :: s

/-- A value without quotes and what follows it. -/
def bareValue (s : Text) : Text × Text :=
  (s.takeWhile fun c => c != '>' && !isBlank c, s.dropWhile fun c => c != '>' && !isBlank c)

/-- The value after an attribute name, with what follows it. A quote that is never closed opens no
    value: the value is empty when blanks stand before the quote, and takes one of several equals
    signs with it when none do. -/
def value? (s : Text) : Option (Text × Text) :=
  let signs := s.trimLeft.takeWhile (· == '=')
  let rest := s.trimLeft.dropWhile (· == '=')
  if signs = [] then none
  else
    match Text.trimLeft rest with
    | [] => some ([], [])
    | q :: r =>
      if q = '\'' ∨ q = '"' then
        match Text.cut? [q] r with
        | some found => some found
        | none =>
          if rest.head?.any isBlank then some ([], q :: r)
          else if signs.length = 1 then none
          else some (bareValue ('=' :: rest))
      else some (bareValue (q :: r))

/-- The attribute that `s` begins with, and what follows it and its filler; `before` is the
    character before `s`. -/
def attribute? (before : Char) (s : Text) : Option (Attribute × Text) :=
  match s with
  | [] => none
  | c :: r =>
    if precedesAttribute before && isNameChar c then
      let name := c :: r.takeWhile fun d => isNameChar d && d != '='
      let rest := r.dropWhile fun d => isNameChar d && d != '='
      match value? rest with
      | some (value, tail) => some (⟨Text.lower name, decode value⟩, skipFiller tail)
      | none => some (⟨Text.lower name, []⟩, skipFiller rest)
    else none

/-- The last character of the part of `s` before its end `rest`. -/
def lastBefore (before : Char) (s rest : Text) : Char :=
  (s.take (s.length - rest.length)).getLastD before

/-- The attributes that `s` begins with, and what follows them. -/
def attributes (before : Char) (s : Text) : List Attribute × Text :=
  match attribute? before s with
  | none => ([], s)
  | some (a, rest) =>
    if _ : rest.length < s.length then
      let (more, tail) := attributes (lastBefore before s rest) rest
      (a :: more, tail)
    else ([a], rest)
termination_by s.length

/-- What the reader makes of a construct: tokens and what follows them, or nothing when the
    construct breaks off. -/
abbrev Reading := Option (List Token × Text)

/-- Data exactly as written. -/
def verbatim (s rest : Text) : Token := .string .data (s.take (s.length - rest.length))

/-- The start tag that `s` begins with, bracket included. -/
def readStartTag (s : Text) : Reading :=
  let name := (s.drop 1).takeWhile isTagChar
  let rest := (s.drop 1).dropWhile isTagChar
  let start := rest.dropWhile fun c => isBlank c || c == '/'
  let (found, tail) := attributes (lastBefore '<' s start) start
  match tail.trimLeft with
  | [] => none
  | '>' :: after =>
    let closed := found.isEmpty && (skipFiller rest).head? == some '/'
    some ([.startTag (Text.lower name) found closed], after)
  | '/' :: after =>
    match after with
    | '>' :: after => some ([.startTag (Text.lower name) found true], after)
    | _ => none
  | c :: after =>
    if isLetter c || c == '=' then none else some ([verbatim s (c :: after)], c :: after)

/-! ### Other constructs -/

/-- A character of an end tag's name. -/
def isEndTagChar (c : Char) : Bool := c.isAlphanum || c == '-' || c == '.' || c == ':' || c == '_'

/-- The end tag that `s` begins with, when it holds a name and blanks only. -/
def plainEndTag? (s : Text) : Option (Text × Text) :=
  match Text.trimLeft (s.drop 2) with
  | [] => none
  | c :: r =>
    if isLetter c then
      match Text.trimLeft (r.dropWhile isEndTagChar) with
      | '>' :: rest => some (c :: r.takeWhile isEndTagChar, rest)
      | _ => none
    else none

/-- The end tag that `s` begins with. Without a name right after the slash it is a comment. -/
def readEndTag (s : Text) : Reading := do
  let (inside, rest) ← Text.cut? ['>'] (s.drop 2)
  match plainEndTag? s with
  | some (name, rest) => pure ([.endTag name.lower], rest)
  | none =>
    if inside.head?.any isLetter then
      pure ([.endTag (Text.lower (inside.takeWhile isTagChar))], rest)
    else if inside = [] then pure ([], rest)
    else pure ([.string .comment inside], rest)

/-- Cuts a text at the first place where `close?` finds a closing delimiter. -/
def cutWith? (close? : Text → Option Text) : Text → Option (Text × Text)
  | [] => (close? []).map fun rest => ([], rest)
  | c :: s =>
    match close? (c :: s) with
    | some rest => some ([], rest)
    | none => (cutWith? close? s).map fun (inside, rest) => (c :: inside, rest)

/-- What follows two hyphens, blanks and a bracket. -/
def afterCommentClose? (s : Text) : Option Text := do
  let s ← Text.after? ['-', '-'] s
  Text.after? ['>'] s.trimLeft

/-- What follows a square bracket, blanks and an angle bracket. -/
def afterConditionClose? (s : Text) : Option Text := do
  let s ← Text.after? [']'] s
  Text.after? ['>'] s.trimLeft

/-- What follows two square brackets and an angle bracket, with any blanks between. -/
def afterSectionClose? (s : Text) : Option Text := do
  let s ← Text.after? [']'] s
  afterConditionClose? s.trimLeft

def readComment (s : Text) : Reading := do
  let (inside, rest) ← cutWith? afterCommentClose? (s.drop 4)
  pure ([.string .comment inside], rest)

def readInstruction (s : Text) : Reading := do
  let (inside, rest) ← Text.cut? ['>'] (s.drop 2)
  pure ([.string .instruction inside], rest)

/-- Keywords of sections that close with two square brackets. -/
def sectionWords : List Text :=
  ["temp".toList, "cdata".toList, "ignore".toList, "include".toList, "rcdata".toList]

/-- Keywords of sections that close with one square bracket. -/
def conditionWords : List Text := ["if".toList, "else".toList, "endif".toList]

/-- A character of a section's keyword. -/
def isSectionChar (c : Char) : Bool := c.isAlphanum || c == '-' || c == '_' || c == '.'

/-- The token of a marked section with the given text. -/
def sectionToken (inside : Text) : Token :=
  match Text.after? "cdata[".toList ((inside.take 6).map Char.toLower) with
  | some _ => .string .section (inside.drop 6)
  | none => .string .declaration inside

/-- The marked section that `s` begins with. -/
def readSection (s : Text) : Except Rejected Reading :=
  match s.drop 3 with
  | [] => .ok none
  | c :: r =>
    if isLetter c then
      let word := (c :: r.takeWhile isSectionChar).map Char.toLower
      let close? :=
        if sectionWords.contains word then some afterSectionClose?
        else if conditionWords.contains word then some afterConditionClose?
        else none
      if Text.trimLeft (r.dropWhile isSectionChar) = [] then .ok none
      else
        match close? with
        | none => .error .markedSection
        | some close? =>
          .ok ((cutWith? close? (c :: r)).map fun (inside, rest) => ([sectionToken inside], rest))
    else .error .markedSection

/-- The document type or other declaration that `s` begins with. -/
def readDeclaration (s : Text) : Reading :=
  if ((s.take 9).map Char.toLower) = "<!doctype".toList then do
    let (inside, rest) ← Text.cut? ['>'] (s.drop 9)
    pure ([.string .doctype (inside.drop 1)], rest)
  else do
    let (inside, rest) ← Text.cut? ['>'] (s.drop 2)
    pure ([.string .comment inside], rest)

/-- A construct that breaks off, as data: up to the next closing bracket, else up to the next
    opening one, else its first character. -/
def readBroken (s : Text) : List Token × Text :=
  match Text.cut? ['>'] s with
  | some (_, rest) => ([verbatim s rest], rest)
  | none =>
    let rest := (s.drop 1).dropWhile (· != '<')
    let rest := if rest = [] then s.drop 1 else rest
    ([verbatim s rest], rest)

/-! ### Raw text -/

/-- The elements whose content is data up to their end tag. -/
def rawTextNames : List Text := ["script".toList, "style".toList]

/-- What follows the end tag of `name`, in any case, when `s` begins with it. -/
def afterRawEnd? (name s : Text) : Option Text := do
  let s ← Text.after? ['<', '/'] s
  let s := s.trimLeft
  if (s.take name.length).map Char.toLower = name then
    Text.after? ['>'] (Text.trimLeft (s.drop name.length))
  else none

/-- The content of a raw text element and its end tag. Without an end tag the rest is lost. -/
def readRawText (name s : Text) : List Token × Text :=
  match cutWith? (afterRawEnd? name) s with
  | none => ([], [])
  | some ([], rest) => ([.endTag name], rest)
  | some (inside, rest) => ([.string .data inside, .endTag name], rest)

/-! ### The whole text -/

/-- The construct that `s` begins with; `s` begins with an opening bracket. -/
def readConstruct (s : Text) : Except Rejected Reading :=
  if (s.drop 1).head?.any isLetter then .ok (readStartTag s)
  else if Text.begins "</".toList s then .ok (readEndTag s)
  else if Text.begins "<!--".toList s then .ok (readComment s)
  else if Text.begins "<?".toList s then .ok (readInstruction s)
  else if Text.begins "<![".toList s then readSection s
  else if Text.begins "<!".toList s then .ok (readDeclaration s)
  else .ok (some ([.string .data ['<']], s.drop 1))

/-- The tokens of one construct or stretch of data, and what follows. -/
def readOne (s : Text) : Except Rejected (List Token × Text) :=
  if s.head? = some '<' then do
    match ← readConstruct s with
    | none => pure (readBroken s)
    | some ([.startTag name found false], rest) =>
      if rawTextNames.contains name then
        let (content, rest) := readRawText name rest
        pure (.startTag name found false :: content, rest)
      else pure ([.startTag name found false], rest)
    | some reading => pure reading
  else .ok ([.string .data (decode (s.takeWhile (· != '<')))], s.dropWhile (· != '<'))

/-- The tokens of markup in which ampersands are written as references. Every reading uses up some
    text. -/
def tokens (s : Text) : Except Rejected (List Token) :=
  match s with
  | [] => .ok []
  | c :: r => do
    let (found, rest) ← readOne (c :: r)
    if _ : rest.length ≤ r.length then
      let more ← tokens rest
      pure (found ++ more)
    else pure found
termination_by s.length
decreasing_by simp only [List.length_cons]; omega

end JspLayout.Markup
