import JspLayout.Page.Margin
import JspLayout.Text.Search

/-! A page as a sequence of segments.

    A page is markup with code blocks in it. A block runs from its opening delimiter to the first
    closing one; a comment block is looked for before any other, so that a closing delimiter inside
    a comment does not end it. An opening delimiter that is never closed is markup. The sources of
    the segments, one after the other, are the page. -/

namespace JspLayout

/-- What a code block is for. -/
inductive BlockKind where
  | directive
  | expression
  | declaration
  | scriptlet
  | comment
  deriving DecidableEq, Repr

/-- A code block: its source with delimiters, its body without delimiters and role marks, and where
    it starts in the page. -/
structure Block where
  kind : BlockKind
  raw : Text
  inner : Text
  offset : Int
  deriving DecidableEq

/-- A stretch of a page. -/
inductive Segment where
  | markup (text : Text) (offset : Int)
  | block (block : Block)
  deriving DecidableEq

namespace Segment

/-- The segment as it stands in the page. -/
def source : Segment → Text
  | .markup text _ => text
  | .block b => b.raw

/-- The block, if the segment is one. -/
def block? : Segment → Option Block
  | .markup _ _ => none
  | .block b => some b

/-- The page that the segments make up. -/
def reconstruct (segments : List Segment) : Text := segments.flatMap source

/-- The markup of the segments, without the blocks. -/
def markupOf (segments : List Segment) : Text :=
  segments.flatMap fun
    | .markup text _ => text
    | .block _ => []

end Segment

/-! ### Delimiters -/

/-- Opens every block. -/
def blockOpen : Text := ['<', '%']

/-- Closes every block but a comment. -/
def blockClose : Text := ['%', '>']

def commentOpen : Text := ['<', '%', '-', '-']

def commentClose : Text := ['-', '-', '%', '>']

/-! ### Bodies -/

namespace Text

/-- A block body without the indentation of its place in the page. Text on the line of the opening
    delimiter takes no part in the margin. -/
def dedentBody (body : Text) : Text :=
  match body.lines with
  | [] | [_] => body.trim
  | first :: rest =>
    let rest := stripMargin (unlines rest)
    let whole := if first.blank then rest else first.trim ++ '\n' :: rest
    whole.trimBlankLines.trimRight

/-- Drops a role mark that may be repeated, with the spaces and tabs after each. -/
def dropMarks (mark : Char) (body : Text) : Text :=
  match body.trimLeft with
  | [] => body
  | c :: s => if c = mark then s.dropWhile fun d => d == mark || isIndent d else body

end Text

namespace Block

/-- What stands between the delimiters of a comment block. One line feed may follow the closing
    delimiter. -/
def commentBody? (raw : Text) : Option Text := do
  let rest ← Text.after? commentOpen raw
  Text.before? commentClose rest <|> Text.before? (commentClose ++ ['\n']) rest

/-- The first character after the opening delimiter that is not blank. -/
def roleMark? (raw : Text) : Option Char := do
  let rest ← Text.after? blockOpen raw
  rest.trimLeft.head?

/-- The source without two characters at each end. -/
def body (raw : Text) : Text := (raw.take (raw.length - 2)).drop 2

/-- The block with the given source. The role is read off the source before anything is stripped,
    so a role mark further inside has no effect. -/
def classify (raw : Text) (offset : Int) : Block :=
  match commentBody? raw with
  | some inner => ⟨.comment, raw, inner.dedentBody, offset⟩
  | none =>
    match roleMark? raw with
    | some '@' => ⟨.directive, raw, Text.trim ((body raw).trim.dropWhile (· == '@')), offset⟩
    | some '=' =>
      let inner := Text.trimRight ((body raw).dropWhile fun c => isBlank c || c == '=')
      ⟨.expression, raw, inner, offset⟩
    | some '!' => ⟨.declaration, raw, ((body raw).dropMarks '!').dedentBody, offset⟩
    | _ => ⟨.scriptlet, raw, (body raw).dedentBody, offset⟩

end Block

/-! ### Splitting a page -/

/-- The text from `opening` to the first `closing` after it, when `s` begins with `opening`, and
    what follows. -/
def delimited? (opening closing s : Text) : Option (Text × Text) := do
  let rest ← Text.after? opening s
  let (inside, tail) ← Text.cut? closing rest
  pure (opening ++ inside ++ closing, tail)

/-- The source of the block that `s` begins with, and what follows it. -/
def blockAt? (s : Text) : Option (Text × Text) :=
  delimited? commentOpen commentClose s <|> delimited? blockOpen blockClose s

/-- The first block of `s`: the markup before it, its source, and what follows it. -/
def nextBlock? : Text → Option (Text × Text × Text)
  | [] => none
  | c :: s =>
    match blockAt? (c :: s) with
    | some (raw, tail) => some ([], raw, tail)
    | none => (nextBlock? s).map fun (before, raw, tail) => (c :: before, raw, tail)

theorem eq_append_of_delimited? {opening closing s raw tail : Text}
    (h : delimited? opening closing s = some (raw, tail)) :
    s = raw ++ tail ∧ opening.length + closing.length ≤ raw.length := by
  simp only [delimited?, Option.bind_eq_bind, Option.bind_eq_some_iff, Option.pure_def,
    Option.some.injEq, Prod.mk.injEq, Prod.exists] at h
  obtain ⟨rest, ho, inside, tail', hc, hraw, htail⟩ := h
  have h1 := Text.eq_append_of_after? ho
  have h2 := Text.eq_append_of_cut? hc
  subst htail hraw
  exact ⟨by rw [h1, h2]; simp, by simp only [List.length_append]; omega⟩

theorem eq_append_of_blockAt? {s raw tail : Text} (h : blockAt? s = some (raw, tail)) :
    s = raw ++ tail ∧ 4 ≤ raw.length := by
  have split : delimited? commentOpen commentClose s = some (raw, tail) ∨
      delimited? blockOpen blockClose s = some (raw, tail) := by
    rw [blockAt?] at h
    cases hc : delimited? commentOpen commentClose s with
    | none => rw [hc] at h; exact Or.inr h
    | some p => rw [hc] at h; exact Or.inl h
  rcases split with h | h
  · have := eq_append_of_delimited? h
    exact ⟨this.1, by have h2 := this.2; simp [commentOpen, commentClose] at h2; omega⟩
  · have := eq_append_of_delimited? h
    exact ⟨this.1, by have h2 := this.2; simpa [blockOpen, blockClose] using h2⟩

/-- Nothing is lost around the first block. -/
theorem eq_append_of_nextBlock? : ∀ {s before raw tail : Text},
    nextBlock? s = some (before, raw, tail) → s = before ++ (raw ++ tail) ∧ 4 ≤ raw.length
  | [], _, _, _, h => by simp [nextBlock?] at h
  | c :: s, before, raw, tail, h => by
    rw [nextBlock?] at h
    split at h
    · next raw' tail' hb =>
      simp only [Option.some.injEq, Prod.mk.injEq] at h
      obtain ⟨rfl, rfl, rfl⟩ := h
      simpa using eq_append_of_blockAt? hb
    · obtain ⟨⟨before', raw', tail'⟩, hn, he⟩ := Option.map_eq_some_iff.mp h
      simp only [Prod.mk.injEq] at he
      obtain ⟨rfl, rfl, rfl⟩ := he
      have ih := eq_append_of_nextBlock? hn
      exact ⟨by rw [ih.1]; rfl, ih.2⟩

theorem length_lt_of_nextBlock? {s before raw tail : Text}
    (h : nextBlock? s = some (before, raw, tail)) : tail.length < s.length := by
  have := eq_append_of_nextBlock? h
  rw [this.1]
  simp only [List.length_append]
  omega

/-- A stretch of markup as segments: none when it is empty. -/
def Segment.ofMarkup (text : Text) (offset : Int) : List Segment :=
  if text = [] then [] else [.markup text offset]

/-- The segments of a text that starts at `offset` of the page. -/
def segmentsFrom (offset : Int) (s : Text) : List Segment :=
  match _ : nextBlock? s with
  | none => Segment.ofMarkup s offset
  | some (before, raw, tail) =>
    let start := offset + before.length
    Segment.ofMarkup before offset ++
      .block (Block.classify raw start) :: segmentsFrom (start + raw.length) tail
termination_by s.length
decreasing_by exact length_lt_of_nextBlock? (by assumption)

/-- The segments of a page, in order. -/
def segments (page : Text) : List Segment := segmentsFrom 0 page

end JspLayout
