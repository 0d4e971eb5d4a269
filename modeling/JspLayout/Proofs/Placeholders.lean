import JspLayout.Proofs.Spots

/-! The markers that a page is given.

    All markers of a page share one name, which is found by counting up past the names that the page
    holds. Each marker has the number of its block and tells whether the block stands inside a start
    tag. Main statements: the count ends, and it ends at the first name that is free
    (`freeMarkerName_seeks`); the flag that is carried from one piece of markup to the next is the one
    that all the markup before the block gives, whatever code stands in between
    (`inTag_markerBuffer`). -/

namespace JspLayout

open Text

/-! ### The search for a name -/

/-- Counting up from a number past the numbered names that the page holds ends at another one. The
    count has no bound of its own. -/
inductive Seeks (page : Text) : Nat → Nat → Prop
  | free {n : Nat} : ¬numberedName n <:+: page → Seeks page n n
  | taken {n m : Nat} : numberedName n <:+: page → Seeks page (n + 1) m → Seeks page n m

/-- A count that ends does so at the first free name. -/
theorem Seeks.isLeast {page : Text} {start n : Nat} (h : Seeks page start n) :
    IsLeast {n | start ≤ n ∧ ¬numberedName n <:+: page} n := by
  induction h with
  | free hfree => exact ⟨⟨le_rfl, hfree⟩, fun _ hm => hm.1⟩
  | @taken start n htaken _ ih =>
    obtain ⟨⟨hle, hfree⟩, hleast⟩ := ih
    refine ⟨⟨by omega, hfree⟩, fun m hm => hleast ⟨?_, hm.2⟩⟩
    -- `start` is taken, so a free number from there on is past it.
    have hne : start ≠ m := fun he => hm.2 (he ▸ htaken)
    have := hm.1
    omega

/-- A free name ahead stops the count. -/
theorem exists_seeks_le {page : Text} : ∀ (steps start : Nat), ¬numberedName (start + steps) <:+: page →
    ∃ n ≤ start + steps, Seeks page start n
  | 0, start, hfree => ⟨start, le_rfl, .free hfree⟩
  | steps + 1, start, hfree => by
    by_cases htaken : numberedName start <:+: page
    · rw [Nat.add_comm steps 1, ← Nat.add_assoc] at hfree ⊢
      obtain ⟨n, hn, hseeks⟩ := exists_seeks_le steps (start + 1) hfree
      exact ⟨n, hn, .taken htaken hseeks⟩
    · exact ⟨start, by omega, .free htaken⟩

/-- The count ends wherever it starts, after no more names than the page has characters. -/
theorem exists_seeks (page : Text) (start : Nat) : ∃ n ≤ start + page.length, Seeks page start n := by
  obtain ⟨k, hk, hfree⟩ := Marker.exists_numberedName_free page start
  obtain ⟨hstart, hend⟩ := List.mem_range'_1.mp hk
  rw [← Nat.add_sub_of_le hstart] at hfree
  obtain ⟨n, hn, hseeks⟩ := exists_seeks_le (k - start) start hfree
  exact ⟨n, by omega, hseeks⟩

/-- The search for a name ends. The name does not occur in the page, and it is the plain one if that
    does not occur, else the numbered one with the least number from 1 on that does not. -/
theorem freeMarkerName_seeks (page : Text) :
    (∀ start, ∃ n ≤ start + page.length, Seeks page start n) ∧
      ¬freeMarkerName page <:+: page ∧
        (¬markerName <:+: page → freeMarkerName page = markerName) ∧
          (markerName <:+: page → ∃ n, Seeks page 1 n ∧ freeMarkerName page = numberedName n ∧
            IsLeast {n | 1 ≤ n ∧ ¬numberedName n <:+: page} n) := by
  refine ⟨exists_seeks page, Marker.not_isInfix_free page, Marker.freeMarkerName_of_not_isInfix, ?_⟩
  intro h
  obtain ⟨n, -, hseeks⟩ := exists_seeks page 1
  obtain ⟨m, hm, hleast⟩ := Marker.exists_freeMarkerName_eq h
  exact ⟨n, hseeks, by rw [hm, hleast.unique hseeks.isLeast], hseeks.isLeast⟩

/-! ### Placeholders -/

namespace Segment

/-- The segment with another block in its place, if it is one. -/
def mapBlock (f : Block → Block) : Segment → Segment
  | .markup text offset => .markup text offset
  | .block b => .block (f b)

@[simp] theorem markupOf_nil : markupOf [] = [] := rfl

@[simp] theorem markupOf_markup_cons (text : Text) (offset : Int) (rest : List Segment) :
    markupOf (.markup text offset :: rest) = text ++ markupOf rest := rfl

@[simp] theorem markupOf_block_cons (b : Block) (rest : List Segment) :
    markupOf (.block b :: rest) = markupOf rest := rfl

@[simp] theorem filterMap_block?_markup_cons (text : Text) (offset : Int) (rest : List Segment) :
    (Segment.markup text offset :: rest).filterMap block? = rest.filterMap block? := rfl

@[simp] theorem filterMap_block?_block_cons (b : Block) (rest : List Segment) :
    (Segment.block b :: rest).filterMap block? = b :: rest.filterMap block? := rfl

end Segment

/-- A block among segments is the first of them or one of the rest. -/
theorem exists_eq_append_block_cons {s : Segment} {rest : List Segment}
    {p : List Segment → Block → Prop} :
    (∃ before b after, s :: rest = before ++ .block b :: after ∧ p before b) ↔
      (∃ b, s = .block b ∧ p [] b) ∨
        ∃ before b after, rest = before ++ .block b :: after ∧ p (s :: before) b := by
  constructor
  · rintro ⟨before, b, after, h, hp⟩
    cases before with
    | nil =>
      obtain ⟨rfl, rfl⟩ := List.cons.inj h
      exact Or.inl ⟨b, rfl, hp⟩
    | cons s' before =>
      obtain ⟨rfl, rfl⟩ := List.cons.inj h
      exact Or.inr ⟨before, b, after, rfl, hp⟩
  · rintro (⟨b, rfl, hp⟩ | ⟨before, b, after, rfl, hp⟩)
    · exact ⟨[], b, rest, rfl, hp⟩
    · exact ⟨s :: before, b, after, rfl, hp⟩

/-- The placeholders of the segments that follow `index` blocks, `position` segments in all and the
    markup `lead`. -/
theorem getElem?_markSegments (tag : Text) (e : Placeholder) :
    ∀ (segs : List Segment) (index position : Nat) (lead : Text) (k : Nat),
      (markSegments tag index position (insideTag lead) segs).2[k]? = some e ↔
        ∃ before b after, segs = before ++ .block b :: after ∧
          (before.filterMap Segment.block?).length = k ∧
            e = ⟨index + k, position + before.length, b, insideTag (lead ++ Segment.markupOf before)⟩
  | [], _, _, _, _ => by simp [markSegments]
  | .markup text offset :: rest, index, position, lead, k => by
    -- The flag that is carried on is that of all the markup so far.
    have ih := getElem?_markSegments tag e rest index (position + 1) (lead ++ text) k
    rw [insideTag_append] at ih
    rw [exists_eq_append_block_cons]
    simpa [markSegments, Nat.add_assoc, Nat.add_comm 1] using ih
  | .block b :: rest, index, position, lead, k => by
    rw [exists_eq_append_block_cons]
    cases k with
    | zero => simpa [markSegments] using eq_comm
    | succ k =>
      have ih := getElem?_markSegments tag e rest (index + 1) (position + 1) lead k
      simpa [markSegments, Nat.add_assoc, Nat.add_comm 1] using ih

/-- Other code in the blocks leaves every flag as it is. -/
theorem inTag_markSegments_mapBlock (f : Block → Block) (tag tag' : Text) :
    ∀ (segs : List Segment) (index position index' position' : Nat) (inTag : Bool),
      (markSegments tag' index' position' inTag (segs.map (Segment.mapBlock f))).2.map Placeholder.inTag =
        (markSegments tag index position inTag segs).2.map Placeholder.inTag
  | [], _, _, _, _, _ => rfl
  | .markup _ _ :: rest, _, _, _, _, _ => inTag_markSegments_mapBlock f tag tag' rest _ _ _ _ _
  | .block _ :: rest, _, _, _, _, inTag =>
    congrArg (inTag :: ·) (inTag_markSegments_mapBlock f tag tag' rest _ _ _ _ _)

/-- The placeholders are those of the blocks in their order. Each has the number of blocks before its
    own, the place of its block among the segments, and the flag that the markup before the block
    gives, taken as one text. Other code in the blocks, and other names of the markers, leave all
    flags as they are. -/
theorem inTag_markerBuffer (segs : List Segment) (tag : Text) :
    (∀ (k : Nat) (e : Placeholder), (markerBuffer segs tag).2[k]? = some e ↔
      ∃ before b after, segs = before ++ .block b :: after ∧
        (before.filterMap Segment.block?).length = k ∧
          e = ⟨k, before.length, b, insideTag (Segment.markupOf before)⟩) ∧
      ∀ (f : Block → Block) (tag' : Text),
        (markerBuffer (segs.map (Segment.mapBlock f)) tag').2.map Placeholder.inTag =
          (markerBuffer segs tag).2.map Placeholder.inTag := by
  refine ⟨fun k e => ?_, fun f tag' => inTag_markSegments_mapBlock f tag tag' segs 0 0 0 0 false⟩
  have h := getElem?_markSegments tag e segs 0 0 [] k
  simp only [Nat.zero_add, List.nil_append] at h
  exact h

end JspLayout
