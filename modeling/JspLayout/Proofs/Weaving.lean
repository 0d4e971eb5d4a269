import JspLayout.Proofs.Pages
import JspLayout.Proofs.Splicing
import JspLayout.Proofs.Spots
import JspLayout.Marker.Weave

/-! Weaving puts every block back in its place.

    Blocks are put back from left to right, so at each turn the text before the marker is final. The
    marker is found at its place because that text does not hold the markers' name. Main statement:
    whatever the layout of the markup does, each block is formatted once, in order, and blanks apart
    the result is the markup with what each block contributes. -/

namespace JspLayout

open Text

/-- What a block contributes to the page: its formatted text, or its source where that would break
    the line of a start tag. -/
def Spot.contribution (g : Block → Text) (s : Spot) : Text :=
  if s.inTag = true ∧ '\n' ∈ (g s.block).trim then s.block.raw else g s.block

/-- The text before a spot with the block put after it. -/
def Spot.place (pad : Text) (g : Block → Text) (s : Spot) (before : Text) : Text :=
  if s.inTag then spliceInTag before [] s.block.raw (g s.block)
  else spliceBlock before [] (g s.block) pad

/-- The text before the spots with all blocks put back. -/
def placed (pad : Text) (g : Block → Text) (before : Text) : List Spot → Text
  | [] => before
  | s :: ss => placed pad g (s.place pad g before ++ s.after) ss

/-- Where a marker is looked for, the markers' name does not occur before it. -/
def Free (tag pad : Text) (g : Block → Text) (before : Text) : List Spot → Prop
  | [] => True
  | s :: ss => ¬tag <:+: before ∧ Free tag pad g (s.place pad g before ++ s.after) ss

/-! ### Putting blocks back -/

theorem spliceBlock_append (before rest r pad : Text) :
    spliceBlock before rest r pad = spliceBlock before [] r pad ++ rest := by
  unfold spliceBlock
  dsimp only
  split
  · simp
  split <;> simp

theorem spliceInTag_append (before rest raw r : Text) :
    spliceInTag before rest raw r = spliceInTag before [] raw r ++ rest := by
  simp [spliceInTag]

section

variable {m : Type → Type} [Monad m] [LawfulMonad m]

theorem placeBlock_eq {tag : Text} (hname : Marker.IsName tag) (visit : Block → m Unit)
    (note : Note → m Unit) (pad : Text) (g : Block → Text) {before t r : Text} {e : Placeholder}
    (ht : Marker.Spells tag e.index e.inTag t) (hbefore : ¬tag <:+: before) :
    placeBlock (fun b => visit b *> pure (g b)) note tag pad (before ++ (t ++ r)) e =
      visit e.block *> pure (Spot.place pad g ⟨e.block, e.inTag, []⟩ before ++ r) := by
  rw [placeBlock, Marker.find?_append hname ht hbefore]
  simp only [seqRight_eq_bind, bind_assoc, pure_bind, Spot.place]
  cases e.inTag with
  | true => simp only [if_true]; rw [spliceInTag_append]
  | false => simp only [Bool.false_eq_true, if_false]; rw [spliceBlock_append]

/-- Every block is formatted once, in order, and put in the place of its marker. -/
theorem placeBlocks_eq {tag : Text} (hname : Marker.IsName tag) (visit : Block → m Unit)
    (note : Note → m Unit) (pad : Text) (g : Block → Text) {index : Nat} {ss : List Spot}
    {es : List Placeholder} (hstands : Stands index ss es) :
    ∀ {before r : Text}, Laid tag index ss r → Free tag pad g before ss →
      placeBlocks (fun b => visit b *> pure (g b)) note tag pad (before ++ r) es =
        (ss.map Spot.block).forM visit *> pure (placed pad g before ss) := by
  induction hstands with
  | nil index =>
    intro before r hlaid _
    cases hlaid
    simp [placeBlocks, placed]
  | @cons index position s ss es _ ih =>
    rintro before r (_ | ⟨ht, hlaid⟩) ⟨hbefore, hfree⟩
    have ih := ih hlaid hfree
    rw [List.append_assoc] at ih
    rw [placeBlocks, placeBlock_eq hname visit note pad g ht hbefore, placed, List.map_cons, List.forM]
    simp only [seqRight_eq_bind, bind_assoc, pure_bind] at ih ⊢
    exact congrArg _ (funext fun _ => ih)

end

/-! ### What is woven -/

/-- The text before a spot, ready for the block: inside a start tag it is left as it is. -/
def Spot.ready (s : Spot) (before : Text) : Text := if s.inTag then before else approach before

/-- The blanks before a spot that give way to the block. -/
def Spot.lost (s : Spot) (before : Text) : Text := if s.inTag then [] else dropped before

/-- What a block is written as at a spot. -/
def Spot.text (pad : Text) (g : Block → Text) (s : Spot) (before : Text) : Text :=
  if s.inTag then (if '\n' ∈ (g s.block).trim then s.block.raw else (g s.block).trim)
  else indentBlock (g s.block) (lastLine before).indent pad []

theorem Spot.place_eq (pad : Text) (g : Block → Text) (s : Spot) (before : Text) :
    s.place pad g before = s.ready before ++ s.text pad g before := by
  unfold place ready text
  cases s.inTag with
  | true => simp [spliceInTag]
  | false => simp [spliceBlock_eq]

/-- What a block is written as is a layout of what it contributes. -/
theorem Spot.relaid_text {pad : Text} (hpad : Blank pad) (g : Block → Text) (s : Spot)
    (before : Text) : Relaid (s.contribution g) (s.text pad g before) ∧
      (s.contribution g = g s.block ∨ s.text pad g before = s.block.raw) := by
  unfold contribution text
  cases s.inTag with
  | true =>
    by_cases hfeed : '\n' ∈ (g s.block).trim
    · simp [hfeed, Relaid.refl]
    · simp [hfeed, relaid_trim]
  | false => simp [relaid_indentBlock (blank_indent _) hpad]

theorem Spot.blank_lost (s : Spot) (before : Text) : Blank (s.lost before) := by
  unfold lost
  split
  · exact blank_nil
  · exact blank_dropped before

/-- Only blanks that give way are lost, and only layout takes their place. -/
theorem Spot.exists_ready (s : Spot) (before : Text) : ∃ kept first, before = kept ++ s.lost before ∧
    s.ready before = kept ++ first ∧ ∀ c ∈ first, isLayout c = true := by
  unfold ready lost
  cases s.inTag with
  | true => exact ⟨before, [], by simp, by simp, by simp⟩
  | false => exact exists_approach before

/-- A block is put after the text before it, which can lose blanks at its end, and after blanks. What
    is put there is a layout of what the block contributes. -/
theorem Spot.exists_place {pad : Text} (hpad : Blank pad) (g : Block → Text) (s : Spot)
    (before : Text) : ∃ kept lost first t, before = kept ++ lost ∧ Blank lost ∧ Blank first ∧
      s.place pad g before = kept ++ (first ++ t) ∧ Relaid (s.contribution g) t ∧
        (s.contribution g = g s.block ∨ t = s.block.raw) := by
  obtain ⟨kept, first, hbefore, hready, hfirst⟩ := s.exists_ready before
  refine ⟨kept, s.lost before, first, s.text pad g before, hbefore, s.blank_lost before,
    fun c hc => isBlank_of_isLayout (hfirst c hc), ?_, s.relaid_text hpad g before⟩
  rw [s.place_eq, hready, List.append_assoc]

/-- The markup of a page with what each block contributes. -/
def assembled (g : Block → Text) (lead : Text) (ss : List Spot) : Text :=
  lead ++ ss.flatMap fun s => s.contribution g ++ s.after

/-- The same drawn together: markup without its blanks, and contributions without those around
    them. -/
def condensed (g : Block → Text) (lead : Text) (ss : List Spot) : Text :=
  lead.solid ++ ss.flatMap fun s => (s.contribution g).trim ++ s.after.solid

theorem solid_condensed (g : Block → Text) (lead : Text) (ss : List Spot) :
    (condensed g lead ss).solid = (assembled g lead ss).solid := by
  rw [condensed, assembled, solid_append, solid_append, solid_solid]
  refine congrArg _ ?_
  induction ss with
  | nil => rfl
  | cons s ss ih =>
    simp only [List.flatMap_cons, solid_append, ih, solid_trim, solid_solid]

/-- As long as the name does not occur in the page drawn together, the markers are found, and what is
    woven has the characters of the page with nothing brought closer. -/
theorem free_placed {tag pad : Text} (htag : Solid tag) (hpad : Blank pad) (g : Block → Text) :
    ∀ {ss : List Spot} {before tight : Text}, Tight tight → Looser (marks tight) (marks before) →
      ¬tag <:+: tight ++ ss.flatMap (fun s => (s.contribution g).trim ++ s.after.solid) →
        Free tag pad g before ss ∧
          Looser (marks (tight ++ ss.flatMap fun s => (s.contribution g).trim ++ s.after.solid))
            (marks (placed pad g before ss))
  | [], before, tight, _, hlooser, _ => ⟨trivial, by simpa [placed] using hlooser⟩
  | s :: ss, before, tight, htight, hlooser, hfree => by
    obtain ⟨kept, lost, first, t, hbefore, hlost, hfirst, hplace, ht, -⟩ := s.exists_place hpad g before
    rw [List.flatMap_cons, ← List.append_assoc] at hfree ⊢
    have hkept : Looser (marks tight) (marks kept) := by
      rwa [hbefore, marks_append_blank hlost] at hlooser
    have hblock : Looser (marks (s.contribution g).trim) (marks (first ++ t)) :=
      .of_eq (by rw [marks_trim, marks_blank_append hfirst, ht.marks])
    have hnext : Looser (marks (tight ++ ((s.contribution g).trim ++ s.after.solid)))
        (marks (s.place pad g before ++ s.after)) := by
      rw [hplace, List.append_assoc]
      exact hkept.append_tight htight ((tight_trim _).append (solid_solid_tight _))
        (hblock.append_tight (tight_trim _) (solid_solid_tight _) (looser_solid _))
    have htight' : Tight (tight ++ ((s.contribution g).trim ++ s.after.solid)) :=
      htight.append ((tight_trim _).append (solid_solid_tight _))
    obtain ⟨hrest, hlooser'⟩ := free_placed htag hpad g htight' hnext hfree
    refine ⟨⟨fun h => hfree ?_, hrest⟩, hlooser'⟩
    have hin : tag <:+: tight := hlooser.isInfix_of_isInfix htag h
    exact (hin.trans (List.prefix_append _ _).isInfix).trans (List.prefix_append _ _).isInfix

/-! ### Layouts of the markup -/

/-- A layout that is not given up is what the formatter gives, holds all markers and differs from the
    buffer in blanks only. -/
theorem eq_ok_of_layMarkup {markup : Text → Except MarkupError Text} {tag buffer text : Text}
    {es : List Placeholder} (h : layMarkup markup tag buffer es = .ok text) :
    markup buffer = .ok text ∧ missingMarkers text tag es = [] ∧ text.solid = buffer.solid := by
  unfold layMarkup at h
  cases hm : markup buffer with
  | error e => rw [hm] at h; exact absurd h (by simp [bind, Except.bind])
  | ok formatted =>
    rw [hm] at h
    by_cases hmissing : missingMarkers formatted tag es = []
    · by_cases hsolid : buffer.solid = formatted.solid
      · have : formatted = text := by
          simpa [bind, Except.bind, hmissing, hsolid, pure, Except.pure] using h
        exact this ▸ ⟨rfl, hmissing, hsolid.symm⟩
      · simp [bind, Except.bind, hmissing, hsolid, throw, throwThe, MonadExceptOf.throw] at h
    · simp [bind, Except.bind, hmissing, throw, throwThe, MonadExceptOf.throw] at h

theorem found_of_missingMarkers {tag text : Text} {index : Nat} {ss : List Spot}
    {es : List Placeholder} (hstands : Stands index ss es) (h : missingMarkers text tag es = []) :
    Found tag text index ss := by
  rw [missingMarkers, List.map_eq_nil_iff, List.filter_eq_nil_iff] at h
  induction hstands with
  | nil => trivial
  | cons _ ih =>
    obtain ⟨he, hes⟩ := List.forall_mem_cons.mp h
    exact ⟨Marker.exists_of_find? (by simpa [Option.isSome_iff_ne_none] using he), ih hes⟩

theorem Stands.respaced {index : Nat} {ss ss' : List Spot} {es : List Placeholder}
    (hstands : Stands index ss es) (h : List.Forall₂ Spot.Respaced ss ss') : Stands index ss' es := by
  induction h generalizing index es with
  | nil => exact hstands
  | cons hs _ ih =>
    cases hstands with
    | cons hstands =>
      rw [← hs.1, ← hs.2.1]
      exact .cons (ih hstands)

theorem condensed_respaced (g : Block → Text) {lead lead' : Text} {ss ss' : List Spot}
    (hlead : lead'.solid = lead.solid) (h : List.Forall₂ Spot.Respaced ss ss') :
    condensed g lead' ss' = condensed g lead ss := by
  rw [condensed, condensed, hlead]
  refine congrArg _ ?_
  induction h with
  | nil => rfl
  | cons hs _ ih =>
    obtain ⟨hblock, hin, hafter⟩ := hs
    rw [List.flatMap_cons, List.flatMap_cons, ih, hafter, Spot.contribution, Spot.contribution, hblock,
      hin]

theorem map_block_respaced {ss ss' : List Spot} (h : List.Forall₂ Spot.Respaced ss ss') :
    ss'.map Spot.block = ss.map Spot.block := by
  induction h with
  | nil => rfl
  | cons hs _ ih => rw [List.map_cons, List.map_cons, ih, hs.1]

theorem map_block_spots : ∀ (segs : List Segment) (before : Text),
    (spots before segs).2.map Spot.block = segs.filterMap Segment.block?
  | [], _ => rfl
  | .markup text _ :: rest, before => map_block_spots rest (before ++ text)
  | .block b :: rest, before => congrArg (b :: ·) (map_block_spots rest before)

/-- Each markup of a page is part of the page drawn together. -/
theorem infix_condensed (g : Block → Text) (lead : Text) (ss : List Spot) :
    lead.solid <:+: condensed g lead ss ∧ ∀ s ∈ ss, s.after.solid <:+: condensed g lead ss := by
  refine ⟨(List.prefix_append _ _).isInfix, fun s hs => ?_⟩
  obtain ⟨before, after, rfl⟩ := List.append_of_mem hs
  rw [condensed, List.flatMap_append, List.flatMap_cons, ← List.append_assoc, List.append_assoc _ _
    (after.flatMap _), ← List.append_assoc]
  exact List.infix_append' _ _ _

/-- Putting the blocks back in a laid out text. -/
theorem placeBlocks_laid {tag lead lead' r : Text} (hname : Marker.IsName tag) (n : Int)
    (g : Block → Text) {ss ss' : List Spot} {es : List Placeholder} (hstands : Stands 0 ss es)
    (hfree : ¬tag <:+: condensed g lead ss) (hlead : lead'.solid = lead.solid)
    (hrespaced : List.Forall₂ Spot.Respaced ss ss') (hlaid : Laid tag 0 ss' r) :
    (placed (spaces n) g lead' ss').solid = (assembled g lead ss).solid ∧
      ∀ {m : Type → Type} [Monad m] [LawfulMonad m] (visit : Block → m Unit) (note : Note → m Unit),
        placeBlocks (fun b => visit b *> pure (g b)) note tag (spaces n) (lead' ++ r) es =
          (ss.map Spot.block).forM visit *> pure (placed (spaces n) g lead' ss') := by
  rw [← condensed_respaced g hlead hrespaced, condensed] at hfree
  obtain ⟨hfree, hlooser⟩ := free_placed hname.solid (blank_spaces n) g (solid_solid_tight lead')
    (looser_solid lead') hfree
  constructor
  · rw [← solid_condensed, ← condensed_respaced g hlead hrespaced]
    exact hlooser.solid_eq
  · intro m _ _ visit note
    rw [← map_block_respaced hrespaced]
    exact placeBlocks_eq hname visit note (spaces n) g (hstands.respaced hrespaced) hlaid hfree

/-- The blocks are put back into the marker buffer, or into a layout of it that is not given up. -/
theorem exists_weave (page : Text) (markup : Text → Except MarkupError Text) (pad : Text) :
    ∃ (text : Text) (notes : List Note),
      (text = (markerBuffer (segments page) (freeMarkerName page)).1 ∨
        layMarkup markup (freeMarkerName page) (markerBuffer (segments page) (freeMarkerName page)).1
          (markerBuffer (segments page) (freeMarkerName page)).2 = .ok text) ∧
      ∀ {m : Type → Type} [Monad m] [LawfulMonad m] (block : Block → m Text) (note : Note → m Unit),
        weave markup block note pad (segments page) =
          notes.forM note *> placeBlocks block note (freeMarkerName page) pad text
            (markerBuffer (segments page) (freeMarkerName page)).2 := by
  simp only [weave, reconstruct_segments]
  cases hlay : layMarkup markup (freeMarkerName page)
      (markerBuffer (segments page) (freeMarkerName page)).1
      (markerBuffer (segments page) (freeMarkerName page)).2 with
  | ok text => exact ⟨text, [], Or.inr rfl, fun _ _ => by simp⟩
  | error e =>
    refine ⟨_, [⟨.warning, "Markup formatting failed, keeping markup layout: " ++ e.message⟩], Or.inl rfl,
      fun block note => ?_⟩
    simp only [List.forM, seqRight_eq_bind, bind_assoc, pure_bind]

/-- The blocks are put back into the page with its markup spaced anew. -/
theorem exists_laid_weave (page : Text) (markup : Text → Except MarkupError Text) {g : Block → Text}
    (pad : Text) (hfree : ¬freeMarkerName page <:+:
      condensed g (spots [] (segments page)).1 (spots [] (segments page)).2) :
    ∃ (lead : Text) (ss : List Spot) (r : Text) (notes : List Note),
      lead.solid = (spots [] (segments page)).1.solid ∧
        List.Forall₂ Spot.Respaced (spots [] (segments page)).2 ss ∧
          Laid (freeMarkerName page) 0 ss r ∧
            ∀ {m : Type → Type} [Monad m] [LawfulMonad m] (block : Block → m Text)
              (note : Note → m Unit), weave markup block note pad (segments page) =
                notes.forM note *> placeBlocks block note (freeMarkerName page) pad (lead ++ r)
                  (markerBuffer (segments page) (freeMarkerName page)).2 := by
  obtain ⟨hbuffer, hstands⟩ := markerBuffer_eq (freeMarkerName page) (segments page)
  have hpart := infix_condensed g (spots [] (segments page)).1 (spots [] (segments page)).2
  obtain ⟨text, notes, htext, hweave⟩ := exists_weave page markup pad
  rcases htext with rfl | hlay
  · refine ⟨_, _, _, notes, rfl, List.forall₂_same.mpr fun _ _ => ⟨rfl, rfl, rfl⟩, laid_marked _ 0 _,
      fun block note => ?_⟩
    rw [hweave, hbuffer]
  · obtain ⟨-, hmissing, hsolid⟩ := eq_ok_of_layMarkup hlay
    rw [hbuffer, solid_append] at hsolid
    obtain ⟨lead, ss, r, rfl, hlead, hrespaced, hlaid⟩ :=
      exists_laid (Marker.isName_free page) (fun h => hfree (h.trans hpart.1))
        (fun s hs h => hfree (h.trans (hpart.2 s hs))) hsolid
        (found_of_missingMarkers hstands hmissing)
    exact ⟨lead, ss, r, notes, hlead, hrespaced, hlaid, hweave⟩

/-- Whatever the layout of the markup does, every block is formatted once and in order, and blanks
    apart the woven page is the markup with what each block contributes; as long as the markers' name
    does not occur in the page drawn together. -/
theorem weave_eq (page : Text) (markup : Text → Except MarkupError Text) (g : Block → Text) (n : Int)
    (hfree : ¬freeMarkerName page <:+:
      condensed g (spots [] (segments page)).1 (spots [] (segments page)).2) :
    ∃ (out : Text) (notes : List Note),
      out.solid = (assembled g (spots [] (segments page)).1 (spots [] (segments page)).2).solid ∧
        ∀ {m : Type → Type} [Monad m] [LawfulMonad m] (visit : Block → m Unit) (note : Note → m Unit),
          weave markup (fun b => visit b *> pure (g b)) note (spaces n) (segments page) =
            notes.forM note *> ((segments page).filterMap Segment.block?).forM visit *> pure out := by
  obtain ⟨-, hstands⟩ := markerBuffer_eq (freeMarkerName page) (segments page)
  obtain ⟨lead, ss, r, notes, hlead, hrespaced, hlaid, hweave⟩ :=
    exists_laid_weave page markup (spaces n) hfree
  obtain ⟨hout, hplace⟩ :=
    placeBlocks_laid (Marker.isName_free page) n g hstands hfree hlead hrespaced hlaid
  refine ⟨_, notes, hout, fun visit note => ?_⟩
  rw [hweave, hplace, map_block_spots]
  simp only [seqRight_eq_bind, bind_assoc]

/-- A block in running markup and one in an attribute, laid out with a line feed after every tag. -/
theorem weave_eq_link :
    let page : Text := "<p class=\"<%= c %>\"> <% if (x) \x7b %> </p>".toList
    let markup : Text → Except MarkupError Text := fun text =>
      .ok (text.flatMap fun c => if c = '>' then ['>', '\n'] else [c])
    ¬freeMarkerName page <:+:
        condensed Block.raw (spots [] (segments page)).1 (spots [] (segments page)).2 ∧
      ∃ (out : Text) (notes : List Note),
        out.solid =
            (assembled Block.raw (spots [] (segments page)).1 (spots [] (segments page)).2).solid ∧
          ∀ {m : Type → Type} [Monad m] [LawfulMonad m] (visit : Block → m Unit) (note : Note → m Unit),
            weave markup (fun b => visit b *> pure b.raw) note (spaces 4) (segments page) =
              notes.forM note *> ((segments page).filterMap Segment.block?).forM visit *> pure out := by
  intro page markup
  have hfree : ¬freeMarkerName page <:+:
      condensed Block.raw (spots [] (segments page)).1 (spots [] (segments page)).2 := by
    decide +kernel
  exact ⟨hfree, weave_eq page markup Block.raw 4 hfree⟩

/-- It is not enough that the name occurs neither in the markup nor in a formatted block: a block and
    the markup after it can make it up together. Here the two are taken for the marker of the second
    block, which is put there, before the first one. -/
theorem weave_name_across_blocks :
    let page : Text := "<% a %>fmt data-i=\"1\"/><% b %>".toList
    let g : Block → Text := fun b =>
      if b.raw = "<% a %>".toList then "<jsp".toList else "<% b %>".toList
    (¬freeMarkerName page <:+: page.solid ∧ ∀ b, ¬freeMarkerName page <:+: g b) ∧
      (Id.run (weave .ok (fun b => pure (g b)) (fun _ => pure ()) (spaces 4) (segments page))).solid ≠
        (assembled g (spots [] (segments page)).1 (spots [] (segments page)).2).solid := by
  intro page g
  refine ⟨⟨by decide +kernel, fun b => ?_⟩, by decide +kernel⟩
  by_cases hb : b.raw = "<% a %>".toList
  · simp only [g, if_pos hb]
    decide +kernel
  · simp only [g, if_neg hb]
    decide +kernel

end JspLayout
