import JspLayout.Proofs.Landings
import JspLayout.Proofs.Matches

/-! Blocks on lines of their own.

    A block outside of start tags is not put on a line after the end of another block. What is put back
    later comes after it: text that ends with a block is never changed again, so the line feed between
    two blocks stays. Main statement: whatever the layout of the markup does, each block stands in the
    woven page between the markup and the blocks that surround it in the page, and before it on its line
    there is no text that ends with a block. -/

namespace JspLayout

open Text

/-- Text from the opening to the closing delimiter of blocks. The two can share a character. -/
def Framed (r : Text) : Prop := blockOpen <+: r ∧ blockClose <:+ r

instance : DecidablePred Framed := fun r => inferInstanceAs (Decidable (blockOpen <+: r ∧ blockClose <:+ r))

/-- The block of a spot stands in `out` between the markup and the blocks before it and those after it.
    Outside of start tags, the text before it on its line does not end with a block. -/
def Spot.StandsApart (g : Block → Text) (lead : Text) (earlier : List Spot) (s : Spot) (later : List Spot)
    (out : Text) : Prop :=
  ∃ before text after, out = before ++ (text ++ after) ∧
    before.solid = (assembled g lead earlier).solid ∧
      (Relaid (s.contribution g) text ∧ Framed text) ∧
        after.solid = (assembled g s.after later).solid ∧
          (s.inTag = false → ¬blockClose <:+ (before.lines.getLastD []).trimRight)

/-! ### Framed texts -/

/-- A framed text is solid at both ends, also where one delimiter takes up a character of the other. -/
theorem Framed.exists_eq {r : Text} (h : Framed r) :
    (∃ x, r = blockOpen ++ (x ++ ['>'])) ∧ ∃ x, r = ['<'] ++ (x ++ blockClose) := by
  obtain ⟨⟨t, rfl⟩, hclose⟩ := h
  rcases suffix_append_cases hclose with ⟨w, rfl⟩ | ⟨u, hu, hopen, heq⟩
  · exact ⟨⟨w ++ ['%'], by simp [blockClose]⟩, '%' :: w, by simp [blockOpen]⟩
  · obtain ⟨c, u, rfl⟩ := List.exists_cons_of_ne_nil hu
    obtain ⟨rfl, htail⟩ := List.cons.inj heq
    rcases List.append_eq_singleton_iff.mp htail.symm with ⟨rfl, rfl⟩ | ⟨rfl, rfl⟩
    · exact ⟨⟨[], rfl⟩, [], rfl⟩
    · exact absurd hopen (by decide)

theorem Framed.relaid {r t : Text} (h : Framed r) (ht : Relaid r t) : Framed t := by
  obtain ⟨⟨x, hx⟩, y, hy⟩ := h.exists_eq
  obtain ⟨x', rfl⟩ := ht.between (by decide) (by decide) (by decide) (by decide) hx
  obtain ⟨y', hy'⟩ := ht.between (by decide) (by decide) (by decide) (by decide) hy
  refine ⟨List.prefix_append _ _, ?_⟩
  rw [hy', ← List.append_assoc]
  exact List.suffix_append _ _

theorem Framed.ended {t : Text} (h : Framed t) (d : Text) : Ended (d ++ t) := by
  obtain ⟨u, rfl⟩ := h.2
  exact Or.inr ⟨d ++ u, (List.append_assoc ..).symm⟩

theorem Framed.trim_eq {r : Text} (h : Framed r) : r.trim = r := by
  obtain ⟨-, x, rfl⟩ := h.exists_eq
  rw [trim_append_right (by decide) (by decide), trimRight_append_solid (by decide) (by decide)]

theorem IsBlock.framed {rest raw : Text} (h : IsBlock rest raw) : Framed raw := by
  obtain ⟨t, ht⟩ := h.opens
  obtain ⟨u, hu⟩ := h.closes
  exact ⟨⟨t, ht.symm⟩, ⟨u, hu.symm⟩⟩

/-! ### The line before a block -/

theorem lastLine_eq (s : Text) : lastLine s = s.lines.getLastD [] := by
  have hline : '\n' ∉ lastLine s := not_mem_lastLine s
  have hsplit : (splitLastLine s).1 ++ lastLine s = s := splitLastLine_append s
  rcases splitLastLine_head s with hnil | ⟨u, hu⟩
  · rw [hnil, List.nil_append] at hsplit
    rw [hsplit] at hline ⊢
    rw [lines_of_no_feed hline]
    rfl
  · have hjoined : unlines (u.lines ++ [lastLine s]) = s := by
      rw [unlines_concat (lines_ne_nil u), unlines_lines, ← List.singleton_append, ← List.append_assoc,
        ← hu, hsplit]
    have hfeed : ∀ l ∈ u.lines ++ [lastLine s], '\n' ∉ l := by
      simpa [or_imp, forall_and, hline] using lines_no_feed u
    have hlines := lines_unlines (by simp) hfeed
    rw [hjoined] at hlines
    rw [hlines, List.getLastD_concat]

/-- A text that is ready for a block does not end with another one on the block's line. -/
theorem not_ends_approach (before : Text) : ¬blockClose <:+ (lastLine (approach before)).trimRight := by
  rcases approach_cases before with ⟨head, hhead, heq⟩ | ⟨heq, hends, -⟩
  · rw [heq, lastLine, splitLastLine_append_feed head (no_feed_indent _) hhead,
      trimRight_blank (blank_indent _)]
    decide
  · rw [heq, ← ends_iff_isSuffix, hends]
    exact Bool.false_ne_true

/-! ### Putting blocks back -/

theorem Spot.solid_ready (s : Spot) (before : Text) : (s.ready before).solid = before.solid := by
  obtain ⟨kept, first, hbefore, hready, hfirst⟩ := s.exists_ready before
  have hfirst : Blank first := fun c hc => isBlank_of_isLayout (hfirst c hc)
  conv_rhs => rw [hbefore, solid_append, (s.blank_lost before).solid_eq, ← hfirst.solid_eq]
  rw [hready, solid_append]

section

variable {pad : Text} (hpad : Blank pad) (g : Block → Text)

include hpad

theorem Spot.solid_place (s : Spot) (before : Text) :
    (s.place pad g before).solid = before.solid ++ (s.contribution g).solid := by
  rw [s.place_eq, solid_append, s.solid_ready, solid_of_marks (s.relaid_text hpad g before).1.marks]

theorem solid_placed : ∀ (ss : List Spot) (before : Text),
    (placed pad g before ss).solid = (assembled g before ss).solid
  | [], before => by simp [placed, assembled]
  | s :: ss, before => by
    rw [placed, solid_placed ss]
    simp only [assembled, solid_append, List.flatMap_cons, s.solid_place hpad, List.append_assoc]

variable {g}

/-- Text that ends with a block stays as it is when the blocks after it are put back. -/
theorem isPrefix_placed : ∀ {ss : List Spot}, (∀ s ∈ ss, Framed (s.contribution g)) →
    ∀ {d : Text}, Ended d → ∀ gap : Text, d <+: placed pad g (d ++ gap) ss
  | [], _, d, _, gap => List.prefix_append d gap
  | s :: ss, hframed, d, hd, gap => by
    obtain ⟨hs, hss⟩ := List.forall_mem_cons.mp hframed
    obtain ⟨kept, first, -, hready, -⟩ := s.exists_ready_append hd gap
    have htext : Framed (s.text pad g (d ++ gap)) := hs.relaid (s.relaid_text hpad g _).1
    have hrest := isPrefix_placed hss (htext.ended (s.ready (d ++ gap))) s.after
    rw [placed, s.place_eq]
    refine List.IsPrefix.trans ?_ hrest
    rw [hready, List.append_assoc]
    exact List.prefix_append d _

/-- Every block that is put back stands apart, from the first one on. -/
theorem standsApart_placed {s : Spot} {later : List Spot} : ∀ {earlier : List Spot},
    (∀ e ∈ earlier ++ s :: later, Framed (e.contribution g)) → ∀ before : Text,
      s.StandsApart g before earlier later (placed pad g before (earlier ++ s :: later))
  | [], hframed, before => by
    obtain ⟨hs, hlater⟩ := List.forall_mem_cons.mp hframed
    obtain ⟨hrelaid, -⟩ := s.relaid_text hpad g before
    have htext : Framed (s.text pad g before) := hs.relaid hrelaid
    obtain ⟨after, hafter⟩ := isPrefix_placed hpad hlater (htext.ended (s.ready before)) s.after
    have hout : placed pad g before (s :: later) = s.ready before ++ (s.text pad g before ++ after) := by
      rw [placed, s.place_eq, ← hafter, List.append_assoc]
    refine ⟨s.ready before, s.text pad g before, after, hout, ?_, ⟨hrelaid, htext⟩, ?_, fun htag => ?_⟩
    · simp [s.solid_ready, assembled]
    · have hsolid := solid_placed hpad g (s :: later) before
      rw [hout] at hsolid
      simp only [assembled, solid_append, s.solid_ready, solid_of_marks hrelaid.marks,
        List.flatMap_cons, List.append_assoc] at hsolid ⊢
      exact List.append_cancel_left (List.append_cancel_left hsolid)
    · rw [← lastLine_eq, Spot.ready, htag]
      exact not_ends_approach before
  | e :: earlier, hframed, before => by
    obtain ⟨-, hrest⟩ := List.forall_mem_cons.mp hframed
    obtain ⟨before', text, after, hout, hbefore, hstands⟩ :=
      standsApart_placed hrest (e.place pad g before ++ e.after)
    refine ⟨before', text, after, hout, ?_, hstands⟩
    rw [hbefore]
    simp only [assembled, solid_append, List.flatMap_cons, e.solid_place hpad, List.append_assoc]

end

/-! ### The name of the markers -/

theorem condensed_cons (g : Block → Text) (lead : Text) (s : Spot) (ss : List Spot) :
    condensed g lead (s :: ss) =
      lead.solid ++ ((s.contribution g).trim ++ condensed g s.after ss) := by
  simp [condensed]

/-- The delimiters keep what blocks contribute apart from the markup, so that a name that occurs in none
    of them does not occur in all of them together. -/
theorem not_isInfix_condensed {tag : Text} (hname : Marker.IsName tag) {g : Block → Text} :
    ∀ {ss : List Spot} {lead : Text}, ¬tag <:+: lead.solid →
      (∀ s ∈ ss, Framed (s.contribution g) ∧ ¬tag <:+: s.contribution g ∧ ¬tag <:+: s.after.solid) →
        ¬tag <:+: condensed g lead ss
  | [], lead, hlead, _ => by simpa [condensed] using hlead
  | s :: ss, lead, hlead, hss => by
    obtain ⟨⟨hframed, hcontribution, hafter⟩, hss⟩ := List.forall_mem_cons.mp hss
    have hrest : ¬tag <:+: condensed g s.after ss := not_isInfix_condensed hname hafter hss
    have hopen : '<' ∉ tag := hname.not_mem (by decide) (by decide)
    have hclose : '>' ∉ tag := hname.not_mem (by decide) (by decide)
    obtain ⟨⟨x, hx⟩, -⟩ := hframed.exists_eq
    rw [condensed_cons, hframed.trim_eq]
    rw [hx] at hcontribution ⊢
    intro h
    have hparts : tag <:+: lead.solid ++ '<' :: ('%' :: x ++ '>' :: condensed g s.after ss) := by
      simpa [blockOpen] using h
    rcases infix_append_cons hopen hparts with h | h
    · exact hlead h
    rcases infix_append_cons hclose h with h | h
    · exact hcontribution (h.trans ⟨['<'], ['>'], by simp [blockOpen]⟩)
    · exact hrest h

theorem Spot.contribution_of {p : Text → Prop} {g : Block → Text} {s : Spot} (hraw : p s.block.raw)
    (hg : p (g s.block)) : p (s.contribution g) := by
  unfold contribution
  split
  · exact hraw
  · exact hg

theorem Parts.framed_raw {gap : Text} {ss : List Spot} (h : Parts gap ss) :
    ∀ s ∈ ss, Framed s.block.raw := by
  induction h with
  | last _ => exact fun s hs => absurd hs List.not_mem_nil
  | block _ _ hblock _ ih => exact List.forall_mem_cons.mpr ⟨hblock.framed, ih⟩

theorem pageOf_spots (page : Text) :
    pageOf (spots [] (segments page)).1 (spots [] (segments page)).2 = page :=
  (parts_spots 0 page []).1

section

variable {page : Text} {g : Block → Text}
  (hg : ∀ b ∈ (segments page).filterMap Segment.block?, Framed (g b) ∧ ¬freeMarkerName page <:+: g b)

include hg

/-- The source of a block is as good a contribution as its formatted text. -/
theorem framed_contribution : ∀ s ∈ (spots [] (segments page)).2,
    Framed (s.contribution g) ∧ ¬freeMarkerName page <:+: s.contribution g := by
  intro s hs
  refine Spot.contribution_of (p := fun t => Framed t ∧ ¬freeMarkerName page <:+: t) ?_ (hg s.block ?_)
  · have hraw : s.block.raw <:+: pageOf (spots [] (segments page)).1 (spots [] (segments page)).2 :=
      (List.prefix_append _ _).isInfix.trans (infix_pageOf_of_mem hs _)
    rw [pageOf_spots] at hraw
    exact ⟨(parts_spots 0 page []).2.framed_raw s hs, fun h => Marker.not_isInfix_free page (h.trans hraw)⟩
  · rw [← map_block_spots (segments page) []]
    exact List.mem_map_of_mem hs

theorem not_isInfix_condensed_spots (hpage : ¬freeMarkerName page <:+: page.solid) :
    ¬freeMarkerName page <:+:
      condensed g (spots [] (segments page)).1 (spots [] (segments page)).2 := by
  obtain ⟨hlead, hafter⟩ := infix_pageOf (spots [] (segments page)).1 (spots [] (segments page)).2
  rw [pageOf_spots] at hlead hafter
  have hsolid {t : Text} (ht : t <:+: page) : ¬freeMarkerName page <:+: t.solid :=
    fun h => hpage (h.trans (ht.filter _))
  refine not_isInfix_condensed (Marker.isName_free page) (hsolid hlead) fun s hs => ?_
  obtain ⟨hframed, hfree⟩ := framed_contribution hg s hs
  exact ⟨hframed, hfree, hsolid (hafter s hs)⟩

end

/-! ### Woven pages -/

theorem Spot.Respaced.contribution_eq {s s' : Spot} (h : s.Respaced s') (g : Block → Text) :
    s'.contribution g = s.contribution g := by
  rw [contribution, contribution, h.1, h.2.1]

theorem framed_respaced {g : Block → Text} {ss ss' : List Spot}
    (h : List.Forall₂ Spot.Respaced ss ss') (hss : ∀ s ∈ ss, Framed (s.contribution g)) :
    ∀ s ∈ ss', Framed (s.contribution g) := by
  induction h with
  | nil => exact hss
  | cons hs _ ih =>
    obtain ⟨hfirst, hrest⟩ := List.forall_mem_cons.mp hss
    exact List.forall_mem_cons.mpr ⟨hs.contribution_eq g ▸ hfirst, ih hrest⟩

theorem solid_assembled_respaced (g : Block → Text) {lead lead' : Text} {ss ss' : List Spot}
    (hlead : lead'.solid = lead.solid) (h : List.Forall₂ Spot.Respaced ss ss') :
    (assembled g lead' ss').solid = (assembled g lead ss).solid := by
  rw [← solid_condensed, ← solid_condensed, condensed_respaced g hlead h]

theorem exists_respaced_split {s : Spot} {later : List Spot} : ∀ {earlier ss' : List Spot},
    List.Forall₂ Spot.Respaced (earlier ++ s :: later) ss' → ∃ earlier' s' later',
      ss' = earlier' ++ s' :: later' ∧ List.Forall₂ Spot.Respaced earlier earlier' ∧ s.Respaced s' ∧
        List.Forall₂ Spot.Respaced later later'
  | [], _, .cons hs hlater => ⟨[], _, _, rfl, .nil, hs, hlater⟩
  | _ :: _, _, .cons he hrest => by
    obtain ⟨earlier', s', later', rfl, hearlier, hs, hlater⟩ := exists_respaced_split hrest
    exact ⟨_ :: earlier', s', later', rfl, .cons he hearlier, hs, hlater⟩

/-- Where a block stands apart in a page that is spaced anew, it does so in the page. -/
theorem Spot.StandsApart.of_respaced {g : Block → Text} {lead lead' out : Text}
    {earlier earlier' later later' : List Spot} {s s' : Spot} (hlead : lead'.solid = lead.solid)
    (hearlier : List.Forall₂ Spot.Respaced earlier earlier') (hs : s.Respaced s')
    (hlater : List.Forall₂ Spot.Respaced later later') (h : s'.StandsApart g lead' earlier' later' out) :
    s.StandsApart g lead earlier later out := by
  obtain ⟨before, text, after, hout, hbefore, htext, hafter, hapart⟩ := h
  rw [hs.contribution_eq] at htext
  rw [hs.2.1] at hapart
  exact ⟨before, text, after, hout, hbefore.trans (solid_assembled_respaced g hlead hearlier), htext,
    hafter.trans (solid_assembled_respaced g hs.2.2 hlater), hapart⟩

/-- Blocks never share a line with the end of a block before them: whatever the layout of the markup
    does, every block stands apart in the woven page, as long as formatted blocks have the delimiters of
    blocks and neither they nor the page without its blanks hold the markers' name. -/
theorem weave_standsApart (page : Text) (markup : Text → Except MarkupError Text) (g : Block → Text)
    (n : Int) (hpage : ¬freeMarkerName page <:+: page.solid)
    (hg : ∀ b ∈ (segments page).filterMap Segment.block?,
      Framed (g b) ∧ ¬freeMarkerName page <:+: g b) :
    ∃ (out : Text) (notes : List Note),
      (∀ {m : Type → Type} [Monad m] [LawfulMonad m] (visit : Block → m Unit) (note : Note → m Unit),
        weave markup (fun b => visit b *> pure (g b)) note (spaces n) (segments page) =
          notes.forM note *> ((segments page).filterMap Segment.block?).forM visit *> pure out) ∧
      ∀ earlier s later, (spots [] (segments page)).2 = earlier ++ s :: later →
        s.StandsApart g (spots [] (segments page)).1 earlier later out := by
  obtain ⟨-, hstands⟩ := markerBuffer_eq (freeMarkerName page) (segments page)
  have hfree := not_isInfix_condensed_spots hg hpage
  have hframed : ∀ s ∈ (spots [] (segments page)).2, Framed (s.contribution g) := fun s hs =>
    (framed_contribution hg s hs).1
  obtain ⟨lead, ss, r, notes, hlead, hrespaced, hlaid, hweave⟩ :=
    exists_laid_weave page markup (spaces n) hfree
  obtain ⟨-, hplace⟩ :=
    placeBlocks_laid (Marker.isName_free page) n g hstands hfree hlead hrespaced hlaid
  refine ⟨placed (spaces n) g lead ss, notes, fun visit note => ?_, fun earlier s later hspots => ?_⟩
  · rw [hweave, hplace, map_block_spots]
    simp only [seqRight_eq_bind, bind_assoc]
  · have hframed' := framed_respaced hrespaced hframed
    rw [hspots] at hrespaced
    obtain ⟨earlier', s', later', rfl, hearlier, hs, hlater⟩ := exists_respaced_split hrespaced
    exact (standsApart_placed (blank_spaces n) hframed' lead).of_respaced hlead hearlier hs hlater

/-- Blocks one after another, one of them in an attribute, where the layout deletes the line feeds
    between them. -/
theorem weave_standsApart_cell :
    let page : Text := "<td title=\"<%=t%>\">\n<% a();\n  b(); %>\n<%-- c --%> <%= d %></td>".toList
    let markup : Text → Except MarkupError Text := fun text => .ok (text.filter (· != '\n'))
    (¬freeMarkerName page <:+: page.solid ∧ ∀ b ∈ (segments page).filterMap Segment.block?,
        Framed b.raw ∧ ¬freeMarkerName page <:+: b.raw) ∧
      (spots [] (segments page)).2.map Spot.inTag = [true, false, false, false] ∧
      ∃ (out : Text) (notes : List Note),
        (∀ {m : Type → Type} [Monad m] [LawfulMonad m] (visit : Block → m Unit) (note : Note → m Unit),
          weave markup (fun b => visit b *> pure b.raw) note (spaces 4) (segments page) =
            notes.forM note *> ((segments page).filterMap Segment.block?).forM visit *> pure out) ∧
        ∀ earlier s later, (spots [] (segments page)).2 = earlier ++ s :: later →
          s.StandsApart Block.raw (spots [] (segments page)).1 earlier later out := by
  intro page markup
  have hpage : ¬freeMarkerName page <:+: page.solid := by decide +kernel
  have hraw : ∀ b ∈ (segments page).filterMap Segment.block?,
      Framed b.raw ∧ ¬freeMarkerName page <:+: b.raw := by decide +kernel
  exact ⟨⟨hpage, hraw⟩, by decide +kernel, weave_standsApart page markup Block.raw 4 hpage hraw⟩

end JspLayout
