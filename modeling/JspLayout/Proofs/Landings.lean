import JspLayout.Proofs.Formatting

/-! Where the blocks of a page land.

    A block is put back after the text before it. Where that text ends in blanks at the start of a
    line or after the closing delimiter of another block, these blanks give way to the indentation of
    the line, in the second case on a new line. Main statement: of the markup of a page formatted
    without a code formatter nothing but spaces, tabs and line feeds can differ, exactly when the
    blanks that give way hold nothing else. -/

namespace JspLayout

open Text

/-! ### The last line before a block -/

theorem not_mem_lastLine (s : Text) : '\n' ∉ lastLine s := by
  intro h
  rw [lastLine, splitLastLine, List.mem_reverse] at h
  exact absurd (List.mem_takeWhile_imp h) (by simp)

/-- A text up to a line feed does not reach into the last line. -/
theorem splitLastLine_append_feed (head : Text) {line : Text} (hline : '\n' ∉ line)
    (hhead : head = [] ∨ ∃ u, head = u ++ ['\n']) : splitLastLine (head ++ line) = (head, line) := by
  have hall : ∀ c ∈ line.reverse, (c != '\n') = true := by
    intro c hc
    have : c ≠ '\n' := fun h => hline (h ▸ List.mem_reverse.mp hc)
    simpa using this
  rw [splitLastLine, List.reverse_append, List.dropWhile_append_of_pos hall,
    List.takeWhile_append_of_pos hall]
  rcases hhead with rfl | ⟨u, rfl⟩ <;> simp

theorem splitLastLine_head (s : Text) :
    (splitLastLine s).1 = [] ∨ ∃ u, (splitLastLine s).1 = u ++ ['\n'] := by
  rw [splitLastLine]
  cases h : s.reverse.dropWhile (· != '\n') with
  | nil => exact Or.inl rfl
  | cons c t =>
    have hc : ¬(c != '\n') = true := by
      have := List.head_dropWhile_not (· != '\n') (l := s.reverse) (by simp [h])
      simpa [h] using this
    obtain rfl : c = '\n' := by simpa using hc
    exact Or.inr ⟨t.reverse, by simp⟩

theorem indent_indent (s : Text) : s.indent.indent = s.indent :=
  List.takeWhile_eq_self_iff.mpr fun _ hc => List.mem_takeWhile_imp hc

theorem no_feed_indent (s : Text) : '\n' ∉ s.indent := fun h =>
  absurd (List.mem_takeWhile_imp h) (by decide)

/-- A block starts a line, after nothing but indentation, or what stands before it on its line stays and
    neither is blank nor ends with another block. -/
theorem approach_cases (before : Text) :
    (∃ head, (head = [] ∨ ∃ u, head = u ++ ['\n']) ∧
        approach before = head ++ (lastLine before).indent) ∨
      (approach before = before ∧ ends blockClose (lastLine before).trimRight = false ∧
        (lastLine before).blank = false) := by
  have hhead := splitLastLine_head before
  unfold approach lastLine
  generalize splitLastLine before = p at hhead
  obtain ⟨head, line⟩ := p
  dsimp only at hhead ⊢
  by_cases hclose : ends blockClose line.trimRight = true
  · exact Or.inl ⟨head ++ line.trimRight ++ ['\n'], Or.inr ⟨_, rfl⟩, by simp [hclose]⟩
  by_cases hblank : line.blank = true
  · exact Or.inl ⟨head, hhead, by simp [hclose, hblank]⟩
  · exact Or.inr ⟨by simp [hclose, hblank], by simpa using hclose, by simpa using hblank⟩

/-- A text that is ready for a block is left as it is, and the block is placed in it as before. -/
theorem approach_approach (before : Text) : approach (approach before) = approach before ∧
    (lastLine (approach before)).indent = (lastLine before).indent := by
  rcases approach_cases before with ⟨head, hhead, heq⟩ | ⟨heq, -, -⟩
  · rw [heq]
    generalize lastLine before = line
    have hlast := splitLastLine_append_feed head (no_feed_indent line) hhead
    have hnil : trimRight line.indent = [] := trimRight_blank (blank_indent line)
    have hends : ends blockClose [] = false := by decide
    have hblank : line.indent.blank = true := (blank_iff _).mpr (blank_indent line)
    rw [approach, lastLine, hlast]
    simp [hnil, hends, hblank, indent_indent]
  · exact ⟨by rw [heq, heq], by rw [heq]⟩

/-! ### After another block -/

/-- A text that is empty or ends with a block. -/
def Ended (d : Text) : Prop := d = [] ∨ ∃ u, d = u ++ blockClose

theorem Ended.closed {d : Text} (h : Ended d) : Closed d := by
  rcases h with rfl | ⟨u, rfl⟩
  · exact Or.inl rfl
  · exact Or.inr ⟨u ++ ['%'], by simp [blockClose]⟩

theorem ends_iff_isSuffix {p s : Text} : ends p s = true ↔ p <:+ s := by
  rw [ends, before?, Option.isSome_map, after?_isSome_iff, List.reverse_prefix]

theorem lastLine_append_of_mem {t : Text} (ht : '\n' ∈ t) (s : Text) :
    lastLine (s ++ t) = lastLine t := by
  have hhead : ∃ u, (splitLastLine t).1 = u ++ ['\n'] := by
    refine (splitLastLine_head t).resolve_left fun hnil => not_mem_lastLine t ?_
    have hsplit := splitLastLine_append t
    rw [hnil, List.nil_append] at hsplit
    rwa [lastLine, hsplit]
  obtain ⟨u, hu⟩ := hhead
  have hsplit : s ++ t = (s ++ u ++ ['\n']) ++ lastLine t := by
    rw [List.append_assoc s, ← hu, List.append_assoc, lastLine, splitLastLine_append]
  rw [hsplit, lastLine, splitLastLine_append_feed _ (not_mem_lastLine t) (Or.inr ⟨_, rfl⟩)]

theorem lastLine_append_of_not_mem {t : Text} (ht : '\n' ∉ t) (s : Text) :
    lastLine (s ++ t) = lastLine s ++ t := by
  have hline : '\n' ∉ lastLine s ++ t := by simp [not_mem_lastLine s, ht]
  have hsplit : s ++ t = (splitLastLine s).1 ++ (lastLine s ++ t) := by
    rw [← List.append_assoc, lastLine, splitLastLine_append]
  conv_lhs => rw [hsplit, lastLine, splitLastLine_append_feed _ hline (splitLastLine_head s)]

theorem blankEnd_append {t : Text} (ht : ¬Blank t) (s : Text) : blankEnd (s ++ t) = t.blankEnd := by
  have hend := trimRight_append_blankEnd (s ++ t)
  conv_rhs at hend => rw [← trimRight_append_blankEnd t, ← List.append_assoc]
  rw [trimRight_append ht] at hend
  exact List.append_cancel_left hend

/-- A closing delimiter is not made up of the end of another one and what follows it. -/
theorem ends_blockClose_append (u : Text) {t : Text} (ht : t ≠ []) :
    ends blockClose ((u ++ blockClose) ++ t) = ends blockClose t := by
  rw [Bool.eq_iff_iff, ends_iff_isSuffix, ends_iff_isSuffix]
  refine ⟨fun h => ?_, fun h => h.trans (List.suffix_append _ _)⟩
  rcases suffix_append_cases h with h | ⟨v, hv, hvu, hclose⟩
  · exact h
  · obtain ⟨c, rest, rfl⟩ := List.exists_cons_of_ne_nil ht
    obtain ⟨e, v, rfl⟩ := List.exists_cons_of_ne_nil hv
    obtain rfl : v = [] := by
      have hlen := congrArg List.length hclose
      simp [blockClose] at hlen
      exact List.eq_nil_of_length_eq_zero (by omega)
    obtain rfl : e = '%' := (List.cons.inj hclose).1.symm
    obtain ⟨w, hw⟩ := hvu
    have hlast := congrArg List.getLast? hw
    simp [blockClose] at hlast

/-- What gives way before a block can be told from the markup between it and the block before. -/
theorem dropped_append {d : Text} (hd : Ended d) (gap : Text) : dropped (d ++ gap) = dropped gap := by
  rcases hd with rfl | ⟨u, rfl⟩
  · rfl
  by_cases hfeed : '\n' ∈ gap
  · unfold dropped
    rw [lastLine_append_of_mem hfeed]
  have hgap : lastLine gap = gap := lastLine_append_of_not_mem hfeed []
  have hline : lastLine (u ++ blockClose ++ gap) = (lastLine u ++ blockClose) ++ gap := by
    rw [lastLine_append_of_not_mem hfeed, lastLine_append_of_not_mem (by decide)]
  have hsolid : ((lastLine u ++ blockClose) ++ gap).blank = false := by
    rw [Bool.eq_false_iff]
    exact fun h => absurd ((blank_iff _).mp h '>' (by simp [blockClose])) (by decide)
  unfold dropped
  rw [hline, hgap]
  dsimp only
  rw [hsolid, Bool.false_or]
  by_cases hblank : Blank gap
  · have htrim : trimRight ((lastLine u ++ blockClose) ++ gap) = lastLine u ++ blockClose := by
      rw [trimRight_append_blank hblank, trimRight_append_solid (by decide) (by decide)]
    have hends : ends blockClose (lastLine u ++ blockClose) = true :=
      ends_iff_isSuffix.mpr (List.suffix_append _ _)
    have hend := trimRight_append_blankEnd ((lastLine u ++ blockClose) ++ gap)
    rw [htrim] at hend
    rw [htrim, if_pos hends, List.append_cancel_left hend, (blank_iff gap).mpr hblank, Bool.true_or,
      if_pos rfl, blankEnd_blank hblank]
  · have hnot : gap.blank = false := by
      rw [Bool.eq_false_iff]
      exact fun h => hblank ((blank_iff gap).mp h)
    rw [trimRight_append hblank, ends_blockClose_append _ (trimRight_ne_nil hblank),
      blankEnd_append hblank, hnot, Bool.false_or]

/-! ### Blocks at their spots -/

/-- Only blanks of the markup between a block and the block before it give way. -/
theorem Spot.exists_ready_append {d : Text} (hd : Ended d) (s : Spot) (gap : Text) : ∃ kept first,
    gap = kept ++ s.lost gap ∧ s.ready (d ++ gap) = d ++ (kept ++ first) ∧
      ∀ c ∈ first, isLayout c = true := by
  have hlost : s.lost (d ++ gap) = s.lost gap := by rw [lost, lost, dropped_append hd]
  obtain ⟨kept, first, hbefore, hready, hfirst⟩ := s.exists_ready (d ++ gap)
  rw [hlost] at hbefore
  obtain ⟨kept, rfl, hgap⟩ := hd.closed.exists_kept (s.blank_lost gap) hbefore
  exact ⟨kept, first, hgap, by rw [hready, List.append_assoc], hfirst⟩

theorem Spot.ready_ready (s : Spot) (before : Text) : s.ready (s.ready before) = s.ready before := by
  unfold ready
  cases s.inTag with
  | true => rfl
  | false => simp [(approach_approach before).1]

/-- Whether a spot is inside a start tag is told by the markup before it. -/
def Tagged (before gap : Text) : List Spot → Prop
  | [] => True
  | s :: ss => s.inTag = insideTag (before ++ gap) ∧ Tagged (before ++ gap) s.after ss

theorem tagged_spots : ∀ (segs : List Segment) (before : Text),
    Tagged before (spots before segs).1 (spots before segs).2
  | [], _ => trivial
  | .markup text _ :: rest, before => by
    have ih := tagged_spots rest (before ++ text)
    have hmove : ∀ {lead : Text} {ss : List Spot}, Tagged (before ++ text) lead ss →
        Tagged before (text ++ lead) ss := by
      intro lead ss h
      cases ss with
      | nil => trivial
      | cons s ss => simpa [Tagged] using h
    exact hmove ih
  | .block b :: rest, before => by
    have ih := tagged_spots rest before
    exact ⟨by simp [spots], by simpa [spots] using ih⟩

/-- Blanks do not tell whether a text ends inside a tag. -/
theorem insideTag_of_solid_eq {s t : Text} (h : s.solid = t.solid) : insideTag s = insideTag t := by
  have hsolid : ∀ u : Text, insideTag u = insideTag u.solid := by
    intro u
    rw [insideTag, insideTag, solid, List.filter_filter]
    congr 2
    refine List.filter_congr fun c _ => ?_
    by_cases hc : isBlank c = true
    · have h1 : (c == '<') = false := beq_false_of_ne (by rintro rfl; exact absurd hc (by decide))
      have h2 : (c == '>') = false := beq_false_of_ne (by rintro rfl; exact absurd hc (by decide))
      simp [h1, h2]
    · simp [hc]
  rw [hsolid s, hsolid t, h]

/-! ### A page and its formatted page -/

/-- The spots of a page and those of the formatted page: the markup before each block is made ready
    for it, and the block is what is written there. `d` is the formatted text so far. -/
inductive Landed (pad : Text) (g : Block → Text) :
    Text → Text → List Spot → Text → List Spot → Prop
  | last (d gap : Text) : Landed pad g d gap [] gap []
  | block {d gap gap' after' : Text} {s : Spot} {ss ss' : List Spot} (offset : Int) : Ended d →
      s.ready (d ++ gap) = d ++ gap' →
      Landed pad g (d ++ (gap' ++ s.text pad g (d ++ gap))) s.after ss after' ss' →
      Landed pad g d gap (s :: ss) gap'
        (⟨Block.classify (s.text pad g (d ++ gap)) offset, s.inTag, after'⟩ :: ss')

/-- Formatted without a code formatter, the blocks of a page land where they stand in what is put
    together. -/
theorem exists_landed {style : BlockStyle} (hunit : Blank style.unit) {pad : Text} (hpad : Blank pad)
    {gap : Text} {ss : List Spot} (hparts : Parts gap ss) :
    ∀ {d before : Text}, Ended d → Tagged before gap ss →
      ∃ out, placed pad (blockText style) (d ++ gap) ss = d ++ out ∧ Rewoven gap ss out ∧
        ∀ (before' : Text) (offset : Int), before'.solid = before.solid →
          Landed pad (blockText style) d gap ss (spots before' (segmentsFrom offset out)).1
            (spots before' (segmentsFrom offset out)).2 := by
  induction hparts with
  | @last gap hnone =>
    intro d before _ _
    refine ⟨gap, rfl, .last gap, fun before' offset _ => ?_⟩
    rw [spots_segmentsFrom_none hnone]
    exact .last d gap
  | @block gap s ss offset hopen hclass hblock hparts ih =>
    rintro d before hd ⟨htag, htagged⟩
    obtain ⟨kept, first, hgap, hready, hlayout⟩ := s.exists_ready_append hd gap
    have hlost := s.blank_lost gap
    have hfirst : Blank first := fun c hc => isBlank_of_isLayout (hlayout c hc)
    generalize s.lost gap = lost at hgap hlost
    subst hgap
    obtain ⟨hrelaid, hkind⟩ := s.relaid_text hpad (blockText style) (d ++ (kept ++ lost))
    generalize ht : s.text pad (blockText style) (d ++ (kept ++ lost)) = t at hrelaid hkind
    have hredone : Redone (pageOf s.after ss) s.block.raw t := by
      rcases hkind with hformatted | rfl
      · rw [hformatted, hclass] at hrelaid
        exact redone_blockText hunit hblock hrelaid
      · exact hblock.redone
    have hended : Ended (d ++ (kept ++ first ++ t)) := by
      have hisBlock : IsBlock (pageOf s.after ss) t := hredone.isBlock id
      obtain ⟨u, rfl⟩ := hisBlock.closes
      exact Or.inr ⟨d ++ (kept ++ first ++ u), by simp⟩
    obtain ⟨out, hplaced, hrewoven, hlanded⟩ := ih hended htagged
    refine ⟨kept ++ (first ++ (t ++ out)), ?_, .block hlost hfirst hredone hrewoven, ?_⟩
    · rw [placed, s.place_eq, hready, ht, List.append_assoc d, hplaced]
      simp
    · intro before' offset' hbefore
      have hopen' : ¬blockOpen <:+: kept ++ first := fun h =>
        hopen ((infix_of_append_blank (by decide) (by decide) hfirst h).trans
          (List.prefix_append _ _).isInfix)
      have hnext := nextBlock?_append hopen' (hredone.isBlock hrewoven.isInfix_commentClose)
      rw [List.append_assoc] at hnext
      obtain ⟨start, next, hspots⟩ := spots_segmentsFrom_some hnext before' offset'
      have hsolid : solid (before' ++ (kept ++ first)) = solid (before ++ (kept ++ lost)) := by
        simp only [solid_append, hbefore, hfirst.solid_eq, hlost.solid_eq]
      rw [hspots, insideTag_of_solid_eq hsolid, ← htag, ← ht]
      refine .block start hd hready ?_
      rw [ht]
      exact hlanded _ next hsolid

/-! ### The markup of a formatted page -/

/-- A text without spaces, tabs and line feeds. -/
def Text.unlaid (s : Text) : Text := s.filter fun c => !isLayout c

/-- The blanks that give way before the blocks outside start tags are spaces and tabs. -/
def Spared (gap : Text) : List Spot → Prop
  | [] => True
  | s :: ss => (s.inTag = false → (dropped gap).all isLayout = true) ∧ Spared s.after ss

instance Spared.decidable : ∀ (gap : Text) (ss : List Spot), Decidable (Spared gap ss)
  | _, [] => .isTrue trivial
  | gap, s :: ss =>
    have := Spared.decidable s.after ss
    inferInstanceAs (Decidable ((s.inTag = false → (dropped gap).all isLayout = true) ∧ _))

theorem markupOf_eq_spots : ∀ (segs : List Segment) (before : Text),
    Segment.markupOf segs = (spots before segs).1 ++ (spots before segs).2.flatMap Spot.after
  | [], _ => rfl
  | .markup text _ :: rest, before => by
    have ih := markupOf_eq_spots rest (before ++ text)
    calc Segment.markupOf (.markup text _ :: rest) = text ++ Segment.markupOf rest := rfl
      _ = _ := by rw [ih, ← List.append_assoc]; rfl
  | .block b :: rest, before => markupOf_eq_spots rest before

theorem unlaid_append (s t : Text) : unlaid (s ++ t) = s.unlaid ++ t.unlaid := List.filter_append ..

theorem unlaid_eq_nil_iff {s : Text} : s.unlaid = [] ↔ s.all isLayout = true := by
  simp [unlaid, List.filter_eq_nil_iff]

/-- Nothing but layout is added, and nothing but layout is lost exactly when none of the blanks that
    give way is anything else. -/
theorem Landed.unlaid_eq_iff {pad d gap gap' : Text} {g : Block → Text} {ss ss' : List Spot}
    (h : Landed pad g d gap ss gap' ss') :
    (unlaid (gap' ++ ss'.flatMap Spot.after)).length ≤ (unlaid (gap ++ ss.flatMap Spot.after)).length ∧
      (unlaid (gap' ++ ss'.flatMap Spot.after) = unlaid (gap ++ ss.flatMap Spot.after) ↔
        Spared gap ss) := by
  induction h with
  | last d gap => exact ⟨le_rfl, by simp [Spared]⟩
  | @block d gap gap' after' s ss ss' offset hd hready _ ih =>
    obtain ⟨hle, hiff⟩ := ih
    obtain ⟨kept, first, hgap, hready', hfirst⟩ := s.exists_ready_append hd gap
    obtain rfl : gap' = kept ++ first := List.append_cancel_left (hready.symm.trans hready')
    have hspared : (s.inTag = false → (dropped gap).all isLayout = true) ↔ (s.lost gap).unlaid = [] := by
      rw [unlaid_eq_nil_iff, Spot.lost]
      cases s.inTag <;> simp
    generalize s.lost gap = lost at hgap hspared
    have hadded : first.unlaid = [] := unlaid_eq_nil_iff.mpr (List.all_eq_true.mpr hfirst)
    rw [Spared, hspared, ← hiff]
    simp only [List.flatMap_cons, unlaid_append, hadded] at hle ⊢
    rw [hgap, unlaid_append]
    generalize after'.unlaid ++ unlaid (ss'.flatMap Spot.after) = rest' at hle ⊢
    generalize s.after.unlaid ++ unlaid (ss.flatMap Spot.after) = rest at hle ⊢
    simp only [List.append_nil, List.append_assoc, List.append_cancel_left_eq, List.length_append]
    refine ⟨by omega, fun heq => ?_, ?_⟩
    · have hlen := congrArg List.length heq
      rw [List.length_append] at hlen
      have hnil : lost.unlaid = [] := List.eq_nil_of_length_eq_zero (by omega)
      exact ⟨hnil, by simpa [hnil] using heq⟩
    · rintro ⟨hnil, rfl⟩
      simp [hnil]

/-- The blocks of a page land where they stand in the formatted page. -/
theorem landed_placed (o : Options) (page : Text) :
    let out := placed o.pad (blockText o.blockStyle) (spots [] (segments page)).1
      (spots [] (segments page)).2
    Landed o.pad (blockText o.blockStyle) [] (spots [] (segments page)).1
      (spots [] (segments page)).2 (spots [] (segments out)).1 (spots [] (segments out)).2 := by
  have hunit : Blank o.blockStyle.unit := Java.blank_indentUnit o.indentWidth o.useTabs
  have hended : Ended [] := Or.inl rfl
  obtain ⟨out, hplaced, -, hlanded⟩ := exists_landed hunit (blank_spaces o.interiorIndent)
    (parts_spots 0 page []).2 hended (tagged_spots (segments page) [])
  have hlanded := hlanded [] 0 rfl
  rw [show out = placed o.pad (blockText o.blockStyle) (spots [] (segments page)).1
    (spots [] (segments page)).2 from hplaced.symm] at hlanded
  exact hlanded

/-- Where the markup is kept and no code formatter is asked, the markup of a page and that of the
    formatted page are the same but for spaces, tabs and line feeds, exactly when the blanks that give
    way to the layout of blocks hold nothing else. -/
theorem unlaid_formatPage_iff (lib : Library) (o : Options) (page : Text) (programs : Programs)
    (hmarkup : o.markup = .keep) (hmode : o.mode ≠ .auto) :
    ∃ out, formatPage lib o page programs = .ok out ∧
      ((Segment.markupOf (segments out.text)).unlaid = (Segment.markupOf (segments page)).unlaid ↔
        Spared (spots [] (segments page)).1 (spots [] (segments page)).2) := by
  obtain ⟨out, hout, htext⟩ := exists_formatPage lib hmarkup hmode page programs
  refine ⟨out, hout, ?_⟩
  rw [markupOf_eq_spots (segments out.text) [], markupOf_eq_spots (segments page) [], htext]
  exact (landed_placed o page).unlaid_eq_iff.2

/-- Blanks of several kinds in the markup, but only spaces, tabs and line feeds right before the blocks
    at the start of a line and after the end of a block. -/
theorem unlaid_formatPage_iff_table :
    let lib : Library := ⟨fun _ => .ok, fun _ _ _ => .error .malformed⟩
    let o : Options := ⟨2, false, 2, .off, .keep, true, "format -".toList, .int 10, 1000⟩
    let page : Text := ("<td\u00a0class=\"<%=c%>\">\n \t<% a(); %> \t<%= b %>\u3000</td>\n" ++
      "x\u00a0<%-- y\n  z --%>").toList
    let programs : Programs := { replies := [], fallback := fun _ => .notFound }
    (o.markup = .keep ∧ o.mode ≠ .auto) ∧
      ∃ out, formatPage lib o page programs = .ok out ∧
        (Segment.markupOf (segments out.text)).unlaid = (Segment.markupOf (segments page)).unlaid := by
  intro lib o page programs
  obtain ⟨out, hout, hiff⟩ := unlaid_formatPage_iff lib o page programs rfl (by decide)
  exact ⟨⟨rfl, by decide⟩, out, hout, hiff.mpr (by decide +kernel)⟩

/-- Blanks of other kinds do give way, at the start of a line as well as between two blocks. -/
theorem unlaid_formatPage_lost :
    let lib : Library := ⟨fun _ => .ok, fun _ _ _ => .error .malformed⟩
    let o : Options := ⟨2, false, 2, .off, .keep, true, "format -".toList, .int 10, 1000⟩
    let page : Text := "\u00a0<% a(); %>\u3000<% b(); %>".toList
    let programs : Programs := { replies := [], fallback := fun _ => .notFound }
    ∃ out, formatPage lib o page programs = .ok out ∧
      (Segment.markupOf (segments page)).unlaid = ['\u00a0', '\u3000'] ∧
      (Segment.markupOf (segments out.text)).unlaid = [] := by
  intro lib o page programs
  obtain ⟨out, hout, htext⟩ := exists_formatPage lib (o := o) rfl (by decide) page programs
  refine ⟨out, hout, by decide +kernel, ?_⟩
  rw [htext]
  decide +kernel

end JspLayout
