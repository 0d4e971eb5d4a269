import JspLayout.Proofs.Blocks
import JspLayout.Proofs.Weaving
import JspLayout.Format.Page

/-! Formatting a page keeps its blocks.

    Where the markup is kept and no code formatter is asked, a formatted page is the page with blanks
    moved before blocks and every block formatted and laid out in its place. Main statement: split
    into segments again, it has the same blocks, and around them the same markup, blanks apart. -/

namespace JspLayout

open Text

/-! ### The parts of a page -/

/-- The page that markup and the spots after it make up. -/
def pageOf (lead : Text) (ss : List Spot) : Text := lead ++ ss.flatMap fun s => s.block.raw ++ s.after

theorem pageOf_cons (lead : Text) (s : Spot) (ss : List Spot) :
    pageOf lead (s :: ss) = lead ++ (s.block.raw ++ pageOf s.after ss) := by
  simp [pageOf]

/-- The markup and the spots are what a page is split into. -/
inductive Parts : Text → List Spot → Prop
  | last {gap : Text} : nextBlock? gap = none → Parts gap []
  | block {gap : Text} {s : Spot} {ss : List Spot} {offset : Int} : ¬blockOpen <:+: gap →
      s.block = Block.classify s.block.raw offset → IsBlock (pageOf s.after ss) s.block.raw →
        Parts s.after ss → Parts gap (s :: ss)

theorem spots_ofMarkup_append (before text : Text) (offset : Int) (segs : List Segment) :
    spots before (Segment.ofMarkup text offset ++ segs) =
      (text ++ (spots (before ++ text) segs).1, (spots (before ++ text) segs).2) := by
  unfold Segment.ofMarkup
  split
  · next h => simp [h]
  · rfl

theorem spots_segmentsFrom_none {s : Text} (h : nextBlock? s = none) (before : Text) (offset : Int) :
    spots before (segmentsFrom offset s) = (s, []) := by
  rw [segmentsFrom]
  split
  · have := spots_ofMarkup_append before s offset []
    rwa [List.append_nil, spots, List.append_nil] at this
  · next h' => rw [h] at h'; exact absurd h' (by simp)

theorem spots_segmentsFrom_some {s lead raw tail : Text} (h : nextBlock? s = some (lead, raw, tail))
    (before : Text) (offset : Int) :
    ∃ start next, spots before (segmentsFrom offset s) =
      (lead, ⟨Block.classify raw start, insideTag (before ++ lead),
        (spots (before ++ lead) (segmentsFrom next tail)).1⟩ ::
          (spots (before ++ lead) (segmentsFrom next tail)).2) := by
  refine ⟨offset + lead.length, offset + lead.length + raw.length, ?_⟩
  rw [segmentsFrom]
  split
  · next h' => rw [h] at h'; exact absurd h' (by simp)
  · next h' =>
    simp only [h, Option.some.injEq, Prod.mk.injEq] at h'
    obtain ⟨rfl, rfl, rfl⟩ := h'
    rw [spots_ofMarkup_append]
    simp [spots]

/-- A page is made up of the parts it is split into. -/
theorem parts_spots (offset : Int) (s : Text) : ∀ before : Text,
    pageOf (spots before (segmentsFrom offset s)).1 (spots before (segmentsFrom offset s)).2 = s ∧
      Parts (spots before (segmentsFrom offset s)).1 (spots before (segmentsFrom offset s)).2 := by
  induction hn : s.length using Nat.strongRecOn generalizing s offset with
  | _ n ih =>
    intro before
    cases h : nextBlock? s with
    | none =>
      rw [spots_segmentsFrom_none h]
      exact ⟨by simp [pageOf], .last h⟩
    | some found =>
      obtain ⟨lead, raw, tail⟩ := found
      obtain ⟨start, next, hspots⟩ := spots_segmentsFrom_some h before offset
      obtain ⟨hpage, hparts⟩ :=
        ih tail.length (hn ▸ length_lt_of_nextBlock? h) next tail rfl (before ++ lead)
      obtain ⟨hblock, hlead⟩ := isBlock_of_nextBlock? h
      rw [hspots]
      constructor
      · rw [pageOf_cons, hpage, Block.raw_classify, ← (eq_append_of_nextBlock? h).1]
      · have hclass : Block.classify raw start =
            Block.classify (Block.classify raw start).raw start := by rw [Block.raw_classify]
        exact .block hlead hclass (by rwa [Block.raw_classify, hpage]) hparts

/-! ### Pages with their blocks formatted -/

/-- The last text is the page of the markup and the spots with blanks moved before blocks and every
    block written anew. -/
inductive Rewoven : Text → List Spot → Text → Prop
  | last (gap : Text) : Rewoven gap [] gap
  | block {kept lost first t out : Text} {s : Spot} {ss : List Spot} : Blank lost → Blank first →
      Redone (pageOf s.after ss) s.block.raw t → Rewoven s.after ss out →
        Rewoven (kept ++ lost) (s :: ss) (kept ++ (first ++ (t ++ out)))

theorem Redone.exists_ends {rest raw t : Text} (h : Redone rest raw t) :
    (∃ u, t = '<' :: u) ∧ ∃ u, t = u ++ ['>'] := by
  have hblock : IsBlock rest t := h.isBlock id
  obtain ⟨u, hu⟩ := hblock.opens
  obtain ⟨v, hv⟩ := hblock.closes
  exact ⟨⟨_, hu⟩, ⟨v ++ ['%'], by rw [hv, List.append_assoc]; rfl⟩⟩

/-- A page written anew closes no comment that was not closed before. -/
theorem Rewoven.isInfix_commentClose {gap out : Text} {ss : List Spot} (h : Rewoven gap ss out)
    (hclose : commentClose <:+: out) : commentClose <:+: pageOf gap ss := by
  induction h with
  | last gap => simpa [pageOf] using hclose
  | @block kept lost first t out s ss hlost hfirst hredone _ ih =>
    obtain ⟨⟨u, hu⟩, ⟨v, hv⟩⟩ := hredone.exists_ends
    rw [pageOf_cons]
    rw [hu, ← List.append_assoc, List.cons_append] at hclose
    rcases infix_append_cons (by decide) hclose with hclose | hclose
    · have hkept :=
        infix_of_append_blank sought_commentClose.solid sought_commentClose.ne_nil hfirst hclose
      exact hkept.trans ⟨[], lost ++ (s.block.raw ++ pageOf s.after ss), by simp⟩
    · have hclose : ['-', '-', '%'] ++ ['>'] <:+: v ++ '>' :: out := by
        have hsplit : v ++ '>' :: out = '<' :: (u ++ out) := by
          rw [← List.cons_append, ← hu, hv, List.append_assoc, List.singleton_append]
        exact hsplit ▸ List.infix_cons hclose
      rcases infix_append_last (by decide) hclose with hclose | hclose
      · have hraw := hredone.within sought_commentClose ⟨'-', by decide⟩ (hv ▸ hclose)
        exact hraw.trans ⟨kept ++ lost, pageOf s.after ss, by simp⟩
      · exact (ih hclose).trans ⟨kept ++ (lost ++ s.block.raw), [], by simp⟩

/-- The block is kept, and so is the markup after it, blanks apart. -/
def Spot.Kept (s s' : Spot) : Prop := s.block.Kept s'.block ∧ s'.after.solid = s.after.solid

/-- A page written anew has the blocks and the markup of the page. -/
theorem Rewoven.kept_spots {gap out : Text} {ss : List Spot} (h : Rewoven gap ss out)
    (hparts : Parts gap ss) : ∀ (before : Text) (offset : Int),
      (spots before (segmentsFrom offset out)).1.solid = gap.solid ∧
        List.Forall₂ Spot.Kept ss (spots before (segmentsFrom offset out)).2 := by
  induction h with
  | last gap =>
    intro before offset
    cases hparts with
    | last hnone =>
      rw [spots_segmentsFrom_none hnone]
      exact ⟨rfl, .nil⟩
  | @block kept lost first t out s ss hlost hfirst hredone hrest ih =>
    intro before offset
    cases hparts with
    | @block _ _ _ start hopen hclass hblock hparts =>
      have hopen' : ¬blockOpen <:+: kept ++ first := fun h =>
        hopen ((infix_of_append_blank (by decide) (by decide) hfirst h).trans
          (List.prefix_append _ _).isInfix)
      have hnext := nextBlock?_append hopen' (hredone.isBlock hrest.isInfix_commentClose)
      rw [List.append_assoc] at hnext
      obtain ⟨start', next, hspots⟩ := spots_segmentsFrom_some hnext before offset
      obtain ⟨hafter, hkept⟩ := ih hparts (before ++ (kept ++ first)) next
      rw [hspots]
      refine ⟨?_, .cons ⟨?_, hafter⟩ hkept⟩
      · rw [solid_append, solid_append, hlost.solid_eq, hfirst.solid_eq]
      · rw [hclass]
        exact hredone.kept start start'

/-! ### Weaving formatted blocks -/

/-- A text that is empty or ends where a block or a tag does. -/
def Closed (d : Text) : Prop := d = [] ∨ ∃ u, d = u ++ ['>']

/-- Blanks at the end of a text are taken from what follows a closed text. -/
theorem Closed.exists_kept {d gap kept lost : Text} (hd : Closed d) (hlost : Blank lost)
    (h : d ++ gap = kept ++ lost) : ∃ k, kept = d ++ k ∧ gap = k ++ lost := by
  rcases List.append_eq_append_iff.mp h with ⟨k, hk, hgap⟩ | ⟨c, hc, hgap⟩
  · exact ⟨k, hk, hgap⟩
  · rcases List.eq_nil_or_concat' c with rfl | ⟨c, x, rfl⟩
    · exact ⟨[], by simpa using hc.symm, by simpa using hgap.symm⟩
    · rcases hd with rfl | ⟨u, rfl⟩
      · simp at hc
      · have hlast := congrArg List.getLast? hc
        rw [List.getLast?_concat, ← List.append_assoc, List.getLast?_concat, Option.some.injEq] at hlast
        have := hlost x (by simp [hgap])
        rw [← hlast] at this
        exact absurd this (by decide)

theorem Closed.not_isInfix_append {tag d s : Text} (hname : Marker.IsName tag) (hd : Closed d)
    (htag : ¬tag <:+: d) (hs : ¬tag <:+: s) : ¬tag <:+: d ++ s := by
  rcases hd with rfl | ⟨u, rfl⟩
  · exact hs
  · intro h
    rw [List.append_assoc, List.singleton_append] at h
    rcases infix_append_cons (hname.not_mem (by decide) (by decide)) h with h | h
    · exact htag (h.trans (List.prefix_append _ _).isInfix)
    · exact hs h

theorem sought_name {tag : Text} (hname : Marker.IsName tag) :
    Sought tag ∧ ∃ c ∈ tag, c ∉ blockSigns := by
  have hmem : ∀ {c : Char}, c.isAlphanum = false → c ≠ '-' → c ∉ tag := fun h h' => hname.not_mem h h'
  refine ⟨⟨hname.solid, hname.ne_nil, hmem (by decide) (by decide), hmem (by decide) (by decide),
    hmem (by decide) (by decide)⟩, 'j', List.mem_of_mem_head? hname.head, by decide⟩

/-- Put back in their places, the blocks of a page are found where their markers stand, and make up
    the page written anew. -/
theorem exists_rewoven {style : BlockStyle} (hunit : Blank style.unit) {pad : Text} (hpad : Blank pad)
    {tag : Text} (hname : Marker.IsName tag) {gap : Text} {ss : List Spot} (hparts : Parts gap ss) :
    ∀ {d : Text}, Closed d → ¬tag <:+: d → ¬tag <:+: pageOf gap ss →
      Free tag pad (blockText style) (d ++ gap) ss ∧
        ∃ out, placed pad (blockText style) (d ++ gap) ss = d ++ out ∧ Rewoven gap ss out := by
  induction hparts with
  | @last gap _ => exact fun _ _ _ => ⟨trivial, gap, rfl, .last gap⟩
  | @block gap s ss offset hopen hclass hblock hparts ih =>
    intro d hd htag hpage
    obtain ⟨kept', lost, first, t, hbefore, hlost, hfirst, hplace, hrelaid, hkind⟩ :=
      s.exists_place hpad (blockText style) (d ++ gap)
    obtain ⟨kept, rfl, rfl⟩ := hd.exists_kept hlost hbefore
    have hredone : Redone (pageOf s.after ss) s.block.raw t := by
      rcases hkind with hformatted | rfl
      · rw [hformatted, hclass] at hrelaid
        exact redone_blockText hunit hblock hrelaid
      · exact hblock.redone
    rw [pageOf_cons] at hpage
    have hgap : ¬tag <:+: kept ++ lost := fun h => hpage (h.trans (List.prefix_append _ _).isInfix)
    have hrest : ¬tag <:+: pageOf s.after ss := fun h =>
      hpage (h.trans ⟨kept ++ lost ++ s.block.raw, [], by simp⟩)
    have ht : ¬tag <:+: t := fun h =>
      hpage ((hredone.within (sought_name hname).1 (sought_name hname).2 h).trans
        (List.infix_append' _ _ _))
    -- the name does not reach into the block, which begins and ends with an angle bracket
    obtain ⟨⟨u, hu⟩, ⟨v, hv⟩⟩ := hredone.exists_ends
    have hclosed : Closed (d ++ (kept ++ (first ++ t))) :=
      Or.inr ⟨d ++ (kept ++ (first ++ v)), by simp [hv]⟩
    have htag' : ¬tag <:+: d ++ (kept ++ (first ++ t)) := by
      intro h
      rw [hu, ← List.append_assoc kept, ← List.append_assoc d] at h
      rcases infix_append_cons (hname.not_mem (by decide) (by decide)) h with h | h
      · refine hd.not_isInfix_append hname htag (fun h => hgap ?_) h
        exact (infix_of_append_blank hname.solid hname.ne_nil hfirst h).trans
          (List.prefix_append _ _).isInfix
      · exact ht (hu ▸ List.infix_cons h)
    obtain ⟨hfree, out, hplaced, hrewoven⟩ := ih hclosed htag' hrest
    rw [← List.append_assoc d] at hbefore hfree hplaced
    refine ⟨⟨hd.not_isInfix_append hname htag hgap, by rwa [hplace]⟩,
      kept ++ (first ++ (t ++ out)), ?_, .block hlost hfirst hredone hrewoven⟩
    rw [placed, hplace, hplaced]
    simp

/-- Where the markup is kept, the blocks are put back into the marker buffer. -/
theorem exists_weave_keep (page pad : Text) : ∃ notes : List Note,
    ∀ {m : Type → Type} [Monad m] [LawfulMonad m] (block : Block → m Text) (note : Note → m Unit),
      weave .ok block note pad (segments page) =
        notes.forM note *> placeBlocks block note (freeMarkerName page) pad
          ((spots [] (segments page)).1 ++ marked (freeMarkerName page) 0 (spots [] (segments page)).2)
          (markerBuffer (segments page) (freeMarkerName page)).2 := by
  obtain ⟨text, notes, htext, hweave⟩ := exists_weave page .ok pad
  obtain rfl : text = (markerBuffer (segments page) (freeMarkerName page)).1 :=
    htext.elim id fun hlay => (Except.ok.inj (eq_ok_of_layMarkup hlay).1).symm
  refine ⟨notes, fun block note => ?_⟩
  rw [hweave, (markerBuffer_eq (freeMarkerName page) (segments page)).1]

/-- Where the markup is kept, the blocks are put back at their own spots. -/
theorem exists_weave_ok {page pad : Text} {g : Block → Text}
    (hfree : Free (freeMarkerName page) pad g (spots [] (segments page)).1
      (spots [] (segments page)).2) :
    ∃ notes : List Note, ∀ {m : Type → Type} [Monad m] [LawfulMonad m] (visit : Block → m Unit)
      (note : Note → m Unit), weave .ok (fun b => visit b *> pure (g b)) note pad (segments page) =
        notes.forM note *> ((spots [] (segments page)).2.map Spot.block).forM visit *>
          pure (placed pad g (spots [] (segments page)).1 (spots [] (segments page)).2) := by
  obtain ⟨-, hstands⟩ := markerBuffer_eq (freeMarkerName page) (segments page)
  obtain ⟨notes, hweave⟩ := exists_weave_keep page pad
  refine ⟨notes, fun visit note => ?_⟩
  rw [hweave,
    placeBlocks_eq (Marker.isName_free page) visit note pad g hstands (laid_marked _ 0 _) hfree]
  simp only [seqRight_eq_bind, bind_assoc]

/-! ### Formatting a page -/

/-- A run over a list succeeds when every step does. -/
theorem exists_run_forM {α ε τ : Type} {f : α → StateT τ (Except ε) Unit}
    (h : ∀ a p, ∃ p', (f a).run p = .ok ((), p')) : ∀ (l : List α) (p : τ),
      ∃ p', (l.forM f).run p = .ok ((), p')
  | [], p => ⟨p, rfl⟩
  | a :: l, p => by
    obtain ⟨p₁, h₁⟩ := h a p
    obtain ⟨p₂, h₂⟩ := exists_run_forM h l p₁
    refine ⟨p₂, ?_⟩
    rw [List.forM, StateT.run_bind, h₁]
    exact h₂

/-- Formatting a block for its effect on the pass. -/
def visitBlock {σ : Type} (style : BlockStyle) (b : Block) : StateT (Pass σ) (Except Fault) Unit :=
  fun p => (formatBlock style none b p).map fun r => ((), r.2)

theorem exists_run_visitBlock {σ : Type} (style : BlockStyle) (b : Block) (p : Pass σ) :
    ∃ p', (visitBlock style b).run p = .ok ((), p') ∧
      formatBlock style none b p = .ok (blockText style b, p') := by
  obtain ⟨p', h⟩ := formatBlock_none style b p
  exact ⟨p', by simp [visitBlock, StateT.run, h, Except.map], h⟩

theorem formatBlock_eq_visitBlock {σ : Type} (style : BlockStyle) (b : Block) :
    (formatBlock style none b : StateT (Pass σ) (Except Fault) Text) =
      visitBlock style b *> pure (blockText style b) := by
  refine StateT.ext fun p => ?_
  obtain ⟨p', hvisit, hformat⟩ := exists_run_visitBlock style b p
  rw [seqRight_eq_bind, StateT.run_bind, hvisit]
  exact hformat

/-- The blocks of a page are found where their markers stand, and put back they make up the page
    written anew. -/
theorem rewoven_placed (o : Options) (page : Text) :
    Free (freeMarkerName page) o.pad (blockText o.blockStyle) (spots [] (segments page)).1
        (spots [] (segments page)).2 ∧
      Rewoven (spots [] (segments page)).1 (spots [] (segments page)).2
        (placed o.pad (blockText o.blockStyle) (spots [] (segments page)).1
          (spots [] (segments page)).2) := by
  obtain ⟨hpage, hparts⟩ := parts_spots 0 page []
  have hunit : Blank o.blockStyle.unit := Java.blank_indentUnit o.indentWidth o.useTabs
  have hpad : Blank o.pad := blank_spaces o.interiorIndent
  have hname := Marker.isName_free page
  have hclosed : Closed [] := Or.inl rfl
  obtain ⟨hfree, out, hplaced, hrewoven⟩ := exists_rewoven hunit hpad hname hparts hclosed
    (fun h => hname.ne_nil (List.infix_nil.mp h)) (by rw [hpage]; exact Marker.not_isInfix_free page)
  have hplaced : placed o.pad (blockText o.blockStyle) (spots [] (segments page)).1
      (spots [] (segments page)).2 = out := hplaced
  rw [hplaced]
  exact ⟨hfree, hrewoven⟩

/-- Where the markup is kept and no code formatter is asked, the blocks of a page are put back at
    their own spots. -/
theorem exists_formatPass_placed (o : Options) {σ : Type} (page : Text) (p : Pass σ) :
    ∃ p', formatPass o .ok none page p =
      .ok (placed o.pad (blockText o.blockStyle) (spots [] (segments page)).1
        (spots [] (segments page)).2, p') := by
  obtain ⟨notes, hweave⟩ := exists_weave_ok (rewoven_placed o page).1
  let note (n : Note) : StateT (Pass σ) (Except Fault) Unit := modify fun p => p.note n
  have hblock : (fun b => (formatBlock o.blockStyle none b : StateT (Pass σ) (Except Fault) Text)) =
      fun b => visitBlock o.blockStyle b *> pure (blockText o.blockStyle b) :=
    funext fun b => formatBlock_eq_visitBlock o.blockStyle b
  obtain ⟨p₁, h₁⟩ := exists_run_forM (f := note) (fun n p => ⟨p.note n, rfl⟩) notes p
  obtain ⟨p₂, h₂⟩ := exists_run_forM (f := visitBlock o.blockStyle)
    (fun b p => (exists_run_visitBlock o.blockStyle b p).imp fun _ h => h.1)
    ((spots [] (segments page)).2.map Spot.block) p₁
  refine ⟨p₂, ?_⟩
  generalize placed o.pad (blockText o.blockStyle) (spots [] (segments page)).1
    (spots [] (segments page)).2 = out at hweave ⊢
  calc formatPass o .ok none page p
      = (weave .ok (fun b => visitBlock o.blockStyle b *> pure (blockText o.blockStyle b)) note o.pad
          (segments page)).run p := by rw [← hblock]; rfl
    _ = (notes.forM note *> ((spots [] (segments page)).2.map Spot.block).forM
          (visitBlock o.blockStyle) *> pure out).run p := by rw [hweave]
    _ = .ok (out, p₂) := by
      rw [seqRight_eq_bind, seqRight_eq_bind, StateT.run_bind, StateT.run_bind, h₁]
      exact congrArg (· >>= fun r => (pure out : StateT (Pass σ) (Except Fault) Text).run r.2) h₂

theorem exists_formatPage (lib : Library) {o : Options} (hmarkup : o.markup = .keep)
    (hmode : o.mode ≠ .auto) (page : Text) (programs : Programs) :
    ∃ out, formatPage lib o page programs = .ok out ∧
      out.text = placed o.pad (blockText o.blockStyle) (spots [] (segments page)).1
        (spots [] (segments page)).2 := by
  let start : Pass Programs := { formatter := programs }
  obtain ⟨p, hpass⟩ := exists_formatPass_placed o page start
  have hformatter : markupFormatter lib o = .ok := by rw [markupFormatter, hmarkup]
  refine ⟨⟨_, p.formatter, p.notes ++ [summary page p.session]⟩, ?_, rfl⟩
  rw [formatPage, if_neg hmode, formatPageWith, hformatter, hpass]
  rfl

/-- Where the markup is kept and the code is indented by depth or left alone, formatting keeps every
    block and all markup: split into segments again, the page has the same blocks in the same order,
    and the same markup before the first, between and after them, blanks apart. -/
theorem kept_formatPage (lib : Library) (o : Options) (page : Text) (programs : Programs)
    (hmarkup : o.markup = .keep) (hmode : o.mode = .indentOnly ∨ o.mode = .off) :
    ∃ out, formatPage lib o page programs = .ok out ∧
      (spots [] (segments out.text)).1.solid = (spots [] (segments page)).1.solid ∧
        List.Forall₂ Spot.Kept (spots [] (segments page)).2 (spots [] (segments out.text)).2 := by
  have hauto : o.mode ≠ .auto := by rcases hmode with h | h <;> simp [h]
  obtain ⟨out, hout, htext⟩ := exists_formatPage lib hmarkup hauto page programs
  have hkept := (rewoven_placed o page).2.kept_spots (parts_spots 0 page []).2 [] 0
  rw [← htext] at hkept
  exact ⟨out, hout, hkept⟩

/-- A directive out of order, a loop over two blocks with markup between them, a declaration with two
    role marks, a comment and an expression in an attribute, before an opening delimiter that is never
    closed. -/
theorem kept_formatPage_loop :
    let lib : Library := ⟨fun _ => .ok, fun _ _ _ => .error .malformed⟩
    let o : Options := ⟨4, false, 2, .indentOnly, .keep, true, "format -".toList, .int 10, 1000⟩
    let page : Text := ("<%@page b='2' a=1%>\n<% for (;;) \x7b%> x\n<%\x7d%><%!! int i;%>" ++
      " <%-- \x7d\n --%><a href=\"<%==i%>\"> <% i").toList
    let programs : Programs := { replies := [], fallback := fun _ => .notFound }
    (o.markup = .keep ∧ (o.mode = .indentOnly ∨ o.mode = .off)) ∧
      ∃ out, formatPage lib o page programs = .ok out ∧
        (spots [] (segments out.text)).1.solid = (spots [] (segments page)).1.solid ∧
          List.Forall₂ Spot.Kept (spots [] (segments page)).2 (spots [] (segments out.text)).2 := by
  intro lib o page programs
  exact ⟨⟨rfl, Or.inl rfl⟩, kept_formatPage lib o page programs rfl (Or.inl rfl)⟩

end JspLayout
