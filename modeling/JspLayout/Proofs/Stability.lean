import JspLayout.Proofs.Landings
import JspLayout.Proofs.Settling

/-! Formatting a formatted page.

    Where the markup is kept and the code is not changed, a formatted page has every block where it
    would be put again. Main statement: formatting it again changes nothing exactly when every block of
    the page is settled, that is, written the same when it is read again and placed in the same place. -/

namespace JspLayout

open Text

/-! ### Blocks at their spots -/

/-- Formatted again, the block at the spot is written as before. Inside a start tag it is also where it
    takes several lines, since it is left as it was then. -/
def Spot.Settled (style : BlockStyle) (s : Spot) : Prop :=
  (s.inTag = true ∧ '\n' ∈ blockText style s.block) ∨
    (s.block.Firm style ∧ Flush (blockText style s.block).interior)

instance (style : BlockStyle) (s : Spot) : Decidable (s.Settled style) :=
  inferInstanceAs (Decidable ((_ ∧ _) ∨ (_ ∧ _)))

theorem blockText_offset (style : BlockStyle) (raw : Text) (offset offset' : Int) :
    blockText style (Block.classify raw offset') = blockText style (Block.classify raw offset) := by
  have hclass : Block.classify raw offset' = { Block.classify raw offset with offset := offset' } := by
    unfold Block.classify
    split
    · rfl
    · split <;> rfl
  rw [hclass]
  rfl

theorem tight_blockText {style : BlockStyle} (hunit : Blank style.unit) {rest raw : Text}
    (h : IsBlock rest raw) (offset : Int) : Tight (blockText style (Block.classify raw offset)) := by
  have hredone := redone_blockText hunit h (Relaid.refl (blockText style (Block.classify raw offset)))
  obtain ⟨⟨u, hu⟩, v, hv⟩ := hredone.exists_ends
  constructor
  · intro c hc
    obtain rfl : '<' = c := by simpa [hu] using hc
    decide
  · intro c hc
    obtain rfl : '>' = c := by simpa [hv] using hc
    decide

section

variable {style : BlockStyle} (hmode : style.mode = .off) (hunit : Blank style.unit) {pad : Text}
  (hpad : pad.all isIndent = true)

include hmode hunit hpad

section

variable {s : Spot} {rest : Text} {offset : Int} (hclass : s.block = Block.classify s.block.raw offset)
  (hraw : IsBlock rest s.block.raw)

include hclass hraw

theorem Spot.settles {base : Text} (hbase : base.all isIndent = true) (offset' : Int) :
    Settles style base pad s.block (blockText style
      (Block.classify (indentBlock (blockText style s.block) base pad []) offset')) := by
  have := settles_classify hbase hpad hmode hunit hraw offset offset'
  rwa [← hclass] at this

/-- Inside a start tag a block is left as it was where it takes several lines, and otherwise written on
    its line. -/
theorem Spot.text_inTag_iff (htag : s.inTag = true) (before before' after : Text) (offset' : Int) :
    Spot.text pad (blockText style)
        ⟨Block.classify (s.text pad (blockText style) before) offset', true, after⟩ before' =
      s.text pad (blockText style) before ↔ s.Settled style := by
  have htight : (blockText style s.block).trim = blockText style s.block := by
    rw [hclass]
    exact (tight_blockText hunit hraw offset).trim_eq
  by_cases hfeed : '\n' ∈ blockText style s.block
  · have htext : s.text pad (blockText style) before = s.block.raw := by
      simp [Spot.text, htag, htight, hfeed]
    have hagain : blockText style (Block.classify s.block.raw offset') = blockText style s.block := by
      conv_rhs => rw [hclass]
      exact blockText_offset style s.block.raw offset offset'
    rw [htext]
    refine iff_of_true ?_ (Or.inl ⟨htag, hfeed⟩)
    simp [Spot.text, hagain, htight, hfeed, Block.raw_classify]
  · have htext : s.text pad (blockText style) before = blockText style s.block := by
      simp [Spot.text, htag, htight, hfeed]
    obtain ⟨hnone, hiff⟩ := Spot.settles hmode hunit hpad hclass hraw List.all_nil offset'
    rw [indentBlock_of_no_feed hfeed, htight] at hnone hiff
    rw [htext, Spot.text, if_pos rfl]
    dsimp only
    generalize blockText style (Block.classify (blockText style s.block) offset') = r at hnone hiff ⊢
    have hnone := hnone hfeed
    rw [indentBlock_of_no_feed hnone] at hiff
    rw [if_neg (no_feed_trim hnone), hiff]
    simp [Spot.Settled, hfeed]

/-- A block that has been put in its place is written there again as it stands exactly when it is
    settled. -/
theorem Spot.text_ready_iff (before after : Text) (offset' : Int) :
    Spot.text pad (blockText style)
        ⟨Block.classify (s.text pad (blockText style) before) offset', s.inTag, after⟩
        (s.ready before) = s.text pad (blockText style) before ↔ s.Settled style := by
  cases htag : s.inTag with
  | true => exact Spot.text_inTag_iff hmode hunit hpad hclass hraw htag before _ after offset'
  | false =>
    have htext : s.text pad (blockText style) before =
        indentBlock (blockText style s.block) (lastLine before).indent pad [] := by
      simp [Spot.text, htag]
    have hready : s.ready before = approach before := by simp [Spot.ready, htag]
    have hbase : (lastLine before).indent.all isIndent = true :=
      List.all_eq_true.mpr fun c hc => List.mem_takeWhile_imp hc
    rw [htext, hready, Spot.text, (approach_approach before).2]
    simpa [Spot.Settled, htag] using
      (Spot.settles hmode hunit hpad hclass hraw hbase offset').iff

end

/-! ### A formatted page, formatted again -/

omit hmode hunit hpad in
theorem Landed.cons_inv {pad d gap gap' : Text} {g : Block → Text} {s s' : Spot} {ss ss' : List Spot}
    (h : Landed pad g d gap (s :: ss) gap' (s' :: ss')) :
    s'.block.raw = s.text pad g (d ++ gap) ∧
      Landed pad g (d ++ (gap' ++ s.text pad g (d ++ gap))) s.after ss s'.after ss' := by
  cases h with
  | block offset _ _ hrest => exact ⟨Block.raw_classify _ _, hrest⟩

/-- Where every block is settled, all blocks of the formatted page are put back as they stand. -/
theorem Landed.placed_eq {d gap gap' : Text} {ss ss' : List Spot}
    (h : Landed pad (blockText style) d gap ss gap' ss') (hparts : Parts gap ss)
    (hsettled : ∀ s ∈ ss, s.Settled style) :
    placed pad (blockText style) (d ++ gap') ss' = d ++ pageOf gap' ss' := by
  induction h with
  | last d gap => simp [placed, pageOf]
  | @block d gap gap' after' s ss ss' offset hd hready _ ih =>
    cases hparts with
    | @block _ _ _ start _ hclass hraw hparts =>
      have htext := (Spot.text_ready_iff hmode hunit hpad hclass hraw (d ++ gap) after' offset).mpr
        (hsettled s List.mem_cons_self)
      have hagain : Spot.ready ⟨Block.classify (s.text pad (blockText style) (d ++ gap)) offset, s.inTag,
          after'⟩ (d ++ gap') = d ++ gap' := by
        rw [← hready]
        exact s.ready_ready (d ++ gap)
      have ih := ih hparts fun s' hs' => hsettled s' (List.mem_cons_of_mem _ hs')
      rw [hready] at htext
      rw [placed, Spot.place_eq, hagain, htext, pageOf_cons, Block.raw_classify]
      simpa using ih

/-- Where all blocks of the formatted page are put back as they stand, every block is settled. -/
theorem Landed.settled {d gap gap' : Text} {ss ss' : List Spot}
    (h : Landed pad (blockText style) d gap ss gap' ss') (hparts : Parts gap ss)
    (hagain : Landed pad (blockText style) d gap' ss' gap' ss') : ∀ s ∈ ss, s.Settled style := by
  induction h with
  | last d gap => simp
  | @block d gap gap' after' s ss ss' offset hd hready _ ih =>
    cases hparts with
    | @block _ _ _ start _ hclass hraw hparts =>
      obtain ⟨htext, hrest⟩ := hagain.cons_inv
      rw [Block.raw_classify] at htext
      rw [← htext] at hrest
      have hs : s.Settled style := by
        rw [← Spot.text_ready_iff hmode hunit hpad hclass hraw (d ++ gap) after' offset, hready]
        exact htext.symm
      exact List.forall_mem_cons.mpr ⟨hs, ih hparts hrest⟩

end

/-- Where the markup is kept and the code is not changed, formatting a formatted page again changes
    nothing exactly when every block of the page is settled. -/
theorem formatPage_formatPage_iff (lib : Library) (o : Options) (page : Text) (programs programs' : Programs)
    (hmarkup : o.markup = .keep) (hmode : o.mode = .off) :
    ∃ out out', formatPage lib o page programs = .ok out ∧ formatPage lib o out.text programs' = .ok out' ∧
      (out'.text = out.text ↔ ∀ s ∈ (spots [] (segments page)).2, s.Settled o.blockStyle) := by
  have hauto : o.mode ≠ .auto := by simp [hmode]
  have hunit : Blank o.blockStyle.unit := Java.blank_indentUnit o.indentWidth o.useTabs
  have hpad : o.pad.all isIndent = true := by
    refine List.all_eq_true.mpr fun c hc => ?_
    obtain rfl : c = ' ' := List.eq_of_mem_replicate hc
    decide
  obtain ⟨out, hout, htext⟩ := exists_formatPage lib hmarkup hauto page programs
  obtain ⟨out', hout', htext'⟩ := exists_formatPage lib hmarkup hauto out.text programs'
  refine ⟨out, out', hout, hout', ?_⟩
  have hparts := (parts_spots 0 page []).2
  have hlanded := landed_placed o page
  have hagain := landed_placed o out.text
  rw [← htext] at hlanded
  rw [← htext'] at hagain
  constructor
  · intro heq
    rw [heq] at hagain
    exact hlanded.settled hmode hunit hpad hparts hagain
  · intro hsettled
    have hplaced := hlanded.placed_eq hmode hunit hpad hparts hsettled
    rw [htext', ← List.nil_append (spots [] (segments out.text)).1, hplaced]
    exact (parts_spots 0 out.text []).1

/-- Blocks of every kind, of one line and of several, inside a start tag and between tags. -/
theorem formatPage_formatPage_iff_form :
    let lib : Library := ⟨fun _ => .ok, fun _ _ _ => .error .malformed⟩
    let o : Options := ⟨2, false, 2, .off, .keep, true, "format -".toList, .int 10, 1000⟩
    let page : Text := ("<%@page a='x\n  y'%><%@include file=f%>\n<form\u00a0id=\"<%=\n i %>\">\n" ++
      "  <%if (a) \x7b\n      b();\n\n    c(); \x7d%>\u00a0<%! int d;%>\n  <p><%-- e\n   f\n--%><%= g %></p>").toList
    let programs : Programs := { replies := [], fallback := fun _ => .notFound }
    (o.markup = .keep ∧ o.mode = .off) ∧
      ∃ out out', formatPage lib o page programs = .ok out ∧ formatPage lib o out.text programs = .ok out' ∧
        out'.text = out.text := by
  intro lib o page programs
  obtain ⟨out, out', hout, hout', hiff⟩ := formatPage_formatPage_iff lib o page programs programs rfl rfl
  exact ⟨⟨rfl, rfl⟩, out, out', hout, hout', hiff.mpr (by decide +kernel)⟩

/-- Code that begins with a blank or a role mark, a directive that begins with one, and lines where a
    blank line has a say in the indentation they share are each changed a second time. -/
theorem formatPage_formatPage_ne :
    let lib : Library := ⟨fun _ => .ok, fun _ _ _ => .error .malformed⟩
    let o : Options := ⟨2, false, 2, .off, .keep, true, "format -".toList, .int 10, 1000⟩
    let programs : Programs := { replies := [], fallback := fun _ => .notFound }
    ∀ page ∈ ["<%\n    foo();\n  bar();\n%>".toList, "<%!\n! x %>".toList, "<%@ @ @ x %>".toList,
        "<%= a\n    x\n\u00a0\n    y\nb %>".toList],
      ∃ out out', formatPage lib o page programs = .ok out ∧ formatPage lib o out.text programs = .ok out' ∧
        out'.text ≠ out.text := by
  intro lib o programs page hpage
  obtain ⟨out, hout, htext⟩ := exists_formatPage lib (o := o) rfl (by decide) page programs
  obtain ⟨out', hout', htext'⟩ := exists_formatPage lib (o := o) rfl (by decide) out.text programs
  refine ⟨out, out', hout, hout', ?_⟩
  rw [htext', htext]
  clear hout hout' htext htext'
  revert page
  decide +kernel

end JspLayout
