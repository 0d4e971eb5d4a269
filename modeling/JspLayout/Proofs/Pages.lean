import JspLayout.Proofs.Occurrence
import JspLayout.Page.Segment

/-! Pages and their segments.

    A block is told by its source and what follows it: a comment runs to the first closing delimiter
    of comments, any other block to the first closing delimiter, and it may look like a comment only
    where no comment is closed after it. Markup before a block never holds an opening delimiter. -/

namespace JspLayout

open Text

/-- A text that is the source of a block where `rest` follows it. -/
inductive IsBlock (rest : Text) : Text → Prop
  | comment {x : Text} : ¬commentClose <:+: x ++ ['-', '-', '%'] →
      IsBlock rest (commentOpen ++ (x ++ commentClose))
  | plain {x : Text} : ¬blockClose <:+: x →
      (∀ y, x ++ (blockClose ++ rest) = '-' :: '-' :: y → ¬commentClose <:+: y) →
        IsBlock rest (blockOpen ++ (x ++ blockClose))

theorem delimited?_eq_some_iff {opening closing s raw tail : Text} (hc : closing ≠ []) :
    delimited? opening closing s = some (raw, tail) ↔
      ∃ x, raw = opening ++ (x ++ closing) ∧ s = opening ++ (x ++ (closing ++ tail)) ∧
        ¬closing <:+: x ++ closing.dropLast := by
  simp only [delimited?, Option.bind_eq_bind, Option.bind_eq_some_iff, Option.pure_def,
    Option.some.injEq, Prod.mk.injEq, Prod.exists, after?_eq_some_iff, cut?_eq_some_iff hc]
  constructor
  · rintro ⟨_, rfl, x, _, ⟨rfl, hx⟩, rfl, rfl⟩
    exact ⟨x, List.append_assoc .., rfl, hx⟩
  · rintro ⟨x, rfl, rfl, hx⟩
    exact ⟨_, rfl, x, tail, ⟨rfl, hx⟩, List.append_assoc .., rfl⟩

theorem delimited?_eq_none_iff {opening closing s : Text} :
    delimited? opening closing s = none ↔ ∀ y, s = opening ++ y → ¬closing <:+: y := by
  constructor
  · rintro h y rfl hy
    obtain ⟨⟨inside, tail⟩, hcut⟩ := Option.isSome_iff_exists.mp (holds_iff_isInfix.mpr hy)
    simp [delimited?, after?_append, hcut] at h
  · intro h
    rw [Option.eq_none_iff_forall_not_mem]
    intro p hp
    simp only [delimited?, Option.mem_def, Option.bind_eq_bind, Option.bind_eq_some_iff,
      Prod.exists] at hp
    obtain ⟨y, hy, inside, tail, hcut, _⟩ := hp
    refine h y (eq_append_of_after? hy) ?_
    rw [eq_append_of_cut? hcut]
    exact List.infix_append' _ _ _

theorem infix_blockClose_concat {x : Text} : blockClose <:+: x ++ ['%'] ↔ blockClose <:+: x := by
  rw [List.infix_concat_iff]
  refine ⟨fun h => h.resolve_left ?_, Or.inr⟩
  rintro ⟨t, ht⟩
  have := congrArg List.getLast? ht
  rw [List.getLast?_append_of_ne_nil _ (by decide), List.getLast?_concat] at this
  exact absurd this (by decide)

/-- The block that a text begins with. -/
theorem blockAt?_eq_some_iff {s raw rest : Text} :
    blockAt? s = some (raw, rest) ↔ s = raw ++ rest ∧ IsBlock rest raw := by
  rw [blockAt?, Option.orElse_eq_orElse, Option.orElse_eq_or, Option.or_eq_some_iff,
    delimited?_eq_some_iff (by decide), delimited?_eq_none_iff, delimited?_eq_some_iff (by decide)]
  constructor
  · rintro (⟨x, rfl, rfl, hx⟩ | ⟨hnone, x, rfl, rfl, hx⟩)
    · exact ⟨by simp, .comment hx⟩
    · refine ⟨by simp, .plain (fun h => hx (infix_blockClose_concat.mpr h)) fun y hy => ?_⟩
      exact hnone y (by rw [hy]; rfl)
  · rintro ⟨rfl, h⟩
    cases h with
    | comment hx => exact Or.inl ⟨_, rfl, by simp, hx⟩
    | @plain x hx hy =>
      refine Or.inr ⟨fun y h => hy y ?_, x, rfl, by simp, fun h => hx (infix_blockClose_concat.mp h)⟩
      simpa [blockOpen, commentOpen] using h

/-! ### The first block -/

theorem IsBlock.opens {rest raw : Text} (h : IsBlock rest raw) : ∃ t, raw = '<' :: '%' :: t := by
  cases h with
  | comment => exact ⟨_, rfl⟩
  | plain => exact ⟨_, rfl⟩

theorem IsBlock.closes {rest raw : Text} (h : IsBlock rest raw) : ∃ t, raw = t ++ blockClose := by
  cases h with
  | @comment x => exact ⟨commentOpen ++ (x ++ ['-', '-']), by simp [commentClose, blockClose]⟩
  | @plain x => exact ⟨blockOpen ++ x, by simp⟩

/-- Markup in which no opening delimiter occurs ends where a block begins. -/
theorem nextBlock?_append {lead raw rest : Text} (hlead : ¬blockOpen <:+: lead)
    (h : IsBlock rest raw) : nextBlock? (lead ++ (raw ++ rest)) = some (lead, raw, rest) := by
  obtain ⟨t, ht⟩ := h.opens
  have hblock : blockAt? (raw ++ rest) = some (raw, rest) := blockAt?_eq_some_iff.mpr ⟨rfl, h⟩
  induction lead with
  | nil =>
    rw [ht] at hblock ⊢
    rw [List.nil_append, List.cons_append, nextBlock?, ← List.cons_append, hblock]
  | cons c lead ih =>
    have hnone : blockAt? (c :: (lead ++ (raw ++ rest))) = none := by
      rw [Option.eq_none_iff_forall_not_mem]
      rintro ⟨raw', rest'⟩ hb
      obtain ⟨he, hb⟩ := blockAt?_eq_some_iff.mp hb
      obtain ⟨t', rfl⟩ := hb.opens
      rw [List.cons_append, List.cons.injEq, List.cons_append] at he
      obtain ⟨rfl, he⟩ := he
      cases lead with
      | nil => rw [ht] at he; exact absurd (List.cons.inj he).1 (by decide)
      | cons d lead =>
        obtain rfl : d = '%' := (List.cons.inj he).1
        exact hlead ⟨[], lead, rfl⟩
    rw [List.cons_append, nextBlock?, hnone]
    simp [ih fun h => hlead (List.infix_cons h)]

/-- Markup before a block holds no opening delimiter, since the block would close it. -/
theorem isBlock_of_nextBlock? : ∀ {s lead raw rest : Text}, nextBlock? s = some (lead, raw, rest) →
    IsBlock rest raw ∧ ¬blockOpen <:+: lead
  | [], _, _, _, h => by simp [nextBlock?] at h
  | c :: s, lead, raw, rest, h => by
    have hs := (eq_append_of_nextBlock? h).1
    rw [nextBlock?] at h
    split at h
    · next hb =>
      simp only [Option.some.injEq, Prod.mk.injEq] at h
      obtain ⟨rfl, rfl, rfl⟩ := h
      exact ⟨(blockAt?_eq_some_iff.mp hb).2, by decide⟩
    · next hnone =>
      obtain ⟨⟨lead', raw', rest'⟩, hn, he⟩ := Option.map_eq_some_iff.mp h
      simp only [Prod.mk.injEq] at he
      obtain ⟨rfl, rfl, rfl⟩ := he
      obtain ⟨hblock, hlead⟩ := isBlock_of_nextBlock? hn
      refine ⟨hblock, fun hopen => ?_⟩
      rcases List.infix_cons_iff.mp hopen with ⟨t, ht⟩ | hopen
      · -- an opening delimiter here is closed by the block at the latest
        obtain ⟨u, rfl⟩ := hblock.closes
        rw [blockAt?, Option.orElse_eq_orElse, Option.orElse_eq_or, Option.or_eq_none_iff,
          delimited?_eq_none_iff, delimited?_eq_none_iff] at hnone
        refine hnone.2 (t ++ (u ++ blockClose ++ rest')) ?_ ⟨t ++ u, rest', by simp⟩
        rw [hs, ← ht, List.append_assoc]
      · exact hlead hopen

/-! ### Segments make up the page -/

theorem Segment.reconstruct_ofMarkup (text : Text) (offset : Int) :
    reconstruct (ofMarkup text offset) = text := by
  unfold ofMarkup
  split
  · next h => rw [h]; rfl
  · simp [reconstruct, source]

theorem Block.raw_classify (raw : Text) (offset : Int) : (classify raw offset).raw = raw := by
  unfold classify
  split
  · rfl
  · split <;> rfl

theorem reconstruct_segmentsFrom (offset : Int) (s : Text) :
    Segment.reconstruct (segmentsFrom offset s) = s := by
  fun_induction segmentsFrom offset s with
  | case1 offset s h => exact Segment.reconstruct_ofMarkup s offset
  | case2 offset s before raw tail h start ih =>
    have hs := (eq_append_of_nextBlock? h).1
    rw [Segment.reconstruct, List.flatMap_append, List.flatMap_cons, ← Segment.reconstruct,
      ← Segment.reconstruct, Segment.reconstruct_ofMarkup, ih, Segment.source, Block.raw_classify, ← hs]

/-- The sources of the segments, one after the other, are the page. -/
theorem reconstruct_segments (page : Text) : Segment.reconstruct (segments page) = page :=
  reconstruct_segmentsFrom 0 page

end JspLayout
