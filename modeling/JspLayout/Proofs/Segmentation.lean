import JspLayout.Proofs.Bodies

/-! What the segments of a page are.

    The segments can be told apart from any other way to cut the page without the search that finds
    them: they make up the page, every block runs to the first delimiter that can close it, and what
    is left as markup opens no block that could be closed. `Segmented` says the same from the front,
    one segment after the other, and follows the search. Main statement: the segments of a page are
    the one list of which all this holds. -/

namespace JspLayout

open Text

/-! ### Places in a text -/

/-- The text `p` stands at index `i` of `s`. -/
def OccursAt (p s : Text) (i : Nat) : Prop := p <+: s.drop i

theorem occursAt_iff {p s : Text} {i : Nat} (hp : p ≠ []) :
    OccursAt p s i ↔ ∃ u v, s = u ++ (p ++ v) ∧ u.length = i := by
  constructor
  · rintro ⟨v, hv⟩
    have hle : i ≤ s.length := by
      by_contra hlt
      rw [List.drop_eq_nil_of_le (by omega)] at hv
      simp [hp] at hv
    exact ⟨s.take i, v, by rw [hv, List.take_append_drop], by simp [hle]⟩
  · rintro ⟨u, v, rfl, rfl⟩
    exact ⟨v, by simp⟩

/-- The source of a block runs from `opening` to the first `closing` after it. -/
structure Delimited (opening closing raw : Text) : Prop where
  opens : opening <+: raw
  closes : closing <:+ raw
  length : opening.length + closing.length ≤ raw.length
  first : ∀ i, opening.length ≤ i → i + closing.length < raw.length → ¬OccursAt closing raw i

theorem delimited_iff {opening closing raw : Text} (hc : closing ≠ []) :
    Delimited opening closing raw ↔
      ∃ x, raw = opening ++ (x ++ closing) ∧ ¬closing <:+: x ++ closing.dropLast := by
  have hpos := List.length_pos_iff.mpr hc
  constructor
  · rintro ⟨⟨t, rfl⟩, hcloses, hlen, hfirst⟩
    simp only [List.length_append] at hlen hfirst
    obtain ⟨x, rfl⟩ : closing <:+ t :=
      List.suffix_of_suffix_length_le hcloses (List.suffix_append _ _) (by omega)
    refine ⟨x, rfl, ?_⟩
    rintro ⟨u, v, huv⟩
    have huv' : x ++ closing = u ++ (closing ++ (v ++ [closing.getLast hc])) := by
      conv_lhs => rw [← List.dropLast_concat_getLast hc, ← List.append_assoc, ← huv]
      simp
    refine hfirst (opening.length + u.length) (by omega) ?_ ?_
    · rw [huv']
      simp only [List.length_append, List.length_singleton]
      omega
    · exact (occursAt_iff hc).mpr ⟨opening ++ u, _, by rw [huv', List.append_assoc], by simp⟩
  · rintro ⟨x, rfl, hx⟩
    refine ⟨List.prefix_append _ _, ⟨opening ++ x, by simp⟩, by simp, ?_⟩
    intro i hi hlt hocc
    obtain ⟨u, v, hs, rfl⟩ := (occursAt_iff hc).mp hocc
    obtain ⟨u', rfl⟩ : opening <+: u :=
      List.prefix_of_prefix_length_le (List.prefix_append _ _) ⟨_, hs.symm⟩ hi
    rw [List.append_assoc, List.append_cancel_left_eq] at hs
    have hv : v ≠ [] := by
      rintro rfl
      have := congrArg List.length hs
      simp only [List.length_append, List.length_nil] at this hlt
      omega
    refine hx ⟨u', v.dropLast, ?_⟩
    have := congrArg List.dropLast hs
    rw [List.dropLast_append_of_ne_nil hc, List.dropLast_append_of_ne_nil (by simp [hc]),
      List.dropLast_append_of_ne_nil hv] at this
    rw [this, List.append_assoc]

/-! ### The laws of a segmentation -/

/-- Where a segment starts in the page. -/
def Segment.offset : Segment → Int
  | .markup _ n => n
  | .block b => b.offset

/-- The laws by which a page is cut into segments. -/
structure IsSegmentation (page : Text) (l : List Segment) : Prop where
  /-- The sources make up the page. -/
  sources : Segment.reconstruct l = page
  /-- Every segment starts where those before it end. -/
  offsets : ∀ before seg after, l = before ++ seg :: after →
    seg.offset = ((Segment.reconstruct before).length : Int)
  markup_ne_nil : ∀ text n, .markup text n ∈ l → text ≠ []
  /-- No two stretches of markup are side by side. -/
  markup_apart : ∀ before t n t' n' after,
    l ≠ before ++ .markup t n :: .markup t' n' :: after
  /-- A block is what its source and its place say. -/
  classified : ∀ b, .block b ∈ l → b = Block.classify b.raw b.offset
  /-- A comment runs to the first closing delimiter of comments. -/
  comment : ∀ b, .block b ∈ l → b.kind = .comment → Delimited commentOpen commentClose b.raw
  /-- Any other block runs to the first closing delimiter, and it may look like a comment only where
      the page closes no comment after it. -/
  plain : ∀ b, .block b ∈ l → b.kind ≠ .comment → Delimited blockOpen blockClose b.raw ∧
    (commentOpen <+: b.raw → ∀ i : Nat, b.offset + 4 ≤ (i : Int) → ¬OccursAt commentClose page i)
  /-- An opening delimiter in the markup is closed nowhere in the page. -/
  unclosed : ∀ text n, .markup text n ∈ l → ∀ i : Nat, OccursAt blockOpen text i →
    ∀ j : Nat, n + i + 2 ≤ (j : Int) → ¬OccursAt blockClose page j

/-- The segments `l` of a text that starts at `n` of the page, from the front. -/
inductive Segmented : Int → Text → List Segment → Prop
  | nil (n : Int) : Segmented n [] []
  | markup {n : Int} {text rest : Text} {l : List Segment} : text ≠ [] →
      (∀ u v, text = u ++ (blockOpen ++ v) → ¬blockClose <:+: v ++ rest) →
        (∀ t m l', l ≠ .markup t m :: l') → Segmented (n + text.length) rest l →
          Segmented n (text ++ rest) (.markup text n :: l)
  | block {n : Int} {raw rest : Text} {l : List Segment} : IsBlock rest raw →
      Segmented (n + raw.length) rest l →
        Segmented n (raw ++ rest) (.block (Block.classify raw n) :: l)

/-! ### The search finds these segments -/

theorem segmentsFrom_none {s : Text} (h : nextBlock? s = none) (n : Int) :
    segmentsFrom n s = Segment.ofMarkup s n := by
  rw [segmentsFrom]
  split
  · rfl
  · next h' => rw [h] at h'; exact absurd h' (by simp)

theorem segmentsFrom_some {s lead raw rest : Text} (h : nextBlock? s = some (lead, raw, rest))
    (n : Int) : segmentsFrom n s = Segment.ofMarkup lead n ++
      .block (Block.classify raw (n + lead.length)) ::
        segmentsFrom (n + lead.length + raw.length) rest := by
  rw [segmentsFrom]
  split
  · next h' => rw [h] at h'; exact absurd h' (by simp)
  · next h' =>
    rw [h] at h'
    simp only [Option.some.injEq, Prod.mk.injEq] at h'
    obtain ⟨rfl, rfl, rfl⟩ := h'
    rfl

/-- There is no block exactly where no opening delimiter is followed by a closing one. -/
theorem nextBlock?_eq_none_iff {s : Text} :
    nextBlock? s = none ↔ ∀ u v, s = u ++ (blockOpen ++ v) → ¬blockClose <:+: v := by
  constructor
  · intro h u v hs
    induction u generalizing s with
    | nil =>
      subst hs
      rw [List.nil_append] at h
      rw [show blockOpen ++ v = '<' :: '%' :: v from rfl, nextBlock?] at h
      split at h
      · exact absurd h (by simp)
      · next hnone =>
        rw [blockAt?, Option.orElse_eq_orElse, Option.orElse_eq_or, Option.or_eq_none_iff,
          delimited?_eq_none_iff, delimited?_eq_none_iff] at hnone
        exact hnone.2 v rfl
    | cons c u ih =>
      subst hs
      rw [List.cons_append, nextBlock?] at h
      split at h
      · exact absurd h (by simp)
      · exact ih (Option.map_eq_none_iff.mp h) rfl
  · intro h
    rw [Option.eq_none_iff_forall_not_mem]
    rintro ⟨lead, raw, rest⟩ hb
    obtain ⟨hblock, _⟩ := isBlock_of_nextBlock? hb
    obtain ⟨x, hx⟩ : ∃ x, raw = blockOpen ++ (x ++ blockClose) := by
      cases hblock with
      | @comment x => exact ⟨['-', '-'] ++ (x ++ ['-', '-']), by
          simp [commentOpen, commentClose, blockOpen, blockClose]⟩
      | @plain x => exact ⟨x, rfl⟩
    refine h lead (x ++ blockClose ++ rest) ?_ ⟨x, rest, by simp⟩
    rw [(eq_append_of_nextBlock? hb).1, hx]
    simp

theorem ofMarkup_append {text : Text} {n : Int} {l : List Segment} (h : text ≠ []) :
    Segment.ofMarkup text n ++ l = .markup text n :: l := by
  rw [Segment.ofMarkup, if_neg h]
  rfl

theorem segmented_segmentsFrom (n : Int) (s : Text) : Segmented n s (segmentsFrom n s) := by
  fun_induction segmentsFrom n s with
  | case1 n s h =>
    by_cases hs : s = []
    · subst hs
      exact .nil n
    · have hclosed : ∀ u v, s = u ++ (blockOpen ++ v) → ¬blockClose <:+: v ++ [] := by
        simpa using nextBlock?_eq_none_iff.mp h
      have := Segmented.markup (n := n) hs hclosed (l := []) (by simp) (.nil _)
      rwa [List.append_nil, ← ofMarkup_append hs, List.append_nil] at this
  | case2 n s lead raw rest h start ih =>
    obtain ⟨hblock, hlead⟩ := isBlock_of_nextBlock? h
    have hrest := Segmented.block hblock ih
    rw [(eq_append_of_nextBlock? h).1]
    by_cases hl : lead = []
    · subst hl
      simpa [start, Segment.ofMarkup] using hrest
    · rw [ofMarkup_append hl]
      refine .markup hl ?_ (by simp) hrest
      rintro u v rfl
      exact absurd ⟨u, v, by simp⟩ hlead

/-- Markup that ends where a block begins opens no block. -/
theorem not_opens_of_block {text raw rest : Text} (hblock : IsBlock rest raw)
    (h : ∀ u v, text = u ++ (blockOpen ++ v) → ¬blockClose <:+: v ++ (raw ++ rest)) :
    ¬blockOpen <:+: text := by
  rintro ⟨u, v, rfl⟩
  obtain ⟨t, rfl⟩ := hblock.closes
  exact h u v (by simp) ⟨v ++ t, rest, by simp⟩

theorem nextBlock?_of_isBlock {raw rest : Text} (hblock : IsBlock rest raw) :
    nextBlock? (raw ++ rest) = some ([], raw, rest) := by
  have hlead : ¬blockOpen <:+: ([] : Text) := by decide
  exact nextBlock?_append hlead hblock

theorem Segmented.eq_segmentsFrom {n : Int} {s : Text} {l : List Segment} (h : Segmented n s l) :
    l = segmentsFrom n s := by
  induction h with
  | nil n => rw [segmentsFrom_none (by rfl)]; rfl
  | @block n raw rest l hblock _ ih =>
    rw [segmentsFrom_some (nextBlock?_of_isBlock hblock), ih]
    simp [Segment.ofMarkup]
  | @markup n text rest l hne hclosed hapart hrest ih =>
    cases hrest with
    | nil =>
      rw [List.append_nil, segmentsFrom_none (nextBlock?_eq_none_iff.mpr (by simpa using hclosed)),
        Segment.ofMarkup, if_neg hne]
    | markup => exact absurd rfl (hapart _ _ _)
    | @block _ raw rest l hblock hrest =>
      have hopen := not_opens_of_block hblock hclosed
      rw [segmentsFrom_some (nextBlock?_append hopen hblock), ofMarkup_append hne, ih,
        segmentsFrom_some (nextBlock?_of_isBlock hblock)]
      simp [Segment.ofMarkup]

/-! ### The laws from the front -/

theorem isInfix_of_occursAt {p a s : Text} {i : Nat} (h : OccursAt p (a ++ s) i)
    (hi : a.length ≤ i) : p <:+: s := by
  rw [OccursAt, List.drop_append, List.drop_eq_nil_of_le hi, List.nil_append] at h
  exact h.isInfix.trans (List.drop_suffix _ _).isInfix

theorem Segment.reconstruct_append (l l' : List Segment) :
    reconstruct (l ++ l') = reconstruct l ++ reconstruct l' := List.flatMap_append

theorem Segment.reconstruct_cons (seg : Segment) (l : List Segment) :
    reconstruct (seg :: l) = seg.source ++ reconstruct l := List.flatMap_cons

theorem Segment.reconstruct_concat (l : List Segment) (seg : Segment) :
    reconstruct (l ++ [seg]) = reconstruct l ++ seg.source := by
  simp [reconstruct]

theorem Block.offset_classify (raw : Text) (n : Int) : (classify raw n).offset = n := by
  unfold classify
  split
  · rfl
  · split <;> rfl

theorem Block.kind_classify_ne {raw : Text} (h : commentBody? raw = none) (n : Int) :
    (classify raw n).kind ≠ .comment := by
  rw [classify, h]
  simp only
  split <;> simp

/-- A block is a comment exactly where it has the delimiters of one. -/
theorem IsBlock.cases {rest raw : Text} (h : IsBlock rest raw) (n : Int) :
    ((Block.classify raw n).kind = .comment ∧ Delimited commentOpen commentClose raw) ∨
      ((Block.classify raw n).kind ≠ .comment ∧ Delimited blockOpen blockClose raw ∧
        ∀ y, raw ++ rest = commentOpen ++ y → ¬commentClose <:+: y) := by
  cases h with
  | @comment x hx =>
    refine Or.inl ⟨by rw [Block.classify_comment], ?_⟩
    exact (delimited_iff (by decide)).mpr ⟨x, rfl, hx⟩
  | @plain x hx hy =>
    refine Or.inr ⟨Block.kind_classify_ne (Block.commentBody?_eq_none ?_) n, ?_, ?_⟩
    · intro y hxy hin
      refine hy (y ++ rest) ?_ (hin.trans (List.prefix_append _ _).isInfix)
      rw [← List.append_assoc, hxy]
      rfl
    · exact (delimited_iff (by decide)).mpr ⟨x, rfl, fun h => hx (infix_blockClose_concat.mp h)⟩
    · intro y hxy
      refine hy y ?_
      simpa [blockOpen, commentOpen] using hxy

/-- The laws hold of every place in the list. -/
theorem Segmented.at {n : Int} {s : Text} {before after : List Segment} {seg : Segment}
    (h : Segmented n s (before ++ seg :: after)) :
    ∃ rest, s = Segment.reconstruct before ++ rest ∧
      Segmented (n + (Segment.reconstruct before).length) rest (seg :: after) := by
  induction before generalizing n s with
  | nil => exact ⟨s, rfl, by simpa [Segment.reconstruct] using h⟩
  | cons seg' before ih =>
    cases h with
    | markup _ _ _ hrest =>
      obtain ⟨rest, rfl, h⟩ := ih hrest
      refine ⟨rest, by simp [Segment.reconstruct_cons, Segment.source], ?_⟩
      simpa [Segment.reconstruct_cons, Segment.source, Int.add_assoc] using h
    | block _ hrest =>
      obtain ⟨rest, rfl, h⟩ := ih hrest
      refine ⟨rest, by simp [Segment.reconstruct_cons, Segment.source, Block.raw_classify], ?_⟩
      simpa [Segment.reconstruct_cons, Segment.source, Block.raw_classify, Int.add_assoc] using h

theorem Segmented.reconstruct {n : Int} {s : Text} {l : List Segment} (h : Segmented n s l) :
    Segment.reconstruct l = s := by
  rw [h.eq_segmentsFrom, reconstruct_segmentsFrom]

theorem Segmented.isSegmentation {page : Text} {l : List Segment} (h : Segmented 0 page l) :
    IsSegmentation page l where
  sources := h.reconstruct
  offsets := by
    rintro before seg after rfl
    obtain ⟨rest, _, hat⟩ := h.at
    rw [Int.zero_add] at hat
    cases hat with
    | markup => rfl
    | block => exact Block.offset_classify _ _
  markup_ne_nil := by
    intro text n hmem
    obtain ⟨before, after, rfl⟩ := List.append_of_mem hmem
    obtain ⟨rest, _, hat⟩ := h.at
    cases hat with
    | markup hne => exact hne
  markup_apart := by
    rintro before t n t' n' after rfl
    obtain ⟨rest, _, hat⟩ := h.at
    cases hat with
    | markup _ _ hapart => exact hapart _ _ _ rfl
  classified := by
    intro b hmem
    obtain ⟨before, after, rfl⟩ := List.append_of_mem hmem
    obtain ⟨rest, _, hat⟩ := h.at
    cases hat with
    | block => rw [Block.raw_classify, Block.offset_classify]
  comment := by
    intro b hmem hkind
    obtain ⟨before, after, rfl⟩ := List.append_of_mem hmem
    obtain ⟨rest, _, hat⟩ := h.at
    cases hat with
    | block hblock =>
      rw [Block.raw_classify]
      rcases hblock.cases (0 + (Segment.reconstruct before).length) with ⟨_, hd⟩ | ⟨hne, _⟩
      · exact hd
      · exact absurd hkind hne
  plain := by
    intro b hmem hkind
    obtain ⟨before, after, rfl⟩ := List.append_of_mem hmem
    obtain ⟨rest, hpage, hat⟩ := h.at
    cases hat with
    | @block _ raw rest _ hblock =>
      rw [Block.raw_classify, Block.offset_classify]
      rcases hblock.cases (0 + (Segment.reconstruct before).length) with ⟨heq, _⟩ | ⟨_, hd, hclose⟩
      · exact absurd heq hkind
      · refine ⟨hd, ?_⟩
        rintro ⟨y, rfl⟩ i hi hocc
        refine hclose (y ++ rest) (List.append_assoc ..) ?_
        refine isInfix_of_occursAt (a := Segment.reconstruct before ++ commentOpen) (i := i) ?_ ?_
        · rw [hpage] at hocc
          simpa using hocc
        · simp only [List.length_append, commentOpen, List.length_cons, List.length_nil]
          omega
  unclosed := by
    intro text n hmem i hopen j hj hocc
    obtain ⟨before, after, rfl⟩ := List.append_of_mem hmem
    obtain ⟨rest, hpage, hat⟩ := h.at
    cases hat with
    | @markup _ _ rest _ _ hclosed =>
      obtain ⟨u, v, rfl, rfl⟩ := (occursAt_iff (by decide)).mp hopen
      refine hclosed u v rfl ?_
      refine isInfix_of_occursAt (a := Segment.reconstruct before ++ (u ++ blockOpen)) (i := j) ?_ ?_
      · rw [hpage] at hocc
        simpa using hocc
      · simp only [List.length_append, blockOpen, List.length_cons, List.length_nil]
        omega

/-! ### From the laws to the front -/

theorem IsSegmentation.isBlock {page : Text} {before after : List Segment} {b : Block}
    (h : IsSegmentation page (before ++ .block b :: after)) :
    IsBlock (Segment.reconstruct after) b.raw := by
  have hmem : Segment.block b ∈ before ++ .block b :: after := by simp
  have hoffset : b.offset = _ := h.offsets before (.block b) after rfl
  by_cases hkind : b.kind = .comment
  · obtain ⟨x, hx, hfirst⟩ := (delimited_iff (by decide)).mp (h.comment b hmem hkind)
    rw [hx]
    exact .comment hfirst
  · obtain ⟨hd, hclose⟩ := h.plain b hmem hkind
    obtain ⟨x, hx, hfirst⟩ := (delimited_iff (by decide)).mp hd
    rw [hx] at hclose ⊢
    refine .plain (fun h => hfirst (infix_blockClose_concat.mpr h)) fun y hy hin => ?_
    obtain ⟨a, c, hac⟩ := hin
    obtain ⟨x', rfl⟩ : ∃ x', x = '-' :: '-' :: x' := by
      match x, hy with
      | [], hy => simp [blockClose] at hy
      | [_], hy => simp [blockClose] at hy
      | _ :: _ :: x', hy => simp at hy; exact ⟨x', by rw [hy.1, hy.2.1]⟩
    refine hclose ⟨x' ++ blockClose, rfl⟩ ((Segment.reconstruct before).length + 4 + a.length) ?_ ?_
    · rw [hoffset]
      push_cast
      omega
    · refine (occursAt_iff (by decide)).mpr
        ⟨Segment.reconstruct before ++ (commentOpen ++ a), c, ?_, by simp [commentOpen]; omega⟩
      rw [← h.sources, Segment.reconstruct_append, Segment.reconstruct_cons, Segment.source, hx]
      simp only [List.cons_append, List.cons.injEq, true_and] at hy
      simp [blockOpen, commentOpen, hy, ← hac]

theorem IsSegmentation.segmented {page : Text} {l : List Segment} (h : IsSegmentation page l) :
    Segmented 0 page l := by
  have hsuffix : ∀ after before, l = before ++ after →
      Segmented (Segment.reconstruct before).length (Segment.reconstruct after) after := by
    intro after
    induction after with
    | nil => exact fun before _ => .nil _
    | cons seg after ih =>
      rintro before rfl
      have hoffset := h.offsets before seg after rfl
      have hrest := ih (before ++ [seg]) (by simp)
      rw [Segment.reconstruct_concat, List.length_append, Int.natCast_add] at hrest
      rw [Segment.reconstruct_cons]
      cases seg with
      | markup text n =>
        obtain rfl : n = _ := hoffset
        have hmem : Segment.markup text (Segment.reconstruct before).length ∈
            before ++ .markup text (Segment.reconstruct before).length :: after := by simp
        refine .markup (h.markup_ne_nil _ _ hmem) ?_ ?_ hrest
        · rintro u v rfl ⟨a, c, hac⟩
          refine h.unclosed _ _ hmem u.length ((occursAt_iff (by decide)).mpr ⟨u, v, rfl, rfl⟩)
            ((Segment.reconstruct before).length + u.length + 2 + a.length) (by push_cast; omega) ?_
          refine (occursAt_iff (by decide)).mpr
            ⟨Segment.reconstruct before ++ (u ++ (blockOpen ++ a)), c, ?_, by
              simp [blockOpen]; omega⟩
          rw [← h.sources, Segment.reconstruct_append, Segment.reconstruct_cons, Segment.source]
          simp [← hac]
        · rintro t m l' rfl
          exact h.markup_apart before _ _ t m l' rfl
      | block b =>
        have hmem : Segment.block b ∈ before ++ .block b :: after := by simp
        have hb := h.classified b hmem
        obtain hoffset : b.offset = _ := hoffset
        rw [hoffset] at hb
        have hsegs := Segmented.block h.isBlock hrest
        rwa [← hb] at hsegs
  have := hsuffix l [] rfl
  rw [h.sources] at this
  exact this

/-- A list of segments is a segmentation of a page exactly if it is the list of its segments: there
    is one way to cut a page by these laws, and the search finds it. -/
theorem isSegmentation_iff_eq_segments (page : Text) (l : List Segment) :
    IsSegmentation page l ↔ l = segments page := by
  constructor
  · intro h
    exact h.segmented.eq_segmentsFrom
  · rintro rfl
    exact (segmented_segmentsFrom 0 page).isSegmentation

end JspLayout
