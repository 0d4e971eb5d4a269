import JspLayout.Proofs.Blocks
import JspLayout.Proofs.Directives

/-! Formatted blocks formatted again.

    A formatted block is read again before it is formatted again. Main statement: without changes to
    the code, formatting and placing it a second time changes nothing exactly when its body does not
    begin with what would be taken for blanks or role marks, and blank lines have no say in the
    indentation that its interior lines share. -/

namespace JspLayout

open Text

/-! ### Reading a formatted block -/

theorem blockLine_eq (k : BlockKind) (y : Text) : blockLine (blockOpen ++ k.mark) y =
    blockOpen ++ ((k.mark ++ ' ' :: (y ++ [' '])) ++ blockClose) := by
  simp [blockLine]

theorem mem_blockLine (k : BlockKind) (y : Text) :
    '\n' ∈ blockLine (blockOpen ++ k.mark) y ↔ '\n' ∈ y := by
  have hmark : '\n' ∉ k.mark := by cases k <;> decide
  simp [blockLine, blockOpen, blockClose, hmark]

theorem solid_blockLine (k : BlockKind) (y : Text) : (blockLine (blockOpen ++ k.mark) y).solid =
    (blockOpen ++ k.mark).solid ++ (y.solid ++ blockClose) := by
  have hspace : isBlank ' ' = true := by decide
  have hclose : blockClose.solid = blockClose := by decide
  simp [blockLine, solid_append, solid_blank_cons hspace, hclose]

/-- What is read between the delimiters of a formatted block. -/
theorem inner_classify {k : BlockKind} {x y : Text} (hx : Padded x y) {offset : Int}
    (hkind : (Block.classify (blockOpen ++ ((k.mark ++ x) ++ blockClose)) offset).kind = k) :
    (Block.classify (blockOpen ++ ((k.mark ++ x) ++ blockClose)) offset).inner =
      k.inner (k.mark ++ x) := by
  have hbody : Block.commentBody? (blockOpen ++ ((k.mark ++ x) ++ blockClose)) = none :=
    Block.commentBody?_eq_none fun _ h => absurd h (hx.ne_dash k)
  rw [Block.classify_eq hbody] at hkind ⊢
  dsimp only at hkind ⊢
  rw [hkind]

theorem inner_classify_blockLine {k : BlockKind} {y : Text} {offset : Int}
    (hkind : (Block.classify (blockLine (blockOpen ++ k.mark) y) offset).kind = k) :
    (Block.classify (blockLine (blockOpen ++ k.mark) y) offset).inner =
      k.inner (k.mark ++ ' ' :: (y ++ [' '])) := by
  rw [blockLine_eq] at hkind ⊢
  exact inner_classify (padded_cons_concat (by decide) (by decide) y) hkind

theorem no_feed_inner (k : BlockKind) {x : Text} (hx : '\n' ∉ x) : '\n' ∉ k.inner x := by
  have hdedent : ∀ {s : Text}, '\n' ∉ s → '\n' ∉ dedentBody s := by
    intro s hs
    rw [dedentBody, lines_of_no_feed hs]
    exact no_feed_trim hs
  cases k with
  | directive => exact fun h => hx ((Directive.plain_isInfix x).subset h)
  | expression =>
    exact fun h => hx ((List.dropWhile_suffix _).subset ((trimRight_isPrefix _).subset h))
  | declaration => exact hdedent fun h => hx ((dropMarks_isSuffix '!' x).subset h)
  | scriptlet => exact hdedent hx
  | comment => exact hdedent hx

theorem plain_mark {y : Text} (hy : Tight y) : Directive.plain ('@' :: ' ' :: (y ++ [' '])) = y := by
  have hspace : Blank [' '] := Blank.cons (by decide) blank_nil
  have hmark : Solid ['@'] := by decide
  have htrim : trim ('@' :: ' ' :: (y ++ [' '])) = '@' :: trimRight (' ' :: (y ++ [' '])) :=
    trim_append_right hmark (by simp) _
  have hdrop : (trimRight (' ' :: (y ++ [' ']))).dropWhile (· == '@') =
      trimRight (' ' :: (y ++ [' '])) := by
    cases hr : trimRight (' ' :: (y ++ [' '])) with
    | nil => rfl
    | cons c r =>
      have hprefix := trimRight_isPrefix (' ' :: (y ++ [' ']))
      rw [hr] at hprefix
      obtain rfl : c = ' ' := (List.cons_prefix_cons.mp hprefix).1
      exact List.dropWhile_cons_of_neg (by decide)
  rw [Directive.plain, htrim, List.dropWhile_cons_of_pos (by decide), hdrop, trim_trimRight]
  have hy' : ' ' :: (y ++ [' ']) = [' '] ++ (y ++ [' ']) := rfl
  rw [hy', trim_blank_append hspace, trim_append_blank hspace, hy.trim_eq]

theorem inner_expression {y : Text} (hy : Tight y) (hhead : y.head? ≠ some '=') :
    BlockKind.inner .expression ('=' :: ' ' :: (y ++ [' '])) = y := by
  rw [BlockKind.inner, List.dropWhile_cons_of_pos (by decide), List.dropWhile_cons_of_pos (by decide)]
  cases y with
  | nil => rfl
  | cons c y =>
    have hc : ¬(isBlank c || c == '=') = true := by
      have hsolid := hy.1 c rfl
      simpa [hsolid] using hhead
    rw [List.cons_append, List.dropWhile_cons_of_neg (p := fun c => isBlank c || c == '=') hc,
      ← List.cons_append, trimRight_append_blank (Blank.cons (by decide) blank_nil),
      trimRight_of_last hy.2]

theorem tight_inner_expression (x : Text) : Tight (BlockKind.inner .expression x) ∧
    (BlockKind.inner .expression x).head? ≠ some '=' := by
  have hhead : ∀ c ∈ (BlockKind.inner .expression x).head?, (isBlank c || c == '=') = false := by
    intro c hc
    have hstop := List.head?_dropWhile_not (fun c => isBlank c || c == '=') x
    rw [Option.mem_def.mp (mem_head?_of_trimRight hc)] at hstop
    simpa using hstop
  refine ⟨⟨fun c hc => (Bool.or_eq_false_iff.mp (hhead c hc)).1, last_trimRight _⟩, fun h => ?_⟩
  exact absurd (hhead '=' h) (by decide)

/-- Without blank lines at its ends a text begins with a line that is not blank. -/
theorem trimBlankLines_cases (s : Text) : s.trimBlankLines = [] ∨
    ∃ l ls, s.trimBlankLines = unlines (l :: ls) ∧ ¬Blank l ∧ '\n' ∉ l := by
  unfold trimBlankLines
  have hprefix : ((s.lines.dropWhile blank).reverse.dropWhile blank).reverse <+:
      s.lines.dropWhile blank := by
    rw [← List.reverse_suffix, List.reverse_reverse]
    exact List.dropWhile_suffix _
  cases hls : ((s.lines.dropWhile blank).reverse.dropWhile blank).reverse with
  | nil => exact Or.inl rfl
  | cons l ls =>
    rw [hls] at hprefix
    obtain ⟨t, ht⟩ := hprefix
    refine Or.inr ⟨l, ls, rfl, fun hblank => ?_, lines_no_feed s l ?_⟩
    · have := List.head?_dropWhile_not blank s.lines
      rw [← ht] at this
      have : l.blank = false := by simpa using this
      exact (not_blank_iff l).mp this hblank
    · have hmem : l ∈ s.lines.dropWhile blank := by
        rw [← ht]
        exact List.mem_cons_self
      exact (List.dropWhile_suffix _).subset hmem

/-- Blanks stand before the text on its first line at most, and none after it. -/
def Hung (s : Text) : Prop :=
  ∃ w y, s = w ++ y ∧ Blank w ∧ '\n' ∉ w ∧ Tight y ∧ (y = [] → w = [])

theorem Text.Tight.hung {s : Text} (h : Tight s) : Hung s :=
  ⟨[], s, rfl, blank_nil, List.not_mem_nil, h, fun _ => rfl⟩

theorem hung_trimRight_append {l : Text} (hl : ¬Blank l) (hfeed : '\n' ∉ l) (r : Text) :
    Hung (trimRight (l ++ r)) := by
  obtain ⟨w, hw, hlw⟩ := exists_blank_trimLeft l
  have hne : ¬Blank l.trimLeft := fun h => hl (hlw ▸ hw.append h)
  have hrest : ¬Blank (l.trimLeft ++ r) := fun h => hne fun c hc => h c (List.mem_append_left _ hc)
  refine ⟨w, trimRight (l.trimLeft ++ r), ?_, hw, ?_, ⟨?_, last_trimRight _⟩, ?_⟩
  · conv_lhs => rw [hlw]
    rw [List.append_assoc, trimRight_append hrest]
  · intro hmem
    exact hfeed (hlw ▸ List.mem_append_left _ hmem)
  · intro c hc
    have hmem := mem_head?_of_trimRight hc
    have hnil : l.trimLeft ≠ [] := by
      intro h
      exact hne (h ▸ blank_nil)
    rw [List.head?_append_of_ne_nil _ hnil] at hmem
    exact head_trimLeft l c hmem
  · exact fun h => absurd h (trimRight_ne_nil hrest)

theorem hung_trimBlankLines (s : Text) : Hung (trimRight s.trimBlankLines) := by
  rcases trimBlankLines_cases s with hnil | ⟨l, ls, hls, hl, hfeed⟩
  · rw [hnil]
    exact (tight_trim []).hung
  · obtain ⟨r, hr⟩ : ∃ r, unlines (l :: ls) = l ++ r := by
      cases ls with
      | nil => exact ⟨[], by simp [unlines]⟩
      | cons k ls => exact ⟨_, unlines_cons l (by simp)⟩
    rw [hls, hr]
    exact hung_trimRight_append hl hfeed r

theorem hung_dedentBody (x : Text) : Hung (dedentBody x) := by
  unfold dedentBody
  split
  · exact (tight_trim x).hung
  · exact (tight_trim x).hung
  · exact hung_trimBlankLines _

/-- A body that begins with a role mark loses it with the marks before the body. -/
theorem length_solid_dropWhile_mark (t : Text) :
    (solid (('!' :: t ++ [' ']).dropWhile fun d => d == '!' || isIndent d)).length <
      (solid ('!' :: t)).length := by
  have hsuffix : (t ++ [' ']).dropWhile (fun d => d == '!' || isIndent d) <:+ t ++ [' '] :=
    List.dropWhile_suffix _
  have hle := (hsuffix.sublist.filter fun c => !isBlank c).length_le
  have hspace : solid (t ++ [' ']) = t.solid := by
    rw [solid_append, solid_blank_cons (by decide)]
    exact List.append_nil _
  have hmark : solid ('!' :: t) = '!' :: solid t := solid_cons (by decide) t
  rw [List.cons_append, List.dropWhile_cons_of_pos (by decide), hmark, List.length_cons, ← hspace]
  exact Nat.lt_succ_of_le hle

/-- Dropping role marks before a body that is read again drops blanks, or it drops a role mark that the
    body begins with. -/
theorem dropMarks_cases {w y : Text} (hw : Blank w) (hfeed : '\n' ∉ w) (hy : Tight y) (hne : y ≠ []) :
    (∃ w', Blank w' ∧ '\n' ∉ w' ∧ (w = [] → y.head? ≠ some '!') ∧
        dropMarks '!' ('!' :: ' ' :: (w ++ y ++ [' '])) = w' ++ (y ++ [' '])) ∨
      y.head? = some '!' ∧
        (solid (dropMarks '!' ('!' :: ' ' :: (w ++ y ++ [' '])))).length < y.solid.length := by
  have hdrop : dropMarks '!' ('!' :: ' ' :: (w ++ y ++ [' '])) =
      ((' ' :: w) ++ (y ++ [' '])).dropWhile fun d => d == '!' || isIndent d := by
    rw [dropMarks, trimLeft_of_solid_head (by decide)]
    simp
  rw [hdrop, List.dropWhile_append]
  split
  · next hempty =>
    obtain ⟨c, t, rfl⟩ : ∃ c, ∃ t : Text, y = c :: t := List.exists_cons_of_ne_nil hne
    have hc := hy.1 c rfl
    by_cases hmark : c = '!'
    · subst hmark
      exact Or.inr ⟨rfl, length_solid_dropWhile_mark t⟩
    · left
      refine ⟨[], blank_nil, List.not_mem_nil, fun _ => by simpa using hmark, ?_⟩
      have hindent : isIndent c = false := by
        rw [Bool.eq_false_iff]
        intro h
        rw [isBlank_of_isIndent h] at hc
        exact absurd hc (by simp)
      have hstop : ¬(c == '!' || isIndent c) = true := by simp [hmark, hindent]
      exact List.dropWhile_cons_of_neg (p := fun d => d == '!' || isIndent d) hstop
  · next hrest =>
    left
    have hsuffix : (' ' :: w).dropWhile (fun d => d == '!' || isIndent d) <:+ ' ' :: w :=
      List.dropWhile_suffix _
    refine ⟨_, fun c hc => hw.cons (by decide) c (hsuffix.subset hc), fun h => ?_, ?_, rfl⟩
    · rcases List.mem_cons.mp (hsuffix.subset h) with h | h
      · exact absurd h (by decide)
      · exact hfeed h
    · rintro rfl
      exact absurd rfl hrest

/-- The body of code that is read again is the body without its margin, or it lost a role mark that it
    began with. -/
theorem inner_code_cases {k : BlockKind} (hk : k = .scriptlet ∨ k = .declaration) {w y : Text}
    (hw : Blank w) (hfeed : '\n' ∉ w) (hy : Tight y) (hne : y ≠ []) :
    (∃ w', Blank w' ∧ '\n' ∉ w' ∧ (k = .declaration → w = [] → y.head? ≠ some '!') ∧
        k.inner (k.mark ++ ' ' :: (w ++ y ++ [' '])) = dedentBody (w' ++ (y ++ [' ']))) ∨
      (k = .declaration ∧ y.head? = some '!') ∧
        (k.inner (k.mark ++ ' ' :: (w ++ y ++ [' ']))).solid.length < y.solid.length := by
  rcases hk with rfl | rfl
  · left
    refine ⟨' ' :: w, hw.cons (by decide), by simp [hfeed], fun h => absurd h (by decide), ?_⟩
    simp [BlockKind.inner, BlockKind.mark]
  · rcases dropMarks_cases hw hfeed hy hne with ⟨w', hw', hfeed', hhead, hdrop⟩ | ⟨hhead, hlt⟩
    · exact Or.inl ⟨w', hw', hfeed', fun _ => hhead, congrArg dedentBody hdrop⟩
    · right
      refine ⟨⟨rfl, hhead⟩, ?_⟩
      rw [BlockKind.inner, solid_of_marks (marks_dedentBody _)]
      exact hlt

/-! ### Blocks that stay as they are -/

/-- What the formatted block begins with is not taken for blanks or a role mark when it is read
    again. -/
def Block.Firm (style : BlockStyle) (b : Block) : Prop :=
  match b.kind with
  | .directive => style.normalizeDirectives = true → (Directive.normalize b.inner).head? ≠ some '@'
  | .declaration => b.inner.head?.all (fun c => !isBlank c && c != '!') = true
  | .scriptlet => b.inner.head?.all (fun c => !isBlank c) = true
  | _ => True

instance Block.Firm.decidable (style : BlockStyle) : ∀ b : Block, Decidable (b.Firm style)
  | ⟨.directive, _, inner, _⟩ => inferInstanceAs (Decidable
      (style.normalizeDirectives = true → (Directive.normalize inner).head? ≠ some '@'))
  | ⟨.declaration, _, inner, _⟩ =>
    inferInstanceAs (Decidable (inner.head?.all (fun c => !isBlank c && c != '!') = true))
  | ⟨.scriptlet, _, inner, _⟩ =>
    inferInstanceAs (Decidable (inner.head?.all (fun c => !isBlank c) = true))
  | ⟨.expression, _, _, _⟩ | ⟨.comment, _, _, _⟩ => .isTrue trivial

/-- Placed at `base`, the block `b` as formatted is formatted again to `r`: that brings in no line
    feed, and placed again it is the same exactly when the block is firm and blank lines have no say in
    the indentation that its interior lines share. -/
structure Settles (style : BlockStyle) (base pad : Text) (b : Block) (r : Text) : Prop where
  no_feed : '\n' ∉ blockText style b → '\n' ∉ r
  iff : indentBlock r base pad [] = indentBlock (blockText style b) base pad [] ↔
    b.Firm style ∧ Flush (blockText style b).interior

section

variable {style : BlockStyle} {base pad : Text} (hbase : base.all isIndent = true)
  (hpad : pad.all isIndent = true)

include hbase hpad

/-- A firm block that is formatted to what is placed already settles. -/
theorem settles_of_firm {b : Block} (hfirm : b.Firm style) :
    Settles style base pad b (indentBlock (blockText style b) base pad []) where
  no_feed := fun h => by
    rw [indentBlock_of_no_feed h]
    exact no_feed_trim h
  iff := by
    rw [indentBlock_indentBlock_iff hbase hpad]
    simp [hfirm]

/-- The delimiters of a block stay where they are around its body. -/
theorem indentBlock_blockLine (k : BlockKind) {w y : Text} (hw : '\n' ∉ w) (hy : Tight y) :
    indentBlock (blockLine (blockOpen ++ k.mark) (w ++ y)) base pad [] =
        blockLine (blockOpen ++ k.mark) (w ++ indentBlock y base pad []) ∧
      (blockLine (blockOpen ++ k.mark) (w ++ y)).interior = y.interior := by
  obtain ⟨⟨hopen, -⟩, -, -⟩ := k.open_mark
  have hline : ∀ z : Text, blockLine (blockOpen ++ k.mark) (w ++ z) =
      (blockOpen ++ k.mark ++ ' ' :: w) ++ (z ++ ' ' :: blockClose) := by simp [blockLine]
  rw [hline, hline]
  refine indentBlock_between ?_ (by simp [blockOpen]) ?_ (by decide) (by simp) ?_ hy hbase hpad
  · intro h
    rcases List.mem_append.mp h with h | h
    · exact absurd (hopen _ h) (by decide)
    · rcases List.mem_cons.mp h with h | h
      · exact absurd h (by decide)
      · exact hw h
  · intro c hc
    obtain rfl : '<' = c := by simpa [blockOpen] using hc
    decide
  · intro c hc
    obtain rfl : '>' = c := by simpa [blockClose] using hc
    decide

/-- A body that is changed otherwise than in its blanks is not placed as before. -/
theorem solid_eq_of_placed (k : BlockKind) {r y z : Text}
    (hr : r.solid = (blockOpen ++ k.mark).solid ++ (z.solid ++ blockClose))
    (h : indentBlock r base pad [] = blockLine (blockOpen ++ k.mark) y) : z.solid = y.solid := by
  have hsolid := solid_of_marks (marks_indentBlock (blank_of_all_isIndent hbase)
    (blank_of_all_isIndent hpad) blank_nil r)
  rw [h, hr, solid_blockLine] at hsolid
  exact (List.append_cancel_right (List.append_cancel_left hsolid)).symm

theorem settles_comment {b : Block} (hb : b.kind = .comment) {offset : Int}
    (hkind : (Block.classify (indentBlock (blockText style b) base pad []) offset).kind = .comment) :
    Settles style base pad b
      (blockText style (Block.classify (indentBlock (blockText style b) base pad []) offset)) := by
  have hfirm : b.Firm style := by
    rw [Block.Firm, hb]
    trivial
  have hagain := settles_of_firm hbase hpad hfirm
  generalize indentBlock (blockText style b) base pad [] = t at hkind hagain ⊢
  rw [blockText, hkind]
  dsimp only
  rwa [Block.raw_classify]

/-- A body without blanks around it is placed between the delimiters as it is placed on its own. -/
theorem placed_of_blockLine {b : Block} (k : BlockKind) {y : Text} (hy : Tight y)
    (htext : blockText style b = blockLine (blockOpen ++ k.mark) y) :
    indentBlock (blockText style b) base pad [] =
      blockLine (blockOpen ++ k.mark) (indentBlock y base pad []) := by
  rw [htext]
  exact (indentBlock_blockLine hbase hpad k List.not_mem_nil hy).1

theorem settles_expression {b : Block} (hb : b.kind = .expression) {x : Text}
    (hinner : b.inner = BlockKind.inner .expression x) {offset : Int}
    (hkind : (Block.classify (indentBlock (blockText style b) base pad []) offset).kind =
      .expression) :
    Settles style base pad b
      (blockText style (Block.classify (indentBlock (blockText style b) base pad []) offset)) := by
  have hfirm : b.Firm style := by
    rw [Block.Firm, hb]
    trivial
  obtain ⟨hy, hhead⟩ := tight_inner_expression x
  rw [← hinner] at hy hhead
  have htext : blockText style b = blockLine (blockOpen ++ BlockKind.mark .expression) b.inner := by
    rw [blockText, hb]
    dsimp only
    rw [hy.trim_eq]
    rfl
  have hagain := settles_of_firm hbase hpad hfirm
  have hreflowed := reflowed_indentBlock (blank_of_all_isIndent hbase) (blank_of_all_isIndent hpad) hy
  rw [placed_of_blockLine hbase hpad .expression hy htext] at hkind hagain ⊢
  have hinner' := (inner_classify_blockLine hkind).trans
    (inner_expression (hreflowed.tight hy) (by rwa [hreflowed.head?_eq hy.1]))
  rw [blockText, hkind]
  dsimp only
  rw [hinner', (hreflowed.tight hy).trim_eq]
  exact hagain

/-- A directive whose normal form begins with a role mark loses it when it is normalized again. -/
theorem settles_directive_of_mark {b : Block} (hb : b.kind = .directive)
    (hnormal : style.normalizeDirectives = true) {y : Text} (hform : Directive.normalize b.inner = y)
    (hhead : y.head? = some '@')
    (htext : blockText style b = blockLine (blockOpen ++ BlockKind.mark .directive) y) :
    Settles style base pad b (blockLine (blockOpen ++ BlockKind.mark .directive)
      (Directive.normalize (indentBlock y base pad []))) := by
  have hy : Tight y := hform ▸ Directive.tight_normalize b.inner
  have hreflowed := reflowed_indentBlock (blank_of_all_isIndent hbase) (blank_of_all_isIndent hpad) hy
  have hhead' : (indentBlock y base pad []).head? = some '@' := by
    rw [hreflowed.head?_eq hy.1, hhead]
  refine ⟨fun hfeed => ?_, iff_of_false (fun h => ?_) fun h => ?_⟩
  · rw [htext, mem_blockLine] at hfeed
    rw [indentBlock_of_no_feed hfeed]
    exact mt (mem_blockLine .directive _).mp (Directive.no_feed_normalize (no_feed_trim hfeed))
  · rw [placed_of_blockLine hbase hpad .directive hy htext] at h
    exact Directive.solid_normalize_ne (hreflowed.tight hy) hhead'
      (solid_eq_of_placed hbase hpad .directive (solid_blockLine _ _) h)
  · have hfirm := h.1
    rw [Block.Firm, hb] at hfirm
    exact hfirm hnormal (by rw [hform, hhead])

theorem settles_directive {b : Block} (hb : b.kind = .directive) {x : Text}
    (hinner : b.inner = Directive.plain x) {offset : Int}
    (hkind : (Block.classify (indentBlock (blockText style b) base pad []) offset).kind =
      .directive) :
    Settles style base pad b
      (blockText style (Block.classify (indentBlock (blockText style b) base pad []) offset)) := by
  obtain ⟨y, hform⟩ :
      ∃ y, (if style.normalizeDirectives then Directive.normalize b.inner else b.inner) = y := ⟨_, rfl⟩
  have hy : Tight y := by
    rw [← hform]
    split
    · exact Directive.tight_normalize b.inner
    · rw [hinner]
      exact tight_trim _
  have htext : blockText style b = blockLine (blockOpen ++ BlockKind.mark .directive) y := by
    rw [blockText, hb]
    dsimp only
    rw [hform]
    rfl
  have hplaced := placed_of_blockLine hbase hpad .directive hy htext
  have hreflowed := reflowed_indentBlock (blank_of_all_isIndent hbase) (blank_of_all_isIndent hpad) hy
  have hsettled : b.Firm style → Settles style base pad b
      (blockLine (blockOpen ++ BlockKind.mark .directive) (indentBlock y base pad [])) := by
    intro hfirm
    rw [← hplaced]
    exact settles_of_firm hbase hpad hfirm
  rw [hplaced] at hkind ⊢
  have hinner' := (inner_classify_blockLine hkind).trans (plain_mark (hreflowed.tight hy))
  rw [blockText, hkind]
  dsimp only
  rw [hinner']
  by_cases hnormal : style.normalizeDirectives = true
  · rw [if_pos hnormal] at hform ⊢
    by_cases hhead : y.head? = some '@'
    · exact settles_directive_of_mark hbase hpad hb hnormal hform hhead htext
    · subst hform
      rw [Directive.normalize_of_reflowed hreflowed (hreflowed.tight hy) hhead]
      refine hsettled ?_
      rw [Block.Firm, hb]
      exact fun _ => hhead
  · rw [if_neg hnormal]
    refine hsettled ?_
    rw [Block.Firm, hb]
    exact fun h => absurd h hnormal

section

variable {b : Block} (hb : b.kind = .scriptlet ∨ b.kind = .declaration)

include hb

omit hbase hpad in
theorem blockText_code_of_blank (hblank : Blank b.inner) :
    blockText style b = blockOpen ++ b.kind.mark ++ ' ' :: blockClose := by
  rw [blockText_code hb, if_pos ((blank_iff _).mpr hblank)]
  rcases hb with hb | hb <;> rw [hb] <;> rfl

omit hbase hpad in
theorem blockText_code_of_off (hmode : style.mode = .off) (hblank : ¬Blank b.inner) :
    blockText style b = blockLine (blockOpen ++ b.kind.mark) b.inner := by
  rw [blockText_code hb, if_neg fun h => hblank ((blank_iff _).mp h), if_pos hmode]
  rcases hb with hb | hb <;> rw [hb] <;> rfl

omit hbase hpad in
theorem solid_blockText_code (hmode : style.mode = .off) : (blockText style b).solid =
    (blockOpen ++ b.kind.mark).solid ++ (b.inner.solid ++ blockClose) := by
  by_cases hblank : Blank b.inner
  · have hclose : blockClose.solid = blockClose := by decide
    rw [blockText_code_of_blank hb hblank, solid_append, solid_blank_cons (by decide), hclose,
      hblank.solid_eq, List.nil_append]
  · rw [blockText_code_of_off hb hmode hblank, solid_blockLine]

omit hbase hpad in
theorem no_feed_blockText_code (hmode : style.mode = .off) (h : '\n' ∉ b.inner) :
    '\n' ∉ blockText style b := by
  by_cases hblank : Blank b.inner
  · rw [blockText_code_of_blank hb hblank]
    rcases hb with hb | hb <;> rw [hb] <;> decide
  · rwa [blockText_code_of_off hb hmode hblank, mem_blockLine]

end

/-- A block of code is read again without the blanks at its start. -/
theorem settles_code_of_kept {b b' : Block} (hb : b'.kind = .scriptlet ∨ b'.kind = .declaration)
    (hkind : b'.kind = b.kind) (hmode : style.mode = .off) {w w' y : Text} (hw : Blank w)
    (hfeed : '\n' ∉ w) (hy : Tight y) (hne : y ≠ [])
    (htext : blockText style b = blockLine (blockOpen ++ b.kind.mark) (w ++ y)) (hw' : Blank w')
    (hfeed' : '\n' ∉ w') (hinner : b'.inner = dedentBody (w' ++ (indentBlock y base pad [] ++ [' '])))
    (hfirm : b.Firm style ↔ w = []) : Settles style base pad b (blockText style b') := by
  obtain ⟨z, hz, ⟨htight, hznil⟩, hline, hiff⟩ :=
    exists_dedentBody_indentBlock hbase hpad hw' hfeed' hy hne
  rw [hz] at hinner
  have hagain : blockText style b' = blockLine (blockOpen ++ b.kind.mark) ([] ++ z) := by
    rw [blockText_code_of_off hb hmode (hinner ▸ not_blank_of_head hznil htight.1), hinner, hkind]
    rfl
  obtain ⟨hplaced, hinterior⟩ := indentBlock_blockLine hbase hpad b.kind hfeed hy
  obtain ⟨hplaced', -⟩ := indentBlock_blockLine hbase hpad b.kind List.not_mem_nil htight
  rw [hagain]
  constructor
  · rw [htext, mem_blockLine, mem_blockLine]
    intro h
    rw [hline fun hmem => h (List.mem_append_right _ hmem)]
    exact fun hmem => h (List.mem_append_right _ hmem)
  · have hinj : ∀ {u v : Text}, blockLine (blockOpen ++ b.kind.mark) u =
        blockLine (blockOpen ++ b.kind.mark) v ↔ u = v := by simp [blockLine]
    have hhead := (reflowed_indentBlock (blank_of_all_isIndent hbase) (blank_of_all_isIndent hpad)
      htight).tight htight
    rw [hplaced', htext, hplaced, hinterior, hfirm, List.nil_append, hinj, ← hiff]
    constructor
    · intro h
      obtain rfl : w = [] := by
        by_contra hwnil
        rw [h] at hhead
        exact not_blank_of_head hwnil hhead.head_of_append hw
      exact ⟨rfl, h⟩
    · rintro ⟨rfl, h⟩
      exact h

/-- A block of code that is read again with less in it than blanks is not placed as before. -/
theorem settles_code_of_lost {b b' : Block} (hb : b'.kind = .scriptlet ∨ b'.kind = .declaration)
    (hkind : b'.kind = b.kind) (hmode : style.mode = .off) {z : Text}
    (hplaced : indentBlock (blockText style b) base pad [] = blockLine (blockOpen ++ b.kind.mark) z)
    (hlt : b'.inner.solid.length < z.solid.length)
    (hfeed : '\n' ∉ blockText style b → '\n' ∉ b'.inner) (hfirm : ¬b.Firm style) :
    Settles style base pad b (blockText style b') := by
  refine ⟨fun h => no_feed_blockText_code hb hmode (hfeed h), iff_of_false (fun h => ?_) fun h =>
    hfirm h.1⟩
  have hsolid := solid_blockText_code hb hmode
  rw [hkind] at hsolid
  rw [hplaced] at h
  rw [solid_eq_of_placed hbase hpad b.kind hsolid h] at hlt
  exact lt_irrefl _ hlt

omit hbase hpad in
theorem firm_code_iff (style : BlockStyle) {b : Block}
    (hb : b.kind = .scriptlet ∨ b.kind = .declaration) {w y : Text} (hinner : b.inner = w ++ y)
    (hw : Blank w) (hy : Tight y) (hne : y ≠ []) :
    b.Firm style ↔ w = [] ∧ (b.kind = .declaration → y.head? ≠ some '!') := by
  obtain ⟨c, t, rfl⟩ : ∃ c, ∃ t : Text, y = c :: t := List.exists_cons_of_ne_nil hne
  have hc := hy.1 c rfl
  cases w with
  | nil => rcases hb with hb | hb <;> simp [Block.Firm, hb, hinner, hc]
  | cons d w =>
    have hd := hw d List.mem_cons_self
    rcases hb with hb | hb <;> simp [Block.Firm, hb, hinner, hd]

/-- Code that is blank is written as a block with nothing in it, and that stays as it is. -/
theorem settles_code_of_nil {b : Block} (hb : b.kind = .scriptlet ∨ b.kind = .declaration)
    (hinner : b.inner = []) {offset : Int}
    (hkind : (Block.classify (indentBlock (blockText style b) base pad []) offset).kind = b.kind) :
    Settles style base pad b
      (blockText style (Block.classify (indentBlock (blockText style b) base pad []) offset)) := by
  have hfirm : b.Firm style := by rcases hb with hb | hb <;> simp [Block.Firm, hb, hinner]
  have hagain := settles_of_firm hbase hpad hfirm
  have htext : blockText style b = blockOpen ++ ((b.kind.mark ++ [' ']) ++ blockClose) := by
    rw [blockText_code_of_blank hb (hinner ▸ blank_nil)]
    simp
  have hplaced : indentBlock (blockText style b) base pad [] = blockText style b := by
    rw [htext]
    rcases hb with hb | hb <;> rw [hb] <;> rfl
  rw [hplaced] at hkind hagain ⊢
  have hinner' : (Block.classify (blockText style b) offset).inner = [] := by
    rw [htext] at hkind ⊢
    rw [inner_classify (padded_singleton (by decide) blank_nil) hkind]
    rcases hb with hb | hb <;> rw [hb] <;> rfl
  have hsame : blockText style (Block.classify (blockText style b) offset) = blockText style b := by
    rw [blockText_code_of_blank (by rwa [hkind]) (hinner' ▸ blank_nil), hkind,
      ← blockText_code_of_blank hb (hinner ▸ blank_nil)]
  rw [hsame]
  exact hagain

theorem settles_code {b : Block} (hb : b.kind = .scriptlet ∨ b.kind = .declaration)
    (hmode : style.mode = .off) {x : Text} (hinner : b.inner = dedentBody x) {offset : Int}
    (hkind : (Block.classify (indentBlock (blockText style b) base pad []) offset).kind = b.kind) :
    Settles style base pad b
      (blockText style (Block.classify (indentBlock (blockText style b) base pad []) offset)) := by
  obtain ⟨w, y, hwy, hw, hfeed, hy, hnil⟩ := hung_dedentBody x
  rw [← hinner] at hwy
  by_cases hne : y = []
  · exact settles_code_of_nil hbase hpad hb (by rw [hwy, hne, hnil hne]; rfl) hkind
  have htext : blockText style b = blockLine (blockOpen ++ b.kind.mark) (w ++ y) := by
    rw [blockText_code_of_off hb hmode, hwy]
    rw [hwy]
    exact not_blank_append (not_blank_of_head hne hy.1) w
  have hplaced := (indentBlock_blockLine hbase hpad b.kind hfeed hy).1
  have hreflowed := reflowed_indentBlock (blank_of_all_isIndent hbase) (blank_of_all_isIndent hpad) hy
  have hhead := hreflowed.head?_eq hy.1
  have hfirm := firm_code_iff style hb hwy hw hy hne
  rw [← hhead] at hfirm
  have hne' : indentBlock y base pad [] ≠ [] := by
    intro h
    rw [h] at hhead
    exact hne (List.head?_eq_none_iff.mp hhead.symm)
  rw [← htext] at hplaced
  have hread := hkind
  rw [hplaced] at hread
  have hinner' := inner_classify_blockLine hread
  rw [← hplaced] at hinner'
  have hb' := hb
  rw [← hkind] at hb'
  rcases inner_code_cases hb hw hfeed (hreflowed.tight hy) hne' with
    ⟨w', hw', hfeed', hkept, hkept'⟩ | ⟨⟨hdecl, hmark⟩, hlt⟩
  · rw [hkept'] at hinner'
    refine settles_code_of_kept hbase hpad hb' hkind hmode hw hfeed hy hne htext hw' hfeed' hinner'
      (hfirm.trans ?_)
    exact ⟨fun h => h.1, fun h => ⟨h, fun hdecl => hkept hdecl h⟩⟩
  · refine settles_code_of_lost hbase hpad hb' hkind hmode hplaced ?_ (fun hnone => ?_) fun h =>
      (hfirm.mp h).2 hdecl hmark
    · rwa [hinner', solid_append, hw.solid_eq, List.nil_append]
    · rw [htext, mem_blockLine, List.mem_append, not_or] at hnone
      have hmark' : '\n' ∉ b.kind.mark := by rw [hdecl]; decide
      rw [hinner', indentBlock_of_no_feed hnone.2]
      refine no_feed_inner _ ?_
      simp [hmark', hnone.1, no_feed_trim hnone.2]

omit hbase hpad in
theorem IsBlock.inner_classify {rest raw : Text} (h : IsBlock rest raw) (offset : Int)
    (hkind : (Block.classify raw offset).kind ≠ .comment) :
    ∃ x, (Block.classify raw offset).inner = (Block.classify raw offset).kind.inner x := by
  cases h with
  | comment _ =>
    rw [Block.classify_comment] at hkind
    exact absurd rfl hkind
  | plain _ hdash =>
    rw [Block.classify_eq (commentBody?_of_dash hdash)]
    exact ⟨_, rfl⟩

/-- Formatted and placed again without changes to the code, a formatted and placed block is the same
    exactly when it is firm and blank lines have no say in the indentation that its interior lines
    share. -/
theorem settles_classify (hmode : style.mode = .off) (hunit : Blank style.unit) {rest raw : Text}
    (hraw : IsBlock rest raw) (offset offset' : Int) :
    Settles style base pad (Block.classify raw offset) (blockText style (Block.classify
      (indentBlock (blockText style (Block.classify raw offset)) base pad []) offset')) := by
  have hrelaid := relaid_indentBlock (blank_of_all_isIndent hbase) (blank_of_all_isIndent hpad)
    (blockText style (Block.classify raw offset))
  have hkind := ((redone_blockText hunit hraw hrelaid).kept offset offset').1
  have hinner := hraw.inner_classify offset
  cases hb : (Block.classify raw offset).kind with
  | comment => exact settles_comment hbase hpad hb (hkind.trans hb)
  | expression =>
    obtain ⟨x, hx⟩ := hinner (by simp [hb])
    exact settles_expression hbase hpad hb (hb ▸ hx) (hkind.trans hb)
  | directive =>
    obtain ⟨x, hx⟩ := hinner (by simp [hb])
    exact settles_directive hbase hpad hb (hb ▸ hx) (hkind.trans hb)
  | scriptlet =>
    obtain ⟨x, hx⟩ := hinner (by simp [hb])
    rw [hb] at hx
    exact settles_code hbase hpad (Or.inl hb) hmode hx hkind
  | declaration =>
    obtain ⟨x, hx⟩ := hinner (by simp [hb])
    rw [hb] at hx
    exact settles_code hbase hpad (Or.inr hb) hmode hx hkind

end

end JspLayout
