import JspLayout.Proofs.Pages
import JspLayout.Page.Directive

/-! Block bodies.

    Taking a body out of its block and bringing it into form moves blanks, drops role marks and, in a
    directive, reorders attributes. Main statements: the body of a block without its margin has the
    lines it had, blanks around each apart, and so the marks it had, and whatever a directive in
    canonical form holds without a quote or an equals sign was in the directive before. What a block is
    for and what it says can be told from its source without the blanks. -/

namespace JspLayout

open Text

/-! ### Margins -/

namespace Text

/-- The margin is no wider than the indentation of a line that is not blank. -/
theorem exists_margin?_le {l : Text} (hl : l.blank = false) : ∀ {ls : List Text}, l ∈ ls →
    ∃ m, margin? ls = some m ∧ m ≤ l.indent.length
  | l' :: ls, hmem => by
    rw [margin?]
    rcases List.mem_cons.mp hmem with rfl | hmem
    · rw [if_neg (by simp [hl])]
      cases margin? ls with
      | none => exact ⟨_, rfl, le_rfl⟩
      | some m => exact ⟨_, rfl, Nat.min_le_left ..⟩
    · obtain ⟨m, hm, hle⟩ := exists_margin?_le hl hmem
      rw [hm]
      split
      · exact ⟨m, rfl, hle⟩
      · exact ⟨_, rfl, (Nat.min_le_right ..).trans hle⟩

section

variable {m : Nat} {l : Text} (h : l.blank = false → m ≤ l.indent.length)

include h

theorem trim_dedentInterior : trim (dedentInterior m l) = l.trim := by
  unfold dedentInterior
  split
  · next hl => rw [trim_blank blank_nil, trim_blank ((blank_iff l).mp hl)]
  · next hl => exact trim_drop_indent (h (Bool.eq_false_iff.mpr hl))

theorem trim_dedentEdge : trim (dedentEdge m l) = l.trim := by
  unfold dedentEdge
  split
  · rfl
  · next hl => exact trim_drop_indent (h (Bool.eq_false_iff.mpr hl))

end

/-- The last line is an edge, and all before it lie between the edges. -/
theorem dedentRest_eq_mapIdx (m : Nat) : ∀ ls : List Text, dedentRest m ls =
    ls.mapIdx fun i l => if i + 1 = ls.length then dedentEdge m l else dedentInterior m l
  | [] => rfl
  | [_] => rfl
  | l :: l' :: ls => by
    rw [List.mapIdx_cons, dedentRest, dedentRest_eq_mapIdx m (l' :: ls)]
    · simp only [List.length_cons, Nat.add_right_cancel_iff]
      rfl
    · simp

/-- Each line loses its margin by itself, as an edge of the text or between the edges. -/
theorem dedentLines_eq_mapIdx (m : Nat) (ls : List Text) : dedentLines m ls =
    ls.mapIdx fun i l => if i = 0 ∨ i + 1 = ls.length then dedentEdge m l else dedentInterior m l := by
  cases ls with
  | nil => rfl
  | cons l ls =>
    rw [dedentLines, dedentRest_eq_mapIdx, List.mapIdx_cons]
    simp

/-- What can be told of each line alone can be told of all lines. -/
theorem map_dedentLines {α : Type} {f g : Text → α} {m : Nat} {ls : List Text}
    (h : ∀ l ∈ ls, f (dedentEdge m l) = g l ∧ f (dedentInterior m l) = g l) :
    (dedentLines m ls).map f = ls.map g := by
  rw [dedentLines_eq_mapIdx]
  refine List.ext_getElem (by simp) fun i _ hi => ?_
  rw [List.length_map] at hi
  obtain ⟨hedge, hinterior⟩ := h ls[i] (List.getElem_mem hi)
  rw [List.getElem_map, List.getElem_map, List.getElem_mapIdx]
  split
  · exact hedge
  · exact hinterior

/-- What is left of a line is an end of it. -/
theorem suffix_of_mem_dedentLines {m : Nat} {k : Text} {ls : List Text} (h : k ∈ dedentLines m ls) :
    ∃ l ∈ ls, k <:+ l := by
  rw [dedentLines_eq_mapIdx, List.mem_mapIdx] at h
  obtain ⟨i, hi, rfl⟩ := h
  refine ⟨ls[i], List.getElem_mem hi, ?_⟩
  unfold dedentEdge dedentInterior
  split_ifs
  · exact List.suffix_rfl
  · exact List.drop_suffix m _
  · exact List.nil_suffix
  · exact List.drop_suffix m _

theorem no_feed_dedentLines (m : Nat) (s : Text) : ∀ k ∈ dedentLines m s.lines, '\n' ∉ k := by
  intro k hk hfeed
  obtain ⟨l, hl, hsuffix⟩ := suffix_of_mem_dedentLines hk
  exact lines_no_feed s l hl (hsuffix.subset hfeed)

/-- A text without its margin has the lines it had, blanks around each apart. -/
theorem inkedLines_stripMargin (s : Text) : s.stripMargin.inkedLines = s.inkedLines := by
  unfold stripMargin
  split
  · rfl
  · rfl
  · next m _ hm =>
    have h : ∀ l ∈ s.lines, l.blank = false → m ≤ l.indent.length := by
      intro l hl hblank
      obtain ⟨m', hm', hle⟩ := exists_margin?_le hblank hl
      rw [hm, Option.some.injEq] at hm'
      exact hm' ▸ hle
    rw [inkedLines_unlines (no_feed_dedentLines m s), inkedLines, trimmed, trimmed,
      map_dedentLines fun l hl => ⟨trim_dedentEdge (h l hl), trim_dedentInterior (h l hl)⟩]

theorem inkedLines_trimBlankLines (s : Text) : s.trimBlankLines.inkedLines = s.inkedLines := by
  have hf : ∀ l ∈ ((s.lines.dropWhile blank).reverse.dropWhile blank).reverse, '\n' ∉ l := by
    intro l hl
    have hmem := (List.dropWhile_suffix _).subset (List.mem_reverse.mp hl)
    exact lines_no_feed s l ((List.dropWhile_suffix _).subset (List.mem_reverse.mp hmem))
  rw [trimBlankLines, inkedLines_unlines hf, trimmed_reverse, trimmed_dropWhile_blank, trimmed_reverse,
    List.reverse_reverse, trimmed_dropWhile_blank]
  rfl

/-- A body without its margin has the lines it had, blanks around each apart. -/
theorem inkedLines_dedentBody (body : Text) : body.dedentBody.inkedLines = body.inkedLines := by
  have hfeed := lines_no_feed body
  unfold dedentBody
  split
  · next hlines => exact absurd hlines (lines_ne_nil body)
  · next l hlines =>
    obtain rfl : body = l := by
      rw [← unlines_lines body, hlines]
      rfl
    have hbody : '\n' ∉ body := hfeed body (by rw [hlines]; exact List.mem_cons_self)
    have htrim : '\n' ∉ body.trim := fun h => hbody ((trim_isInfix body).subset h)
    rw [inkedLines, inkedLines, hlines, lines_of_no_feed htrim, trimmed_singleton, trim_trim,
      ← trimmed_singleton]
  · next first rest hne hlines =>
    rw [hlines] at hfeed
    obtain ⟨hfirst, hrest⟩ := List.forall_mem_cons.mp hfeed
    have hstrip : (stripMargin (unlines rest)).inkedLines = trimmed rest := by
      rw [inkedLines_stripMargin, inkedLines_unlines hrest]
    have hbody : body.inkedLines = trimmed [first] ++ trimmed rest := by
      rw [inkedLines, hlines, trimmed_cons]
    rw [inkedLines_trimRight, inkedLines_trimBlankLines, hbody, trimmed_singleton]
    split
    · next hblank =>
      rw [hstrip, if_pos (trim_blank ((blank_iff first).mp hblank)), List.nil_append]
    · have htrim : '\n' ∉ first.trim := fun h => hfirst ((trim_isInfix first).subset h)
      rw [inkedLines, lines_append_feed htrim, trimmed_cons, trimmed_singleton, trim_trim, ← inkedLines,
        hstrip]

theorem marks_stripMargin (s : Text) : marks s.stripMargin = marks s :=
  marks_of_inkedLines (inkedLines_stripMargin s)

theorem marks_trimBlankLines (s : Text) : marks s.trimBlankLines = marks s :=
  marks_of_inkedLines (inkedLines_trimBlankLines s)

/-- A body without its margin has the marks it had. -/
theorem marks_dedentBody (body : Text) : marks body.dedentBody = marks body :=
  marks_of_inkedLines (inkedLines_dedentBody body)

end Text

/-! ### What is looked for in a page -/

/-- A text that is looked for in a page: it has no blank, no quote and no equals sign. -/
structure Sought (p : Text) : Prop where
  solid : Solid p
  ne_nil : p ≠ []
  bare : '"' ∉ p ∧ '\'' ∉ p ∧ '=' ∉ p

theorem sought_blockClose : Sought blockClose := ⟨by decide, by decide, by decide⟩

theorem sought_commentClose : Sought commentClose := ⟨by decide, by decide, by decide⟩

/-- All that is looked for in a page and occurs in `y` occurs in `x`. -/
def Within (y x : Text) : Prop := ∀ p, Sought p → p <:+: y → p <:+: x

theorem within_of_isInfix {y x : Text} (h : y <:+: x) : Within y x := fun _ _ hp => hp.trans h

theorem within_of_looser {y x : Text} (h : Looser (marks x) (marks y)) : Within y x :=
  fun _ hp hy => h.isInfix_of_isInfix hp.solid hy

theorem Within.trans {z y x : Text} (hzy : Within z y) (hyx : Within y x) : Within z x :=
  fun p hp hz => hyx p hp (hzy p hp hz)

/-! ### Directives -/

namespace Directive

theorem plain_isInfix (inner : Text) : plain inner <:+: inner :=
  (trim_isInfix _).trans ((List.dropWhile_suffix _).isInfix.trans (trim_isInfix inner))

theorem trimLeft_isSuffix (s : Text) : s.trimLeft <:+ s := List.dropWhile_suffix _

theorem takeWhile_isInfix (f : Char → Bool) (s : Text) : s.takeWhile f <:+: s :=
  have h : s.takeWhile f <+: s := List.takeWhile_prefix f
  h.isInfix

/-- A value and what follows it are parts of the text. -/
theorem isInfix_of_value? {s v rest : Text} (h : value? s = some (v, rest)) :
    v <:+: s ∧ rest <:+ s := by
  have hcut : ∀ {c : Char} {r : Text}, cut? [c] r = some (v, rest) →
      v <:+: c :: r ∧ rest <:+ c :: r := by
    intro c r h
    rw [eq_append_of_cut? h]
    exact ⟨⟨[c], [c] ++ rest, by simp⟩, ⟨c :: (v ++ [c]), by simp⟩⟩
  unfold value? at h
  split at h
  · exact hcut h
  · exact hcut h
  · split at h
    · exact absurd h (by simp)
    · simp only [Option.some.injEq, Prod.mk.injEq] at h
      obtain ⟨rfl, rfl⟩ := h
      exact ⟨takeWhile_isInfix _ _, List.dropWhile_suffix _⟩

/-- An attribute and what follows it are parts of the text. -/
theorem isInfix_of_attribute? {s rest : Text} {a : Attribute} (h : attribute? s = some (a, rest)) :
    a.key <:+: s ∧ a.value <:+: s ∧ rest <:+ s := by
  unfold attribute? at h
  split at h
  · exact absurd h (by simp)
  · next k key r hk hr =>
    obtain ⟨⟨v, rest'⟩, hv, he⟩ := Option.map_eq_some_iff.mp h
    simp only [Prod.mk.injEq] at he
    obtain ⟨rfl, rfl⟩ := he
    have hsuffix : trimLeft r <:+ s :=
      (trimLeft_isSuffix r).trans ((List.suffix_cons '=' r).trans
        (hr ▸ (trimLeft_isSuffix _).trans (List.dropWhile_suffix _)))
    obtain ⟨hvalue, hrest⟩ := isInfix_of_value? hv
    refine ⟨hk ▸ takeWhile_isInfix _ _, hvalue.trans hsuffix.isInfix, hrest.trans hsuffix⟩
  · exact absurd h (by simp)

theorem isInfix_of_mem_attributesOf {a : Attribute} (s : Text) (h : a ∈ attributesOf (items s)) :
    a.key <:+: s ∧ a.value <:+: s := by
  fun_induction items s with
  | case1 => simp [attributesOf] at h
  | case2 c r a' rest hattr ih =>
    obtain ⟨hkey, hvalue, hrest⟩ := isInfix_of_attribute? hattr
    have h : a ∈ a' :: attributesOf (items rest) := h
    rcases List.mem_cons.mp h with rfl | hmem
    · exact ⟨hkey, hvalue⟩
    · obtain ⟨hk, hv⟩ := ih hmem
      exact ⟨hk.trans hrest.isInfix, hv.trans hrest.isInfix⟩
  | case3 c r hattr ih =>
    have h : a ∈ attributesOf (items r) := h
    obtain ⟨hk, hv⟩ := ih h
    exact ⟨List.infix_cons hk, List.infix_cons hv⟩

theorem isInfix_of_render {p : Text} (hp : Sought p) {a : Attribute} (h : p <:+: a.render) :
    p <:+: a.key ∨ p <:+: a.value := by
  have hquoted : ∀ q, q ∉ p → p <:+: a.key ++ ['=', q] ++ a.value ++ [q] →
      p <:+: a.key ∨ p <:+: a.value := by
    intro q hq h
    rw [show a.key ++ ['=', q] ++ a.value ++ [q] = a.key ++ '=' :: ([] ++ q :: (a.value ++ q :: []))
      by simp] at h
    rcases infix_append_cons hp.bare.2.2 h with h | h
    · exact Or.inl h
    rcases infix_append_cons hq h with h | h
    · exact absurd (List.infix_nil.mp h) hp.ne_nil
    rcases infix_append_cons hq h with h | h
    · exact Or.inr h
    · exact absurd (List.infix_nil.mp h) hp.ne_nil
  unfold Attribute.render at h
  split at h
  · exact hquoted '\'' hp.bare.2.1 h
  · exact hquoted '"' hp.bare.1 h

theorem isInfix_of_join {p : Text} (hp : Sought p) : ∀ {parts : List Text},
    p <:+: Text.join [' '] parts → ∃ t ∈ parts, p <:+: t
  | [], h => absurd (List.infix_nil.mp h) hp.ne_nil
  | [t], h => ⟨t, List.mem_cons_self, by simpa [Text.join] using h⟩
  | t :: t' :: parts, h => by
    have hjoin : Text.join [' '] (t :: t' :: parts) = t ++ ' ' :: Text.join [' '] (t' :: parts) := by
      simp [Text.join, List.intercalate, List.intersperse]
    rw [hjoin] at h
    rcases infix_append_cons (fun hm => absurd (hp.solid _ hm) (by decide)) h with h | h
    · exact ⟨t, List.mem_cons_self, h⟩
    · obtain ⟨u, hu, h⟩ := isInfix_of_join hp h
      exact ⟨u, List.mem_cons_of_mem _ hu, h⟩

/-- The canonical form of a directive brings nothing together that was apart. -/
theorem within_normalize (inner : Text) : Within (normalize inner) inner := by
  refine Within.trans ?_ (within_of_isInfix (plain_isInfix inner))
  unfold normalize
  dsimp only
  split
  · exact fun _ _ h => h
  · next name as hparse =>
    intro p hp h
    unfold parse? at hparse
    dsimp only at hparse
    split at hparse
    · exact absurd hparse (by simp)
    · simp only [Option.some.injEq, Prod.mk.injEq] at hparse
      obtain ⟨rfl, rfl⟩ := hparse
      obtain ⟨t, ht, h⟩ := isInfix_of_join hp h
      rcases List.mem_cons.mp ht with rfl | ht
      · exact h.trans (takeWhile_isInfix _ _)
      · obtain ⟨a, ha, rfl⟩ := List.mem_map.mp ht
        obtain ⟨hkey, hvalue⟩ := isInfix_of_mem_attributesOf _ (List.mem_mergeSort.mp ha)
        have hsuffix : trimLeft ((plain inner).dropWhile isWord) <:+: plain inner :=
          ((trimLeft_isSuffix _).trans (List.dropWhile_suffix _)).isInfix
        rcases isInfix_of_render hp h with h | h
        · exact h.trans (hkey.trans hsuffix)
        · exact h.trans (hvalue.trans hsuffix)

end Directive

/-! ### What a block is for -/

/-- The kind of a block with the given role mark. -/
def BlockKind.ofMark : Option Char → BlockKind
  | some '@' => .directive
  | some '=' => .expression
  | some '!' => .declaration
  | _ => .scriptlet

/-- What stands between the delimiters of a block, in form and without the role mark. -/
def BlockKind.inner : BlockKind → Text → Text
  | .directive, x => Directive.plain x
  | .expression, x => Text.trimRight (x.dropWhile fun c => isBlank c || c == '=')
  | .declaration, x => (x.dropMarks '!').dedentBody
  | _, x => x.dedentBody

/-- The body of a block, blanks and role marks left out, that says what the block does; nothing is
    asked of a directive. -/
def BlockKind.gist : BlockKind → Text → Text
  | .directive, _ => []
  | .declaration, s => s.dropWhile (· == '!')
  | _, s => s

/-- The blocks are of the same kind and their bodies the same, blanks apart. Role marks may be
    missing at the start of a declaration, and the body of a directive may differ. -/
def Block.Kept (b b' : Block) : Prop :=
  b'.kind = b.kind ∧ b.kind.gist b'.inner.solid = b.kind.gist b.inner.solid

/-- The body without the role marks at its start. -/
def BlockKind.stripped : BlockKind → Text → Text
  | .directive, _ => []
  | .expression, s => s.dropWhile (· == '=')
  | .declaration, s => s.dropWhile (· == '!')
  | _, s => s

namespace Text

theorem head?_solid (s : Text) : s.solid.head? = s.trimLeft.head? := by
  induction s with
  | nil => rfl
  | cons c s ih =>
    by_cases hc : isBlank c = true
    · rw [solid_blank_cons hc, ih, trimLeft, trimLeft, List.dropWhile_cons_of_pos hc]
    · rw [solid_cons (Bool.eq_false_iff.mpr hc), trimLeft, List.dropWhile_cons_of_neg hc]
      rfl

/-- Dropping blanks and marks from the start of a text drops the marks from the text without its
    blanks. -/
theorem solid_dropWhile (p : Char → Bool) (s : Text) :
    solid (s.dropWhile fun c => isBlank c || p c) = s.solid.dropWhile p := by
  induction s with
  | nil => rfl
  | cons c s ih =>
    by_cases hc : isBlank c = true
    · rw [List.dropWhile_cons_of_pos (by simp [hc]), solid_blank_cons hc, ih]
    · have hc' : isBlank c = false := Bool.eq_false_iff.mpr hc
      by_cases hp : p c = true
      · rw [List.dropWhile_cons_of_pos (by simp [hp]), solid_cons hc', List.dropWhile_cons_of_pos hp, ih]
      · rw [List.dropWhile_cons_of_neg (by simp [hc', hp]), solid_cons hc', List.dropWhile_cons_of_neg hp]

theorem dropWhile_solid_dropWhile {p q : Char → Bool}
    (h : ∀ c, q c = true → isBlank c = true ∨ p c = true) (s : Text) :
    (solid (s.dropWhile q)).dropWhile p = s.solid.dropWhile p := by
  induction s with
  | nil => rfl
  | cons c s ih =>
    by_cases hq : q c = true
    · rw [List.dropWhile_cons_of_pos hq, ih]
      by_cases hc : isBlank c = true
      · rw [solid_blank_cons hc]
      · rw [solid_cons (Bool.eq_false_iff.mpr hc), List.dropWhile_cons_of_pos ((h c hq).resolve_left hc)]
    · rw [List.dropWhile_cons_of_neg hq]

theorem dropMarks_isSuffix (mark : Char) (body : Text) : body.dropMarks mark <:+ body := by
  unfold dropMarks
  split
  · exact List.suffix_rfl
  · next c s hs =>
    split
    · exact (List.dropWhile_suffix _).trans
        ((List.suffix_cons c s).trans (hs ▸ List.dropWhile_suffix _))
    · exact List.suffix_rfl

theorem dropWhile_solid_dropMarks (mark : Char) (body : Text) :
    (body.dropMarks mark).solid.dropWhile (· == mark) = body.solid.dropWhile (· == mark) := by
  unfold dropMarks
  split
  · rfl
  · next c s hs =>
    split
    · next hc =>
      have hsolid : body.solid = solid (c :: s) := by
        obtain ⟨w, hw, hbody⟩ := exists_blank_trimLeft body
        rw [hbody, solid_append, hw.solid_eq, hs, List.nil_append]
      rw [dropWhile_solid_dropWhile, hsolid]
      · by_cases hb : isBlank c = true
        · rw [solid_blank_cons hb]
        · rw [solid_cons (Bool.eq_false_iff.mpr hb), List.dropWhile_cons_of_pos (by simp [hc])]
      · intro d hd
        rcases Bool.or_eq_true_iff.mp hd with hd | hd
        · exact Or.inr hd
        · exact Or.inl (isBlank_of_isIndent hd)
    · rfl

end Text

namespace Block

theorem before?_append (l p : Text) : Text.before? p (l ++ p) = some l := by
  simp [before?, after?_append]

theorem isSuffix_of_before? {p s l : Text} (h : Text.before? p s = some l) : p <:+ s := by
  obtain ⟨r, hr, rfl⟩ := Option.map_eq_some_iff.mp h
  have := congrArg List.reverse (eq_append_of_after? hr)
  rw [List.reverse_append, List.reverse_reverse, List.reverse_reverse] at this
  exact ⟨_, this.symm⟩

theorem classify_comment (x : Text) (offset : Int) :
    classify (commentOpen ++ (x ++ commentClose)) offset =
      ⟨.comment, commentOpen ++ (x ++ commentClose), x.dedentBody, offset⟩ := by
  simp [classify, commentBody?, after?_append, before?_append]

theorem commentBody?_eq_none {x : Text}
    (h : ∀ y, x ++ blockClose = '-' :: '-' :: y → ¬commentClose <:+: y) :
    commentBody? (blockOpen ++ (x ++ blockClose)) = none := by
  rw [commentBody?, Option.bind_eq_bind, Option.bind_eq_none_iff]
  intro y hy
  have hy : x ++ blockClose = '-' :: '-' :: y := by
    simpa [blockOpen, commentOpen] using eq_append_of_after? hy
  rw [Option.orElse_eq_orElse, Option.orElse_eq_or, Option.or_eq_none_iff]
  constructor <;> rw [Option.eq_none_iff_forall_not_mem] <;> intro l hl
  · exact h y hy (isSuffix_of_before? hl).isInfix
  · exact h y hy ((List.prefix_append _ _).isInfix.trans (isSuffix_of_before? hl).isInfix)

theorem roleMark?_eq (x : Text) :
    roleMark? (blockOpen ++ (x ++ blockClose)) = (x.solid ++ blockClose).head? := by
  have hclose : blockClose.solid = blockClose := by decide
  rw [roleMark?, after?_append, Option.bind_eq_bind, Option.bind_some, ← head?_solid, solid_append,
    hclose]

theorem body_eq (x : Text) : body (blockOpen ++ (x ++ blockClose)) = x := by
  simp [body, blockOpen, blockClose]

theorem within_dedentBody (s : Text) : Within s.dedentBody s :=
  within_of_looser (.of_eq (marks_dedentBody s).symm)

/-- What a block that is no comment is for and what it says. -/
theorem classify_eq {x : Text} (h : commentBody? (blockOpen ++ (x ++ blockClose)) = none)
    (offset : Int) : classify (blockOpen ++ (x ++ blockClose)) offset =
      ⟨.ofMark (x.solid ++ blockClose).head?, blockOpen ++ (x ++ blockClose),
        (BlockKind.ofMark (x.solid ++ blockClose).head?).inner x, offset⟩ := by
  rw [classify, h, roleMark?_eq, body_eq]
  fun_cases BlockKind.ofMark (x.solid ++ blockClose).head? with
  | case1 => rfl
  | case2 => rfl
  | case3 => rfl
  | case4 _ h1 h2 h3 =>
    dsimp only
    split
    · exact absurd rfl h1
    · exact absurd rfl h2
    · exact absurd rfl h3
    · rfl

/-- A body holds nothing that is looked for and was not in the block, and it says what the block says. -/
theorem within_inner (k : BlockKind) (x : Text) : Within (k.inner x) x ∧
    k.gist (k.inner x).solid = k.stripped x.solid := by
  cases k with
  | directive => exact ⟨within_of_isInfix (Directive.plain_isInfix x), rfl⟩
  | expression =>
    refine ⟨within_of_isInfix ?_, ?_⟩
    · exact (trimRight_isPrefix _).isInfix.trans (List.dropWhile_suffix _).isInfix
    · exact (solid_of_marks (marks_trimRight _)).trans (solid_dropWhile (· == '=') x)
  | declaration =>
    refine ⟨(within_dedentBody _).trans (within_of_isInfix (dropMarks_isSuffix '!' x).isInfix), ?_⟩
    rw [BlockKind.inner, solid_of_marks (marks_dedentBody _)]
    exact dropWhile_solid_dropMarks '!' x
  | scriptlet => exact ⟨within_dedentBody x, solid_of_marks (marks_dedentBody x)⟩
  | comment => exact ⟨within_dedentBody x, solid_of_marks (marks_dedentBody x)⟩

/-- A block that is no comment is told by its source without the blanks. -/
theorem classify_plain {x : Text} (h : commentBody? (blockOpen ++ (x ++ blockClose)) = none)
    (offset : Int) : ∃ inner, classify (blockOpen ++ (x ++ blockClose)) offset =
        ⟨.ofMark (x.solid ++ blockClose).head?, blockOpen ++ (x ++ blockClose), inner, offset⟩ ∧
      Within inner x ∧ (BlockKind.ofMark (x.solid ++ blockClose).head?).gist inner.solid =
        (BlockKind.ofMark (x.solid ++ blockClose).head?).stripped x.solid :=
  ⟨_, classify_eq h offset, within_inner _ x⟩

end Block

end JspLayout
