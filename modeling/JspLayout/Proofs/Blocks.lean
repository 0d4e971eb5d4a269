import Mathlib.Data.List.DropRight
import JspLayout.Proofs.Bodies
import JspLayout.Proofs.Reformat
import JspLayout.Proofs.Splicing
import JspLayout.Format.Session

/-! Formatted blocks.

    Without a code formatter a formatted block is a text that depends on the block only: the opening
    delimiter, a role mark, the body in form between blanks, the closing delimiter. Laying it out in a
    page moves blanks between the delimiters. Main statement: what comes out is again one block, of
    the same kind and with the same body, whatever follows it. -/

namespace JspLayout

open Text

/-! ### Bodies between blanks -/

/-- `x` is `y` with blanks on both sides. -/
structure Padded (x y : Text) : Prop where
  marks : marksFrom false x = Text.marks y
  gap : gapAfter false x = true

theorem padded_cons_concat {a b : Char} (ha : isBlank a = true) (hb : isBlank b = true) (y : Text) :
    Padded (a :: (y ++ [b])) y where
  marks := by
    rw [marksFrom, if_pos ha]
    exact marks_append_blank (Blank.cons hb blank_nil) y
  gap := by rw [← List.cons_append, gapAfter_concat, hb]

theorem padded_singleton {a : Char} (ha : isBlank a = true) {y : Text} (hy : Blank y) :
    Padded [a] y where
  marks := by rw [marksFrom_blank (Blank.cons ha blank_nil), marks_blank hy]
  gap := ha

theorem Padded.solid_eq {x y : Text} (h : Padded x y) : x.solid = y.solid := by
  rw [← map_fst_marksFrom false, h.marks, map_fst_marks]

theorem Padded.exists_head {x y : Text} (h : Padded x y) : ∃ a t, x = a :: t ∧ isBlank a = true := by
  obtain ⟨hmarks, hgap⟩ := h
  cases x with
  | nil => exact absurd hgap (by simp [gapAfter])
  | cons a t =>
    refine ⟨a, t, rfl, ?_⟩
    by_contra ha
    rw [marksFrom, if_neg ha] at hmarks
    exact absurd (gap_of_marks_cons hmarks.symm) (by simp)

theorem Padded.exists_last {x y : Text} (h : Padded x y) : ∃ t b, x = t ++ [b] ∧ isBlank b = true := by
  obtain ⟨_, hgap⟩ := h
  rcases List.eq_nil_or_concat' x with rfl | ⟨t, b, rfl⟩
  · exact absurd hgap (by simp [gapAfter])
  · exact ⟨t, b, rfl, by rwa [gapAfter_concat] at hgap⟩

/-- A text without blanks occurs beside a body between blanks or in it. -/
theorem Padded.isInfix_cases {p a x y z : Text} (h : Padded x y) (hp : Solid p)
    (hin : p <:+: a ++ (x ++ z)) : p <:+: a ∨ p <:+: y ∨ p <:+: z := by
  have hmem : ∀ {c : Char}, isBlank c = true → c ∉ p := fun hc hm => by simp [hp _ hm] at hc
  obtain ⟨t, b, hlast, hb⟩ := h.exists_last
  rw [hlast, List.append_assoc, List.singleton_append, ← List.append_assoc] at hin
  rcases infix_append_cons (hmem hb) hin with hin | hin
  · have hin : p <:+: a ++ x := hin.trans ⟨[], [b], by simp [hlast]⟩
    obtain ⟨c, u, hhead, hc⟩ := h.exists_head
    rw [hhead] at hin
    rcases infix_append_cons (hmem hc) hin with hin | hin
    · exact Or.inl hin
    · have hx : p <:+: x := hhead ▸ List.infix_cons hin
      exact Or.inr (Or.inl (Looser.isInfix_of_isInfix (.of_eq h.marks.symm) hp hx))
  · exact Or.inr (Or.inr hin)

/-! ### Laying out a block -/

theorem gapAfter_solid (g : Bool) {a : Text} (ha : Solid a) (hne : a ≠ []) : gapAfter g a = false := by
  rcases List.eq_nil_or_concat' a with rfl | ⟨t, b, rfl⟩
  · exact absurd rfl hne
  · rw [gapAfter_concat, ha b (by simp)]

/-- The marks of a text between others without blanks can be told from the whole. -/
theorem marks_between {a z x x' : Text} (ha : Solid a) (ha' : a ≠ []) (hz : Solid z) (hz' : z ≠ [])
    (h : marks (a ++ (x ++ z)) = marks (a ++ (x' ++ z))) :
    marksFrom false x = marksFrom false x' ∧ gapAfter false x = gapAfter false x' := by
  have hopen : ∀ t, marks (a ++ t) = marks a ++ marksFrom false t := fun t => by
    rw [marks, marksFrom_append, gapAfter_solid true ha ha']
    rfl
  rw [hopen, hopen, marksFrom_append, marksFrom_append] at h
  have h := List.append_cancel_left h
  obtain ⟨c, z, rfl⟩ := List.exists_cons_of_ne_nil hz'
  rw [marksFrom_solid hz, marksFrom_solid hz] at h
  obtain ⟨hx, hz⟩ := List.append_inj' h (by simp)
  exact ⟨hx, congrArg Prod.snd (List.cons.inj hz).1⟩

/-- A layout keeps a body between blanks. -/
theorem Relaid.exists_padded {a x y z t : Text} (h : Relaid (a ++ (x ++ z)) t) (ha : Solid a)
    (ha' : a ≠ []) (hz : Solid z) (hz' : z ≠ []) (hx : Padded x y) :
    ∃ x', t = a ++ (x' ++ z) ∧ Padded x' y := by
  obtain ⟨x', rfl⟩ := h.between ha ha' hz hz' rfl
  obtain ⟨hmarks, hgap⟩ := marks_between ha ha' hz hz' h.marks
  exact ⟨x', rfl, hmarks.trans hx.marks, hgap.trans hx.gap⟩

/-! ### The text of a formatted block -/

/-- A block formatted without a code formatter. -/
def blockText (style : BlockStyle) (b : Block) : Text :=
  match b.kind with
  | .directive =>
    let body := if style.normalizeDirectives then Directive.normalize b.inner else b.inner
    blockLine ['<', '%', '@'] body
  | .expression => blockLine ['<', '%', '='] b.inner.trim
  | .comment => b.raw
  | .scriptlet | .declaration =>
    if b.inner.blank then opener b.kind ++ ' ' :: blockClose
    else if style.mode = .off then blockLine (opener b.kind) b.inner
    else blockLines b.kind (Java.reformatWith style.unit b.inner)

theorem blockText_code {style : BlockStyle} {b : Block}
    (hb : b.kind = .scriptlet ∨ b.kind = .declaration) :
    blockText style b = if b.inner.blank then opener b.kind ++ ' ' :: blockClose
      else if style.mode = .off then blockLine (opener b.kind) b.inner
      else blockLines b.kind (Java.reformatWith style.unit b.inner) := by
  rcases hb with hb | hb <;> simp [blockText, hb]

theorem formatCode_none {σ : Type} (style : BlockStyle) {b : Block} (p : Pass σ)
    (hb : b.kind = .scriptlet ∨ b.kind = .declaration) :
    ∃ p', formatCode style none b p = .ok (blockText style b, p') := by
  unfold formatCode
  rw [blockText_code hb]
  by_cases hblank : b.inner.blank = true
  · exact ⟨p, by rw [if_pos hblank, if_pos hblank]⟩
  · rw [if_neg hblank, if_neg hblank]
    cases style.mode with
    | auto => exact ⟨_, rfl⟩
    | indentOnly => exact ⟨_, rfl⟩
    | off => exact ⟨p, rfl⟩

/-- Without a code formatter every block is formatted, whatever the pass. -/
theorem formatBlock_none {σ : Type} (style : BlockStyle) (b : Block) (p : Pass σ) :
    ∃ p', formatBlock style none b p = .ok (blockText style b, p') := by
  cases hb : b.kind with
  | scriptlet =>
    simpa [formatBlock, hb] using formatCode_none style p (Or.inl hb)
  | declaration =>
    simpa [formatBlock, hb] using formatCode_none style p (Or.inr hb)
  | directive => exact ⟨p, by simp [formatBlock, blockText, hb]⟩
  | expression => exact ⟨p, by simp [formatBlock, blockText, hb]⟩
  | comment => exact ⟨p, by simp [formatBlock, blockText, hb]⟩

/-- The role mark that a formatted block is written with. -/
def BlockKind.mark : BlockKind → Text
  | .directive => ['@']
  | .expression => ['=']
  | .declaration => ['!']
  | _ => []

/-- A formatted block holds its body in form between blanks. -/
theorem exists_blockText {style : BlockStyle} (hunit : Blank style.unit) {b : Block}
    (hb : b.kind ≠ .comment) :
    ∃ x y, blockText style b = (blockOpen ++ b.kind.mark) ++ (x ++ blockClose) ∧ Padded x y ∧
      Within y b.inner ∧ (b.kind ≠ .directive → y.solid = b.inner.solid) := by
  have hline : ∀ start body : Text,
      blockLine start body = start ++ (' ' :: (body ++ [' ']) ++ blockClose) :=
    fun start body => by simp [blockLine]
  have hspace : ∀ y, Padded (' ' :: (y ++ [' '])) y := padded_cons_concat (by decide) (by decide)
  have hcode : b.kind = .scriptlet ∨ b.kind = .declaration →
      ∃ x y, blockText style b = opener b.kind ++ (x ++ blockClose) ∧ Padded x y ∧
        Within y b.inner ∧ (b.kind ≠ .directive → y.solid = b.inner.solid) := by
    intro hkind
    rw [blockText_code hkind]
    split
    · next hblank => exact ⟨[' '], b.inner, rfl, padded_singleton (by decide) ((blank_iff _).mp hblank),
        fun _ _ h => h, fun _ => rfl⟩
    split
    · exact ⟨_, b.inner, hline _ _, hspace _, fun _ _ h => h, fun _ => rfl⟩
    · have hlooser := Java.looser_reformatWith hunit b.inner
      exact ⟨'\n' :: (Java.reformatWith style.unit b.inner ++ ['\n']), _, by simp [blockLines],
        padded_cons_concat (by decide) (by decide) _, within_of_looser hlooser,
        fun _ => hlooser.solid_eq⟩
  cases hkind : b.kind with
  | comment => exact absurd hkind hb
  | scriptlet => simpa [hkind, opener, blockOpen, BlockKind.mark] using hcode (Or.inl hkind)
  | declaration => simpa [hkind, opener, blockOpen, BlockKind.mark] using hcode (Or.inr hkind)
  | expression =>
    rw [blockText, hkind]
    exact ⟨_, _, hline _ _, hspace _, within_of_isInfix (trim_isInfix _), fun _ => solid_trim _⟩
  | directive =>
    rw [blockText, hkind]
    refine ⟨_, _, hline _ _, hspace _, ?_, fun h => absurd rfl h⟩
    split
    · exact Directive.within_normalize b.inner
    · exact fun _ _ h => h

/-! ### Formatting keeps blocks -/

/-- What delimiters and role marks are made of. -/
def blockSigns : Text := ['<', '%', '>', '@', '=', '!']

/-- The text `t` can stand for the source `raw` of a block that `rest` follows: it is a block where no
    comment is closed later on than before, the same one, and nothing else that is looked for occurs
    in it. -/
structure Redone (rest raw t : Text) : Prop where
  isBlock : ∀ {rest' : Text}, (commentClose <:+: rest' → commentClose <:+: rest) → IsBlock rest' t
  within : ∀ {p : Text}, Sought p → (∃ c ∈ p, c ∉ blockSigns) → p <:+: t → p <:+: raw
  kept : ∀ offset offset', (Block.classify raw offset).Kept (Block.classify t offset')

theorem Block.kept_classify (raw : Text) (offset offset' : Int) :
    (classify raw offset).Kept (classify raw offset') := by
  unfold classify
  split
  · exact ⟨rfl, rfl⟩
  · split <;> exact ⟨rfl, rfl⟩

/-- A block stays one when what follows it closes no more comments. -/
theorem IsBlock.mono {rest rest' raw : Text} (h : IsBlock rest raw)
    (hrest : commentClose <:+: rest' → commentClose <:+: rest) : IsBlock rest' raw := by
  cases h with
  | comment hx => exact .comment hx
  | @plain x hx hy =>
    refine .plain hx fun y hxy hclose => ?_
    rcases x with _ | ⟨c, _ | ⟨d, x⟩⟩
    · simp [blockClose] at hxy
    · simp [blockClose] at hxy
    · obtain ⟨rfl, rfl, rfl⟩ : c = '-' ∧ d = '-' ∧ x ++ (blockClose ++ rest') = y := by simpa using hxy
      refine hy (x ++ (blockClose ++ rest)) rfl ?_
      have hsplit : ∀ s, x ++ (blockClose ++ s) = (x ++ ['%']) ++ '>' :: s :=
        fun s => by simp [blockClose]
      rw [hsplit] at hclose ⊢
      rcases infix_append_last (q := ['-', '-', '%']) (by decide) hclose with h | h
      · exact h.trans ⟨[], rest, by simp⟩
      · exact (hrest h).trans ⟨x ++ ['%', '>'], [], by simp⟩

theorem IsBlock.redone {rest raw : Text} (h : IsBlock rest raw) : Redone rest raw raw where
  isBlock := h.mono
  within := fun _ _ hp => hp
  kept := Block.kept_classify raw

theorem redone_comment {x t : Text} (hx : ¬commentClose <:+: x ++ ['-', '-', '%'])
    (ht : Relaid (commentOpen ++ (x ++ commentClose)) t) (rest : Text) :
    Redone rest (commentOpen ++ (x ++ commentClose)) t := by
  have hends : Solid commentOpen ∧ commentOpen ≠ [] ∧ Solid commentClose ∧ commentClose ≠ [] := by decide
  obtain ⟨x', rfl⟩ := ht.between hends.1 hends.2.1 hends.2.2.1 hends.2.2.2 rfl
  obtain ⟨hmarks, hgap⟩ := marks_between hends.1 hends.2.1 hends.2.2.1 hends.2.2.2 ht.marks
  refine ⟨fun _ => .comment fun h => hx ?_, fun hp _ h => ?_, fun o o' => ?_⟩
  · have hinside :
        marksFrom false (x' ++ ['-', '-', '%']) = marksFrom false (x ++ ['-', '-', '%']) := by
      rw [marksFrom_append, marksFrom_append, hmarks, hgap]
    exact Looser.isInfix_of_isInfix (.of_eq hinside.symm) sought_commentClose.solid h
  · exact within_of_looser (.of_eq ht.marks.symm) _ hp h
  · rw [Block.classify_comment, Block.classify_comment]
    have hsolid : x'.solid = x.solid := by
      rw [← map_fst_marksFrom false, hmarks, map_fst_marksFrom]
    exact ⟨rfl, (solid_of_marks (marks_dedentBody x')).trans
      (hsolid.trans (solid_of_marks (marks_dedentBody x)).symm)⟩

section

variable {k : BlockKind} {x y inner : Text} (hy : k ≠ .directive → y = inner)
  (hinner : k.gist inner = k.stripped x)

include hy hinner

/-- Writing the role mark anew leaves what the block says. -/
theorem BlockKind.stripped_mark_append : k.stripped (k.mark ++ y) = k.stripped x := by
  cases k with
  | directive => rfl
  | expression =>
    obtain rfl := hy (by decide)
    have hinner : y = x.dropWhile (· == '=') := hinner
    have hdrop : ('=' :: y).dropWhile (· == '=') = x.dropWhile (· == '=') := by
      rw [List.dropWhile_cons_of_pos (by decide), hinner, List.dropWhile_idempotent]
    exact hdrop
  | declaration =>
    obtain rfl := hy (by decide)
    exact hinner
  | scriptlet =>
    obtain rfl := hy (by decide)
    exact hinner
  | comment =>
    obtain rfl := hy (by decide)
    exact hinner

/-- The role mark tells the kind, and where there is none the body still does. -/
theorem BlockKind.ofMark_mark_append (hk : BlockKind.ofMark (x ++ blockClose).head? = k) :
    BlockKind.ofMark ((k.mark ++ y) ++ blockClose).head? = k := by
  cases k with
  | directive => rfl
  | expression => rfl
  | declaration => rfl
  | scriptlet =>
    obtain rfl := hy (by decide)
    exact (congrArg (fun s => BlockKind.ofMark (s ++ blockClose).head?) hinner).trans hk
  | comment =>
    obtain rfl := hy (by decide)
    exact (congrArg (fun s => BlockKind.ofMark (s ++ blockClose).head?) hinner).trans hk

end

theorem BlockKind.ofMark_ne_comment (m : Option Char) : BlockKind.ofMark m ≠ .comment := by
  unfold BlockKind.ofMark
  split <;> decide

/-- The start of a formatted block has no blank, and role marks neither look like a comment nor close
    the block. -/
theorem BlockKind.open_mark (k : BlockKind) :
    (Solid (blockOpen ++ k.mark) ∧ blockOpen ++ k.mark ≠ []) ∧ '-' ∉ k.mark ∧ ¬blockClose <:+: k.mark := by
  cases k <;> decide

/-- Delimiters and role marks are made of signs. -/
theorem BlockKind.mem_blockSigns (k : BlockKind) {c : Char}
    (hc : c ∈ blockOpen ++ k.mark ∨ c ∈ blockClose) : c ∈ blockSigns := by
  have hopen : (blockOpen ++ k.mark).all blockSigns.contains = true := by cases k <;> decide
  have hclose : blockClose.all blockSigns.contains = true := by decide
  rcases hc with hc | hc
  · simpa using List.all_eq_true.mp hopen c hc
  · simpa using List.all_eq_true.mp hclose c hc

theorem Padded.ne_dash {q y s t : Text} (h : Padded q y) (k : BlockKind) :
    (k.mark ++ q) ++ s ≠ '-' :: t := by
  obtain ⟨a, u, rfl, ha⟩ := h.exists_head
  have hmark := k.open_mark.2.1
  cases hm : k.mark with
  | nil => rintro ⟨⟩; exact absurd ha (by decide)
  | cons c m => rintro ⟨⟩; exact hmark (hm ▸ List.mem_cons_self)

/-- A block that looks like a comment is none where no comment is closed after it. -/
theorem commentBody?_of_dash {x rest : Text}
    (hdash : ∀ y, x ++ (blockClose ++ rest) = '-' :: '-' :: y → ¬commentClose <:+: y) :
    Block.commentBody? (blockOpen ++ (x ++ blockClose)) = none :=
  Block.commentBody?_eq_none fun y hy h =>
    hdash (y ++ rest) (by rw [← List.append_assoc, hy]; rfl)
      (h.trans (List.prefix_append y rest).isInfix)

theorem redone_plain {style : BlockStyle} (hunit : Blank style.unit) {x t rest : Text} {offset : Int}
    (hx : ¬blockClose <:+: x)
    (hdash : ∀ y, x ++ (blockClose ++ rest) = '-' :: '-' :: y → ¬commentClose <:+: y)
    (ht : Relaid (blockText style (Block.classify (blockOpen ++ (x ++ blockClose)) offset)) t) :
    Redone rest (blockOpen ++ (x ++ blockClose)) t := by
  have hbody := commentBody?_of_dash hdash
  obtain ⟨inner, hclass, hwithin, hgist⟩ := Block.classify_plain hbody offset
  generalize hk : BlockKind.ofMark (x.solid ++ blockClose).head? = k at hclass hgist
  rw [hclass] at ht
  obtain ⟨x₁, y, htext, hpadded, hyinner, hsolid⟩ := exists_blockText hunit
    (b := ⟨k, blockOpen ++ (x ++ blockClose), inner, offset⟩) (hk ▸ BlockKind.ofMark_ne_comment _)
  rw [htext] at ht
  dsimp only at ht hyinner hsolid
  obtain ⟨⟨hopen, hopen'⟩, -, hmark⟩ := k.open_mark
  obtain ⟨q, rfl, hq⟩ := ht.exists_padded hopen hopen' (by decide) (by decide) hpadded
  have hq' : blockOpen ++ k.mark ++ (q ++ blockClose) =
      blockOpen ++ ((k.mark ++ q) ++ blockClose) := by simp
  have hyx : Within y x := hyinner.trans hwithin
  refine ⟨fun _ => ?_, fun {p} hp hsign h => ?_, fun o o' => ?_⟩
  · rw [hq']
    refine .plain (fun h => ?_) fun _ h => absurd h (hq.ne_dash k)
    rw [← List.append_nil q] at h
    rcases hq.isInfix_cases sought_blockClose.solid h with h | h | h
    · exact hmark h
    · exact hx (hyx _ sought_blockClose h)
    · exact absurd h (by decide)
  · obtain ⟨c, hc, hcs⟩ := hsign
    rcases hq.isInfix_cases hp.solid h with h | h | h
    · exact absurd (k.mem_blockSigns (Or.inl (h.subset hc))) hcs
    · exact (hyx _ hp h).trans ⟨blockOpen, blockClose, by simp⟩
    · exact absurd (k.mem_blockSigns (Or.inr (h.subset hc))) hcs
  · have hbody' : Block.commentBody? (blockOpen ++ ((k.mark ++ q) ++ blockClose)) = none :=
      Block.commentBody?_eq_none fun _ h => absurd h (hq.ne_dash k)
    obtain ⟨inner₀, hclass₀, -, hgist₀⟩ := Block.classify_plain hbody o
    obtain ⟨inner', hclass', -, hgist'⟩ := Block.classify_plain hbody' o'
    have hmarked : (k.mark ++ q).solid = k.mark ++ y.solid := by
      have : k.mark.solid = k.mark := by cases k <;> decide
      rw [solid_append, hq.solid_eq, this]
    rw [hmarked, BlockKind.ofMark_mark_append hsolid hgist hk] at hclass' hgist'
    rw [hk] at hclass₀ hgist₀
    rw [hq', hclass₀, hclass']
    exact ⟨rfl, hgist'.trans ((BlockKind.stripped_mark_append hsolid hgist).trans hgist₀.symm)⟩

/-- Formatted and laid out in a page, a block stays the block it was. -/
theorem redone_blockText {style : BlockStyle} (hunit : Blank style.unit) {rest raw t : Text}
    (h : IsBlock rest raw) {offset : Int}
    (ht : Relaid (blockText style (Block.classify raw offset)) t) : Redone rest raw t := by
  cases h with
  | @comment x hx =>
    rw [Block.classify_comment] at ht
    exact redone_comment hx ht rest
  | plain hx hdash => exact redone_plain hunit hx hdash ht

end JspLayout
