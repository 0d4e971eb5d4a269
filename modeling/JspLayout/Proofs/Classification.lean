import JspLayout.Proofs.Blocks
import JspLayout.Proofs.Segmentation

/-! What a block keeps of its source.

    Taking a body out of its block takes off the delimiters, the role marks and blanks. Main statement:
    nothing else of a block of a page is lost. Blanks apart, its source is the delimiters, its role mark
    once or more and its body; and the lines of a scriptlet or a comment that are not blank are the lines
    between its delimiters, each with nothing but the blanks around it taken off. -/

namespace JspLayout

open Text

namespace Block

/-- Blanks apart, the source is the delimiters with the role mark, once or more, and the body between
    them. -/
def MarkedBy (mark : Char) (b : Block) : Prop :=
  ∃ k, 1 ≤ k ∧ b.raw.solid = blockOpen ++ (List.replicate k mark ++ (b.inner.solid ++ blockClose))

/-- Blanks apart, the source is the delimiters with the body between them, and the body has the lines
    that stand there, those of blanks and the blanks around each apart. -/
def Between (opening closing : Text) (b : Block) : Prop :=
  b.raw.solid = opening ++ (b.inner.solid ++ closing) ∧
    ∃ body, b.raw = opening ++ (body ++ closing) ∧ b.inner.inkedLines = body.inkedLines

/-- Nothing of the source is lost in the block but delimiters, role marks and blanks. -/
def Accounted (b : Block) : Prop :=
  match b.kind with
  | .directive => b.MarkedBy '@'
  | .expression => b.MarkedBy '='
  | .declaration => b.MarkedBy '!'
  | .scriptlet => b.Between blockOpen blockClose ∧
      ∀ c, b.inner.solid.head? = some c → c ≠ '@' ∧ c ≠ '=' ∧ c ≠ '!'
  | .comment => b.Between commentOpen commentClose

end Block

/-! ### Role marks -/

/-- A text begins with the mark: what is dropped of it are marks, at least one, and blanks. -/
theorem Text.exists_replicate_dropWhile {mark : Char} {q : Char → Bool} (hsolid : isBlank mark = false)
    (hmark : q mark = true) (hq : ∀ c, q c = true → isBlank c = true ∨ c = mark) {s : Text}
    (hs : s.head? = some mark) :
    ∃ k, 1 ≤ k ∧ s.solid = List.replicate k mark ++ solid (s.dropWhile q) := by
  have hrest : ∀ t : Text, ∃ k, t.solid = List.replicate k mark ++ solid (t.dropWhile q) := by
    intro t
    induction t with
    | nil => exact ⟨0, rfl⟩
    | cons c t ih =>
      by_cases hc : q c = true
      · obtain ⟨k, hk⟩ := ih
        rw [List.dropWhile_cons_of_pos hc]
        rcases hq c hc with hblank | rfl
        · exact ⟨k, by rw [solid_blank_cons hblank, hk]⟩
        · exact ⟨k + 1, by rw [solid_cons hsolid, hk, List.replicate_succ, List.cons_append]⟩
      · exact ⟨0, by rw [List.dropWhile_cons_of_neg hc]; rfl⟩
  obtain ⟨t, rfl⟩ := List.head?_eq_some_iff.mp hs
  obtain ⟨k, hk⟩ := hrest t
  refine ⟨k + 1, by omega, ?_⟩
  rw [List.dropWhile_cons_of_pos hmark, solid_cons hsolid, hk, List.replicate_succ, List.cons_append]

namespace Block

theorem solid_delimited {opening closing : Text} (ho : Solid opening) (hc : Solid closing) (x : Text) :
    solid (opening ++ (x ++ closing)) = opening ++ (x.solid ++ closing) := by
  rw [solid_append, solid_append, ho.solid_eq, hc.solid_eq]

/-- A body taken from what stands between the delimiters has its lines and its characters. -/
theorem between_of_dedentBody {opening closing x : Text} (ho : Solid opening) (hc : Solid closing)
    (k : BlockKind) (offset : Int) :
    Between opening closing ⟨k, opening ++ (x ++ closing), x.dedentBody, offset⟩ := by
  refine ⟨?_, x, rfl, inkedLines_dedentBody x⟩
  rw [solid_delimited ho hc, solid_of_marks (marks_dedentBody x)]

end Block

namespace BlockKind

variable {x : Text}

theorem solid_inner_directive (h : x.solid.head? = some '@') :
    ∃ k, 1 ≤ k ∧ x.solid = List.replicate k '@' ++ (directive.inner x).solid := by
  have hhead : x.trim.head? = some '@' := by
    rw [← h, ← solid_trim, head?_solid, trimLeft_of_head (tight_trim x).1]
  obtain ⟨k, hk, hs⟩ := exists_replicate_dropWhile (q := (· == '@')) (by decide) (by decide)
    (fun c hc => Or.inr (by simpa using hc)) hhead
  exact ⟨k, hk, by rw [← solid_trim, hs, inner, Directive.plain, solid_trim]⟩

theorem solid_inner_expression (h : x.solid.head? = some '=') :
    ∃ k, 1 ≤ k ∧ x.solid = List.replicate k '=' ++ (expression.inner x).solid := by
  have hhead : x.trimLeft.head? = some '=' := by rw [← h, head?_solid]
  obtain ⟨w, hw, hx⟩ := exists_blank_trimLeft x
  have hdrop : x.dropWhile (fun c => isBlank c || c == '=') =
      x.trimLeft.dropWhile fun c => isBlank c || c == '=' := by
    conv_lhs => rw [hx, List.dropWhile_append_of_pos fun c hc => by simp [hw c hc]]
  obtain ⟨k, hk, hs⟩ := exists_replicate_dropWhile (q := fun c => isBlank c || c == '=') (by decide)
    (by decide) (fun c hc => by simpa using hc) hhead
  refine ⟨k, hk, ?_⟩
  rw [← solid_of_marks (marks_trimLeft x), hs, inner, hdrop, solid_of_marks (marks_trimRight _)]

theorem solid_inner_declaration (h : x.solid.head? = some '!') :
    ∃ k, 1 ≤ k ∧ x.solid = List.replicate k '!' ++ (declaration.inner x).solid := by
  have hhead : x.trimLeft.head? = some '!' := by rw [← h, head?_solid]
  have hmarks : x.dropMarks '!' = x.trimLeft.dropWhile fun c => c == '!' || isIndent c := by
    obtain ⟨t, ht⟩ := List.head?_eq_some_iff.mp hhead
    rw [dropMarks, ht, List.dropWhile_cons_of_pos (by decide)]
    rfl
  obtain ⟨k, hk, hs⟩ := exists_replicate_dropWhile (q := fun c => c == '!' || isIndent c) (by decide)
    (by decide) (fun c hc => (Bool.or_eq_true_iff.mp hc).symm.imp isBlank_of_isIndent (by simp)) hhead
  refine ⟨k, hk, ?_⟩
  rw [← solid_of_marks (marks_trimLeft x), hs, inner, hmarks, solid_of_marks (marks_dedentBody _)]

end BlockKind

/-! ### Blocks of a page -/

/-- The first character of a body that is not blank, where it is not that of the closing delimiter. -/
theorem head?_solid_of_append {x : Text} {c : Char} (hc : c ≠ '%')
    (h : (x.solid ++ blockClose).head? = some c) : x.solid.head? = some c := by
  cases hx : x.solid with
  | nil =>
    rw [hx] at h
    exact absurd (Option.some.inj h).symm hc
  | cons d t =>
    rw [hx] at h
    exact h

theorem Block.accounted_classify {rest raw : Text} (h : IsBlock rest raw) (offset : Int) :
    (classify raw offset).Accounted := by
  cases h with
  | comment _ =>
    rw [classify_comment]
    exact between_of_dedentBody (by decide) (by decide) _ _
  | @plain x _ hdash =>
    have hraw : solid (blockOpen ++ (x ++ blockClose)) = blockOpen ++ (x.solid ++ blockClose) :=
      solid_delimited (by decide) (by decide) x
    have hmarked : ∀ {mark : Char} {inner : Text} {k : BlockKind},
        (∃ n, 1 ≤ n ∧ x.solid = List.replicate n mark ++ inner.solid) →
          MarkedBy mark ⟨k, blockOpen ++ (x ++ blockClose), inner, offset⟩ := by
      rintro mark inner k ⟨n, hn, hx⟩
      exact ⟨n, hn, by rw [hraw, hx, List.append_assoc]⟩
    rw [classify_eq (commentBody?_of_dash hdash)]
    generalize hhead : (x.solid ++ blockClose).head? = mark
    fun_cases BlockKind.ofMark mark with
    | case1 => exact hmarked (BlockKind.solid_inner_directive (head?_solid_of_append (by decide) hhead))
    | case2 => exact hmarked (BlockKind.solid_inner_expression (head?_solid_of_append (by decide) hhead))
    | case3 => exact hmarked (BlockKind.solid_inner_declaration (head?_solid_of_append (by decide) hhead))
    | case4 _ h₁ h₂ h₃ =>
      refine ⟨between_of_dedentBody (by decide) (by decide) _ _, fun c hc => ?_⟩
      have hinner : (BlockKind.scriptlet.inner x).solid = x.solid := solid_of_marks (marks_dedentBody x)
      rw [hinner] at hc
      obtain rfl : some c = mark := by rw [← hhead, List.head?_append, hc]; rfl
      exact ⟨fun h => h₁ (congrArg some h), fun h => h₂ (congrArg some h), fun h => h₃ (congrArg some h)⟩

/-- The blocks among segments are classified sources. -/
theorem Segmented.exists_isBlock {n : Int} {s : Text} {l : List Segment} (h : Segmented n s l) {b : Block}
    (hb : .block b ∈ l) : ∃ rest raw offset, IsBlock rest raw ∧ b = Block.classify raw offset := by
  induction h with
  | nil => exact absurd hb List.not_mem_nil
  | markup _ _ _ _ ih =>
    rcases List.mem_cons.mp hb with heq | hb
    · exact absurd heq (by simp)
    · exact ih hb
  | block hblock _ ih =>
    rcases List.mem_cons.mp hb with heq | hb
    · exact ⟨_, _, _, hblock, Segment.block.inj heq⟩
    · exact ih hb

/-- Nothing of the source of a block is lost when it is cut out of its page and classified, but the
    delimiters, role marks and blanks at the ends of lines. -/
theorem accounted_of_mem_segments {page : Text} {b : Block} (hb : .block b ∈ segments page) :
    b.Accounted := by
  obtain ⟨rest, raw, offset, hblock, rfl⟩ := (segmented_segmentsFrom 0 page).exists_isBlock hb
  exact Block.accounted_classify hblock offset

/-- A scriptlet over several lines after a declaration with repeated marks. -/
theorem accounted_of_mem_segments_loop :
    let page : Text := "<%!! int n; %><% while (n > 0) \x7b\n\n\t  f(\"a  b\");\n  \x7d\n%>".toList
    let b : Block := ⟨.scriptlet, "<% while (n > 0) \x7b\n\n\t  f(\"a  b\");\n  \x7d\n%>".toList,
      "while (n > 0) \x7b\n\n f(\"a  b\");\n\x7d".toList, 14⟩
    .block b ∈ segments page ∧ b.Accounted := by
  intro page b
  have hb : .block b ∈ segments page := by decide +kernel
  exact ⟨hb, accounted_of_mem_segments hb⟩

end JspLayout
