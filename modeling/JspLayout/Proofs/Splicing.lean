import JspLayout.Proofs.Occurrence
import JspLayout.Marker.Splice

/-! Placing a block changes blanks only.

    A placed block has the marks of the block: its lines are moved sideways, and blanks around each
    are dropped, but what stood apart stays apart. Of the text before it only blanks at its end can be
    lost. -/

namespace JspLayout

open Text

/-! ### Indentation -/

theorem commonStart_isPrefix_left : ∀ s t : Text, commonStart s t <+: s
  | [], _ => List.nil_prefix
  | _ :: _, [] => List.nil_prefix
  | a :: s, b :: t => by
    rw [commonStart]
    split
    · exact List.cons_prefix_cons.mpr ⟨rfl, commonStart_isPrefix_left s t⟩
    · exact List.nil_prefix

theorem commonStart_isPrefix_right : ∀ s t : Text, commonStart s t <+: t
  | [], _ => List.nil_prefix
  | _ :: _, [] => List.nil_prefix
  | a :: s, b :: t => by
    rw [commonStart]
    split
    · next h => exact List.cons_prefix_cons.mpr ⟨h, commonStart_isPrefix_right s t⟩
    · exact List.nil_prefix

theorem all_isIndent_of_commonIndent? : ∀ {ls : List Text}, commonIndent? ls = none →
    ∀ l ∈ ls, l.all isIndent = true
  | [], _, _, h => absurd h (by simp)
  | l :: ls, h, l', hl' => by
    rw [commonIndent?] at h
    split at h
    · next hl =>
      rcases List.mem_cons.mp hl' with rfl | hmem
      · exact hl
      · exact all_isIndent_of_commonIndent? h l' hmem
    · split at h <;> exact absurd h (by simp)

/-- Every line that is not of spaces and tabs alone begins with the common indentation. -/
theorem commonIndent?_isPrefix {m : Text} : ∀ {ls : List Text}, commonIndent? ls = some m →
    ∀ l ∈ ls, l.all isIndent = false → m <+: l.indent
  | [], h, _, _, _ => by simp [commonIndent?] at h
  | l :: ls, h, l', hl', hall => by
    rw [commonIndent?] at h
    split at h
    · next hl =>
      rcases List.mem_cons.mp hl' with rfl | hmem
      · rw [hl] at hall; exact absurd hall (by simp)
      · exact commonIndent?_isPrefix h l' hmem hall
    · split at h
      · next hnone =>
        obtain rfl : l.indent = m := Option.some.inj h
        rcases List.mem_cons.mp hl' with rfl | hmem
        · exact List.prefix_rfl
        · rw [all_isIndent_of_commonIndent? hnone l' hmem] at hall
          exact absurd hall (by simp)
      · next m' hsome =>
        obtain rfl : commonStart l.indent m' = m := Option.some.inj h
        rcases List.mem_cons.mp hl' with rfl | hmem
        · exact commonStart_isPrefix_left _ _
        · exact (commonStart_isPrefix_right _ _).trans (commonIndent?_isPrefix hsome l' hmem hall)

/-- Taking the common indentation off a line takes off blanks. -/
theorem marks_drop_commonIndent {ls : List Text} {l : Text} (hl : l ∈ ls)
    (hall : l.all isIndent = false) :
    marks (l.drop ((commonIndent? ls).getD []).length) = marks l := by
  cases hm : commonIndent? ls with
  | none => rfl
  | some m => exact marks_drop_indent (commonIndent?_isPrefix hm l hl hall).length_le

theorem marks_indentLine {base : Text} (hbase : Blank base) (l : Text) :
    marks (indentLine base l) = marks l := by
  unfold indentLine
  split
  · next h => rw [marks_blank ((blank_iff l).mp h)]; rfl
  · rw [marks_blank_append hbase, marks_trimRight]

theorem flatMap_marks_indentInterior {base : Text} (hbase : Blank base) (ls : List Text) :
    (indentInterior base ls).flatMap marks = ls.flatMap marks := by
  rw [indentInterior, List.flatMap_map]
  refine List.flatMap_congr fun l hl => ?_
  rw [marks_indentLine hbase]
  split
  · next h =>
    have hblank : Blank l := fun c hc => isBlank_of_isIndent (List.all_eq_true.mp h c hc)
    rw [marks_blank hblank]
    rfl
  · next h => exact marks_drop_commonIndent hl (Bool.eq_false_iff.mpr h)

/-! ### Placed blocks -/

/-- A block of one line is trimmed; of several lines the first and the last are trimmed and those
    between indented together. -/
theorem indentBlock_cases (r base pad first : Text) :
    (∃ only, r.lines = [only] ∧ indentBlock r base pad first = first ++ only.trim) ∨
      ∃ top interior bottom, r.lines = top :: (interior ++ [bottom]) ∧
        indentBlock r base pad first = first ++ (top.trim ++
          '\n' :: unlines (indentInterior (base ++ pad) interior ++ [base ++ bottom.trim])) := by
  unfold indentBlock
  split
  · next h => exact absurd h (lines_ne_nil r)
  · next only h => exact Or.inl ⟨only, h, rfl⟩
  · next top rest hne h =>
    have hrest : rest ≠ [] := by rintro rfl; exact hne rfl
    refine Or.inr ⟨top, rest.dropLast, rest.getLast hrest, ?_, ?_⟩
    · rw [h, List.dropLast_concat_getLast]
    · dsimp only
      rw [List.cons_append, unlines_cons _ (by simp), List.append_assoc,
        List.getLastD_eq_getLast?, List.getLast?_eq_some_getLast hrest, Option.getD_some]

/-- A placed block has the marks of the block. -/
theorem marks_indentBlock {base pad first : Text} (hbase : Blank base) (hpad : Blank pad)
    (hfirst : Blank first) (r : Text) : marks (indentBlock r base pad first) = marks r := by
  rw [← marks_lines r]
  rcases indentBlock_cases r base pad first with ⟨only, hlines, hblock⟩ |
    ⟨top, interior, bottom, hlines, hblock⟩
  · rw [hblock, hlines, marks_blank_append hfirst]
    simp
  · rw [hblock, hlines, marks_blank_append hfirst, marks_append_cons (by decide), marks_unlines,
      List.flatMap_append, flatMap_marks_indentInterior (hbase.append hpad), List.flatMap_singleton,
      marks_blank_append hbase, marks_trim, marks_trim]
    simp

theorem trim_append_right {a : Text} (ha : Solid a) (ha' : a ≠ []) (t : Text) :
    trim (a ++ t) = a ++ t.trimRight := by
  obtain ⟨c, a, rfl⟩ := List.exists_cons_of_ne_nil ha'
  have hleft : trimLeft (c :: a ++ t) = c :: a ++ t :=
    trimLeft_of_head fun d hd => by
      obtain rfl : c = d := by simpa using hd
      exact ha c List.mem_cons_self
  obtain ⟨w, hw, ht⟩ := exists_blank_trimRight t
  have hlast : ∀ d ∈ (c :: a ++ t.trimRight).getLast?, isBlank d = false := by
    intro d hd
    rw [List.getLast?_append, Option.mem_def, Option.or_eq_some_iff] at hd
    rcases hd with hd | ⟨_, hd⟩
    · exact last_trimRight t d hd
    · exact ha d (List.mem_of_getLast? hd)
  rw [trim, hleft]
  conv_lhs => rw [ht, ← List.append_assoc]
  rw [trimRight_append_blank hw, trimRight_of_last hlast]

theorem trimRight_append_solid {z : Text} (hz : Solid z) (hz' : z ≠ []) (t : Text) :
    trimRight (t ++ z) = t ++ z := by
  refine trimRight_of_last fun c hc => hz c ?_
  rw [List.getLast?_append_of_ne_nil _ hz'] at hc
  exact List.mem_of_getLast? hc

theorem trim_append_left {z : Text} (hz : Solid z) (hz' : z ≠ []) (t : Text) :
    trim (t ++ z) = t.trimLeft ++ z := by
  by_cases ht : Blank t
  · obtain ⟨c, z, rfl⟩ := List.exists_cons_of_ne_nil hz'
    rw [trim, trimLeft_blank_append ht, trimLeft_of_solid_head (hz c List.mem_cons_self),
      trimLeft_blank ht]
    exact trimRight_append_solid hz hz' []
  · rw [trim, trimLeft_append ht, trimRight_append_solid hz hz']

/-- What a block starts and ends with stays at its start and its end. -/
theorem exists_indentBlock {a z : Text} (ha : Solid a) (ha' : a ≠ []) (hz : Solid z) (hz' : z ≠ [])
    (x base pad first : Text) :
    ∃ q, indentBlock (a ++ (x ++ z)) base pad first = first ++ (a ++ (q ++ z)) := by
  have hfeed : ∀ {s : Text}, Solid s → '\n' ∉ s := fun hs h => absurd (hs _ h) (by decide)
  rcases indentBlock_cases (a ++ (x ++ z)) base pad first with ⟨only, hlines, hblock⟩ |
    ⟨top, interior, bottom, hlines, hblock⟩
  · obtain rfl : only = a ++ (x ++ z) := by
      rw [← unlines_lines (a ++ (x ++ z)), hlines]
      rfl
    exact ⟨x, by rw [hblock, trim_append_right ha ha', trimRight_append_solid hz hz']⟩
  · have htext := unlines_lines (a ++ (x ++ z))
    rw [hlines] at htext
    have htop : a <+: top := by
      rw [unlines_cons _ (by simp)] at htext
      exact prefix_of_prefix_append (hfeed ha) (htext ▸ List.prefix_append a _)
    have hbottom : z <:+ bottom := by
      rw [← List.cons_append, unlines_concat (by simp)] at htext
      have hend : z <:+ a ++ (x ++ z) := (List.suffix_append x z).trans (List.suffix_append a _)
      exact suffix_of_suffix_append (hfeed hz) (htext ▸ hend)
    obtain ⟨t, rfl⟩ : ∃ t : Text, a ++ t = top := htop
    obtain ⟨b, rfl⟩ : ∃ b : Text, b ++ z = bottom := hbottom
    refine ⟨t.trimRight ++ '\n' :: unlines (indentInterior (base ++ pad) interior ++
      [base ++ b.trimLeft]), ?_⟩
    rw [hblock, trim_append_right ha ha', trim_append_left hz hz', ← List.append_assoc base,
      unlines_append_last]
    simp

/-! ### The text before a block -/

/-- The text `t` is a layout of `r`: its blanks are moved, but not past texts without blanks at its
    ends. -/
structure Relaid (r t : Text) : Prop where
  marks : Text.marks t = Text.marks r
  between : ∀ {a x z : Text}, Solid a → a ≠ [] → Solid z → z ≠ [] → r = a ++ (x ++ z) →
    ∃ x', t = a ++ (x' ++ z)

theorem Relaid.refl (r : Text) : Relaid r r := ⟨rfl, fun _ _ _ _ h => ⟨_, h⟩⟩

theorem relaid_trim (r : Text) : Relaid r r.trim where
  marks := marks_trim r
  between := by
    rintro a x z ha ha' hz hz' rfl
    exact ⟨x, by rw [trim_append_right ha ha', trimRight_append_solid hz hz']⟩

theorem relaid_indentBlock {base pad : Text} (hbase : Blank base) (hpad : Blank pad) (r : Text) :
    Relaid r (indentBlock r base pad []) where
  marks := marks_indentBlock hbase hpad blank_nil r
  between := by
    rintro a x z ha ha' hz hz' rfl
    exact exists_indentBlock ha ha' hz hz' x base pad []

theorem indentBlock_first (r base pad first : Text) :
    indentBlock r base pad first = first ++ indentBlock r base pad [] := by
  unfold indentBlock
  split
  · exact (List.append_nil first).symm
  · rfl
  · simp [unlines_cons]

theorem splitLastLine_append (s : Text) : (splitLastLine s).1 ++ (splitLastLine s).2 = s := by
  rw [splitLastLine, ← List.reverse_append, List.takeWhile_append_dropWhile, List.reverse_reverse]

/-! ### The last line before a block -/

/-- The last line of a text. -/
def lastLine (s : Text) : Text := (splitLastLine s).2

/-- The blanks at the end of a text. -/
def Text.blankEnd (s : Text) : Text := (s.reverse.takeWhile isBlank).reverse

/-- The blanks right before a block that give way to its layout: those of a line that holds nothing
    else, or nothing else after a closing delimiter. -/
def dropped (before : Text) : Text :=
  let line := lastLine before
  if line.blank || ends blockClose line.trimRight then line.blankEnd else []

/-- The text before a block, ready for the block. -/
def approach (before : Text) : Text :=
  let (head, line) := splitLastLine before
  if ends blockClose line.trimRight then head ++ line.trimRight ++ '\n' :: line.indent
  else if line.blank then head ++ line.indent
  else before

/-- Spaces, tabs and line feeds. -/
def isLayout (c : Char) : Bool := isIndent c || c == '\n'

theorem isBlank_of_isLayout {c : Char} (h : isLayout c = true) : isBlank c = true := by
  rcases Bool.or_eq_true_iff.mp h with h | h
  · exact isBlank_of_isIndent h
  · obtain rfl : c = '\n' := by simpa using h
    decide

theorem spliceBlock_eq (before r pad : Text) : spliceBlock before [] r pad =
    approach before ++ indentBlock r (lastLine before).indent pad [] := by
  have hsplit := splitLastLine_append before
  unfold spliceBlock approach lastLine
  dsimp only
  split
  · rw [indentBlock_first]
    simp
  split
  · rw [indentBlock_first]
    simp
  · rw [hsplit, List.append_nil]

theorem trimRight_append_blankEnd (s : Text) : s.trimRight ++ s.blankEnd = s := by
  rw [trimRight, dropEndWhile, blankEnd, ← List.reverse_append, List.takeWhile_append_dropWhile,
    List.reverse_reverse]

theorem blank_blankEnd (s : Text) : Blank s.blankEnd := by
  intro c hc
  rw [blankEnd, List.mem_reverse] at hc
  exact List.mem_takeWhile_imp hc

theorem blankEnd_blank {w : Text} (hw : Blank w) : w.blankEnd = w := by
  have := trimRight_append_blankEnd w
  rwa [trimRight_blank hw, List.nil_append] at this

theorem isLayout_indent (s : Text) : ∀ c ∈ s.indent, isLayout c = true := by
  intro c hc
  have : isIndent c = true := List.mem_takeWhile_imp hc
  simp [isLayout, this]

theorem blank_dropped (before : Text) : Blank (dropped before) := by
  unfold dropped
  dsimp only
  split
  · exact blank_blankEnd _
  · exact blank_nil

/-- Only blanks that give way are lost, and only layout takes their place. -/
theorem exists_approach (before : Text) : ∃ kept first, before = kept ++ dropped before ∧
    approach before = kept ++ first ∧ ∀ c ∈ first, isLayout c = true := by
  have hsplit := splitLastLine_append before
  unfold dropped approach lastLine
  generalize splitLastLine before = p at hsplit
  obtain ⟨head, line⟩ := p
  dsimp only at hsplit ⊢
  by_cases hclose : ends blockClose line.trimRight = true
  · refine ⟨head ++ line.trimRight, '\n' :: line.indent, ?_, by simp [hclose], ?_⟩
    · rw [if_pos (by simp [hclose]), List.append_assoc, trimRight_append_blankEnd, hsplit]
    · intro c hc
      rcases List.mem_cons.mp hc with rfl | hc
      · decide
      · exact isLayout_indent line c hc
  by_cases hblank : line.blank = true
  · refine ⟨head, line.indent, ?_, by simp [hclose, hblank], isLayout_indent line⟩
    rw [if_pos (by simp [hblank]), blankEnd_blank ((blank_iff line).mp hblank), hsplit]
  · exact ⟨before, [], by simp [hclose, hblank], by simp [hclose, hblank], by simp⟩

end JspLayout
