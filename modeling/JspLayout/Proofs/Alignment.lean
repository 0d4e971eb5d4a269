import JspLayout.Proofs.Interiors
import JspLayout.Proofs.Reflow

/-! Lines of a placed block.

    Placing a block moves its lines sideways, each for itself at the ends of the block and all together
    between them. Main statement: line by line a placed block holds what the block held, and its
    interior lines stand to each other as they did, because the longest indentation that they share is
    replaced by another one (`placement_indentBlock`). -/

namespace JspLayout

open Text

/-! ### The longest common indentation -/

/-- The longest text of spaces and tabs that begins every line which holds something else. -/
structure LongestIndent (m : Text) (ls : List Text) : Prop where
  indents : m.all isIndent = true
  begins : ∀ l ∈ ls, l.all isIndent = false → m <+: l
  longest : ∀ k : Text, k.all isIndent = true → (∀ l ∈ ls, l.all isIndent = false → k <+: l) → k <+: m

theorem prefix_commonStart : ∀ {k s t : Text}, k <+: s → k <+: t → k <+: commonStart s t
  | [], _, _, _, _ => List.nil_prefix
  | _ :: _, [], _, hs, _ => absurd hs (by simp)
  | _ :: _, _ :: _, [], _, ht => absurd ht (by simp)
  | c :: k, a :: s, b :: t, hs, ht => by
    obtain ⟨rfl, hs'⟩ := List.cons_prefix_cons.mp hs
    obtain ⟨rfl, ht'⟩ := List.cons_prefix_cons.mp ht
    rw [commonStart, if_pos rfl]
    exact List.cons_prefix_cons.mpr ⟨rfl, prefix_commonStart hs' ht'⟩

/-- What begins the indentation of every line begins the indentation that the lines share. -/
theorem prefix_commonIndent? {k m : Text} : ∀ {ls : List Text}, commonIndent? ls = some m →
    (∀ l ∈ ls, l.all isIndent = false → k <+: l.indent) → k <+: m
  | [], h, _ => absurd h (by simp [commonIndent?])
  | l :: ls, h, hk => by
    obtain ⟨hl, hls⟩ := List.forall_mem_cons.mp hk
    rw [commonIndent?] at h
    split at h
    · exact prefix_commonIndent? h hls
    · next hall =>
      have hl := hl (Bool.eq_false_iff.mpr hall)
      split at h
      · cases h
        exact hl
      · next m' hm' =>
        cases h
        exact prefix_commonStart hl (prefix_commonIndent? hm' hls)

theorem all_isIndent_of_prefix_indent {m l : Text} (h : m <+: l.indent) : m.all isIndent = true :=
  List.all_eq_true.mpr fun _ hc => List.mem_takeWhile_imp (h.subset hc)

theorem all_isIndent_commonIndent? {m : Text} : ∀ {ls : List Text}, commonIndent? ls = some m →
    m.all isIndent = true
  | [], h => absurd h (by simp [commonIndent?])
  | l :: ls, h => by
    rw [commonIndent?] at h
    split at h
    · exact all_isIndent_commonIndent? h
    · split at h <;> cases h
      · exact all_isIndent_of_prefix_indent (l := l) List.prefix_rfl
      · exact all_isIndent_of_prefix_indent (commonStart_isPrefix_left _ _)

theorem prefix_indent {k l : Text} (hk : k.all isIndent = true) (h : k <+: l) : k <+: l.indent := by
  obtain ⟨t, rfl⟩ := h
  rw [indent_append hk]
  exact List.prefix_append k _

theorem longestIndent_commonIndent? {m : Text} {ls : List Text} (h : commonIndent? ls = some m) :
    LongestIndent m ls where
  indents := all_isIndent_commonIndent? h
  begins l hl hall := (commonIndent?_isPrefix h l hl hall).trans (indent_isPrefix _)
  longest _ hk hbegins := prefix_commonIndent? h fun l hl hall => prefix_indent hk (hbegins l hl hall)

/-! ### Interior lines -/

/-- What becomes of a line inside a block: the indentation `m` gives way to `step`, the rest of the
    indentation stays, and blanks at the end are lost. -/
structure Shifted (m step l l' : Text) : Prop where
  blank : Blank l → l' = []
  inked : ¬Blank l → ∃ r, l = m ++ r ∧ l' = step ++ r.trimRight
  indent : ¬Blank l → ∃ d, l.indent = m ++ d ∧ l'.indent = step ++ d

theorem shifted_indentLine {m step l : Text} (hstep : step.all isIndent = true)
    (hm : ¬Blank l → m <+: l.indent) : Shifted m step l (indentLine step (cutIndent m l)) where
  blank hl := indentLine_blank ((blank_cutIndent_iff hm).mpr hl)
  inked hl := by
    refine ⟨cutIndent m l, (append_cutIndent hl (hm hl)).symm, ?_⟩
    exact indentLine_inked fun h => hl ((blank_cutIndent_iff hm).mp h)
  indent hl := by
    have hcut : ¬Blank (cutIndent m l) := fun h => hl ((blank_cutIndent_iff hm).mp h)
    have hindents := all_isIndent_of_prefix_indent (hm hl)
    refine ⟨(cutIndent m l).indent, ?_, ?_⟩
    · rw [← indent_append hindents, append_cutIndent hl (hm hl)]
    · rw [indentLine_inked hcut, indent_append hstep, indent_trimRight hcut]

theorem Shifted.trim_eq {m step l l' : Text} (h : Shifted m step l l') (hm : Blank m) (hstep : Blank step) :
    l'.trim = l.trim := by
  by_cases hl : Blank l
  · rw [h.blank hl, trim_blank hl, trim_blank blank_nil]
  · obtain ⟨r, rfl, rfl⟩ := h.inked hl
    rw [trim_blank_append hstep, trim_trimRight, trim_blank_append hm]

/-- The interior lines of a block are shifted together, by the longest indentation they share. -/
theorem forall₂_indentInterior {step : Text} (hstep : step.all isIndent = true) (ls : List Text) :
    ∃ m : Text, m.all isIndent = true ∧
      ((∃ l ∈ ls, l.all isIndent = false) → LongestIndent m ls) ∧
        List.Forall₂ (Shifted m step) ls (indentInterior step ls) := by
  have hshifted : ∀ m : Text, (commonIndent? ls).getD [] = m →
      (∀ l ∈ ls, l.all isIndent = false → m <+: l.indent) →
        List.Forall₂ (Shifted m step) ls (indentInterior step ls) := by
    intro m hm hbegins
    rw [indentInterior_eq, hm, List.map_map, List.forall₂_map_right_iff, List.forall₂_same]
    exact fun l hl => shifted_indentLine hstep fun hblank =>
      hbegins l hl (all_isIndent_of_not_blank hblank)
  cases hm : commonIndent? ls with
  | none =>
    have hnone := all_isIndent_of_commonIndent? hm
    refine ⟨[], rfl, ?_, hshifted [] (by rw [hm]; rfl) fun _ _ _ => List.nil_prefix⟩
    rintro ⟨l, hl, hall⟩
    rw [hnone l hl] at hall
    exact absurd hall (by simp)
  | some m =>
    have hlongest := longestIndent_commonIndent? hm
    exact ⟨m, hlongest.indents, fun _ => hlongest,
      hshifted m (by rw [hm]; rfl) (commonIndent?_isPrefix hm)⟩

/-! ### Placed blocks, line by line -/

/-- The lines of `t` are those of the block `r` placed with the indentation `base`: the first line is
    indented by `first`, the last one by `base`, and those between are shifted together. -/
structure Placement (r base pad first t : Text) : Prop where
  length : t.lines.length = r.lines.length
  top : t.lines.head? = r.lines.head?.map fun l => first ++ l.trim
  bottom : 1 < r.lines.length → t.lines.getLast? = r.lines.getLast?.map fun l => base ++ l.trim
  interior : ∃ m : Text, ((∃ l ∈ r.interior, l.all isIndent = false) → LongestIndent m r.interior) ∧
    List.Forall₂ (Shifted m (base ++ pad)) r.interior t.interior
  content : t.lines.map trim = r.lines.map trim

theorem map_trim_of_shifted {m step : Text} (hm : Blank m) (hstep : Blank step) {ls ls' : List Text}
    (h : List.Forall₂ (Shifted m step) ls ls') : ls'.map trim = ls.map trim := by
  induction h with
  | nil => rfl
  | cons hl _ ih => rw [List.map_cons, List.map_cons, hl.trim_eq hm hstep, ih]

/-- A placed block has the lines of the block, the first and the last of them trimmed and indented anew,
    and those between shifted by the longest indentation that they share. -/
theorem placement_indentBlock {base pad first : Text} (hbase : base.all isIndent = true)
    (hpad : pad.all isIndent = true) (hfirst : first.all isIndent = true) (r : Text) :
    Placement r base pad first (indentBlock r base pad first) := by
  have htrim : ∀ {w : Text}, w.all isIndent = true → ∀ l : Text, (w ++ l.trim).trim = l.trim := fun hw l => by
    rw [trim_blank_append (blank_of_all_isIndent hw), trim_trim]
  rw [indentBlock_first]
  rcases lines_cases r with ⟨hfeed, hlines⟩ | ⟨top, mid, bottom, hlines⟩
  · have hplaced : (first ++ r.trim).lines = [first ++ r.trim] :=
      lines_of_no_feed (by simp [no_feed_of_all_isIndent hfirst, no_feed_trim hfeed])
    rw [indentBlock_of_no_feed hfeed]
    refine ⟨by simp [hplaced, hlines], by simp [hplaced, hlines], by simp [hlines], ⟨[], ?_, ?_⟩, ?_⟩
    · simp [Text.interior, hlines]
    · simp [Text.interior, hlines, hplaced]
    · simp [hlines, hplaced, htrim hfirst]
  · have hstep : (base ++ pad).all isIndent = true := by rw [List.all_append, hbase, hpad, Bool.true_and]
    have hplaced := lines_append_left (no_feed_of_all_isIndent hfirst) (lines_indentBlock hbase hpad hlines)
    obtain ⟨m, hm, hlongest, hshifted⟩ := forall₂_indentInterior hstep mid
    refine ⟨?_, by simp [hplaced, hlines], fun _ => ?_, ⟨m, ?_, ?_⟩, ?_⟩
    · simp [hplaced, hlines, hshifted.length_eq]
    · rw [hplaced, hlines, ← List.cons_append, ← List.cons_append, List.getLast?_concat, List.getLast?_concat]
      rfl
    · rwa [interior_of_lines hlines]
    · rwa [interior_of_lines hlines, interior_of_lines hplaced]
    · rw [hplaced, hlines, List.map_cons, List.map_cons, List.map_append, List.map_append,
        map_trim_of_shifted (blank_of_all_isIndent hm) (blank_of_all_isIndent hstep) hshifted]
      simp [htrim hfirst, htrim hbase]

/-- Of two blank lines one holds more than spaces and tabs, so that it has a say in what the lines share. -/
theorem placement_nested :
    let r := "<%\n    if (a) \x7b\n  \x0b\n\t\n      b();  \n    \x7d\n %>".toList
    let t := "\t<%\n      if (a) \x7b\n\n\n        b();\n      \x7d\n  %>".toList
    "  ".toList.all isIndent = true ∧ "\t".toList.all isIndent = true ∧
      indentBlock r "  ".toList "  ".toList "\t".toList = t ∧
        Placement r "  ".toList "  ".toList "\t".toList t := by
  intro r t
  have hspaces : "  ".toList.all isIndent = true := by decide
  have htab : "\t".toList.all isIndent = true := by decide
  have hplaced : indentBlock r "  ".toList "  ".toList "\t".toList = t := by decide +kernel
  exact ⟨hspaces, htab, hplaced, hplaced ▸ placement_indentBlock hspaces hspaces htab r⟩

end JspLayout
