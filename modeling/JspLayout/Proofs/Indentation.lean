import JspLayout.Proofs.Depths

/-! Rows and units of indentation.

    The layout of code is fixed before it is known what a level of indentation is; the rows are then
    written one to a line. Main statement: written with any unit, the lines of laid out code are the
    same texts at the same depths, and no line has blanks at its end, or blanks at its start other than
    its indentation and one space before the star of a comment. -/

namespace JspLayout.Java

open Text

/-! ### Texts that fill a line -/

/-- A text that fills a line: not empty, with no blanks around it and no line feed in it. -/
structure Inked (s : Text) : Prop where
  ne : s ≠ []
  tight : Tight s
  feed : '\n' ∉ s

theorem Inked.of_trim {s : Text} (hne : s.trim ≠ []) (hf : '\n' ∉ s) : Inked s.trim :=
  ⟨hne, tight_trim s, fun h => hf ((trim_isInfix s).subset h)⟩

theorem RowPiece.inked {s : Text} (h : RowPiece s) : Inked s := ⟨h.ne, h.tight, h.feed⟩

theorem Inked.exists_head {s : Text} (h : Inked s) : ∃ c, s.head? = some c ∧ isBlank c = false := by
  obtain ⟨c, t, rfl⟩ := List.exists_cons_of_ne_nil h.ne
  exact ⟨c, rfl, h.tight.1 c rfl⟩

theorem Inked.exists_last {s : Text} (h : Inked s) : ∃ c, s.getLast? = some c ∧ isBlank c = false :=
  ⟨_, List.getLast?_eq_some_getLast h.ne, h.tight.2 _ (List.getLast?_eq_some_getLast h.ne)⟩

/-- Code cut in two after a character that is not blank. -/
theorem Inked.cut {code head v : Text} (h : Inked code) (hcode : code = head ++ v) {c : Char}
    (hlast : head.getLast? = some c) (hc : isBlank c = false) :
    Inked head ∧ (v.trim ≠ [] → Inked v.trim) := by
  have htight := h.tight
  have hfeed := h.feed
  rw [hcode] at htight hfeed
  rw [List.mem_append, not_or] at hfeed
  refine ⟨⟨?_, ⟨htight.head_of_append, ?_⟩, hfeed.1⟩, fun hne => .of_trim hne hfeed.2⟩
  · rintro rfl
    simp at hlast
  · rw [hlast]
    rintro d ⟨⟩
    exact hc

theorem Inked.rowText {code comment : Text} (h : Inked code) (hcomment : Tight comment)
    (hf : '\n' ∉ comment) : Inked (rowText code comment) := by
  refine ⟨fun hnil => ?_, tight_rowText h.tight hcomment h.ne, ?_⟩
  · have hhead := head?_rowText h.ne comment
    rw [hnil, List.head?_nil] at hhead
    exact h.ne (List.head?_eq_none_iff.mp hhead.symm)
  · rw [Java.rowText]
    split
    · exact h.feed
    · simp [h.feed, hf]

namespace Indenter

variable {st : Indenter}

theorem inked_labelRows {depth : Int} {head tail : Text} (hhead : Inked head)
    (htail : tail ≠ [] → Inked tail) : ∀ row ∈ labelRows depth head tail, Inked row.text := by
  rw [labelRows]
  split
  · simpa using hhead
  · next hne => simpa using ⟨hhead, htail hne⟩

theorem inked_layStatement {code : Text} (h : Inked code) (carried : Int) :
    ∀ row ∈ (st.layStatement carried code).1, Inked row.text := by
  simp only [layStatement]
  split
  · next head tail hsplit =>
    split
    · simpa using h
    · next hne =>
      split
      · simpa using h
      · split at hsplit
        · exact absurd hsplit (by simp)
        · obtain ⟨v, hcode, rfl, hheading, _⟩ := exists_heading hsplit
          obtain ⟨c, hlast, _⟩ := hheading.getLast?
          obtain ⟨hhead, htail⟩ := h.cut hcode hlast (hheading.solid_last c hlast)
          simpa using ⟨hhead, htail hne⟩
  · simpa using h

theorem inked_layCode {code : Text} (h : Inked code) (carried : Int) :
    ∀ row ∈ (st.layCode carried code).1, Inked row.text := by
  rw [layCode]
  split
  · next head tail hsplit =>
    obtain ⟨v, hcode, rfl, hlabel⟩ := exists_labelling h.tight hsplit
    obtain ⟨hhead, htail⟩ := h.cut hcode hlabel.getLast? (by decide)
    exact inked_labelRows hhead htail
  · exact inked_layStatement h carried

theorem inked_withComment {comment : Text} (hcomment : Tight comment) (hf : '\n' ∉ comment) :
    ∀ {rows : List Row}, (∀ row ∈ rows, Inked row.text) →
      ∀ row ∈ withComment comment rows, Inked row.text
  | [], _ => by simp [withComment]
  | [⟨depth, text⟩], h => by
    rw [withComment_single]
    simpa using (h _ List.mem_cons_self).rowText hcomment hf
  | row :: row' :: rows, h => by
    obtain ⟨hrow, hrest⟩ := List.forall_mem_cons.mp h
    rw [withComment]
    · exact List.forall_mem_cons.mpr ⟨hrow, inked_withComment hcomment hf hrest⟩
    · exact List.cons_ne_nil _ _

/-- Each row of a fragment that fills its line does so too. -/
theorem inked_lay (st : Indenter) {f : Text} (h : Inked f) : ∀ row ∈ (st.lay f).1, Inked row.text := by
  obtain ⟨w, hw, hparts, hparted, _⟩ := exists_parted h.feed h.tight
  have hfeed := h.feed
  rw [hparts, List.mem_append, not_or, List.mem_append, not_or] at hfeed
  by_cases hcode : codePart f = []
  · have hne : (splitTrailingComment f).2 ≠ [] := by
      intro hnil
      rw [hcode, hnil, List.nil_append, List.append_nil] at hparts
      exact h.ne (eq_nil_of_blank (hparts ▸ hw) h.tight.2)
    rw [lay_of_code_eq_nil hcode]
    exact List.forall_mem_singleton.mpr ⟨hne, hparted.comment_tight, hfeed.2.2⟩
  · have hlaid : Inked (laidCode (codePart f)) :=
      ⟨laidCode_ne_nil hcode, hparted.laid.tight, not_mem_laidCode hfeed.1⟩
    rw [lay_of_code_ne_nil hcode]
    exact inked_withComment hparted.comment_tight hfeed.2.2 (inked_layCode hlaid st.carried)

theorem inked_layAll : ∀ {fs : List Text} (st : Indenter), (∀ f ∈ fs, Inked f) →
    ∀ row ∈ (st.layAll fs).1, Inked row.text
  | [], _, _ => by simp [layAll]
  | f :: fs, st, h => by
    obtain ⟨hf, hrest⟩ := List.forall_mem_cons.mp h
    rw [layAll]
    exact List.forall_mem_append.mpr ⟨inked_lay st hf, inked_layAll _ hrest⟩

end Indenter

/-! ### Rows -/

/-- A row that leaves no stray blank on its line: it is empty and not indented, or its text fills the
    line, with one space before it where it goes on with a comment at a star. -/
inductive Neat : Row → Prop
  | empty : Neat ⟨0, []⟩
  | inked {depth : Int} {text : Text} : 0 ≤ depth → Inked text → Neat ⟨depth, text⟩
  | star {depth : Int} {text : Text} : 0 ≤ depth → Inked ('*' :: text) → Neat ⟨depth, ' ' :: '*' :: text⟩

theorem Neat.feed {row : Row} (h : Neat row) : '\n' ∉ row.text := by
  cases h with
  | empty => simp
  | inked _ htext => exact htext.feed
  | star _ htext => simpa using htext.feed

namespace Indenter

variable {st : Indenter}

theorem Steady.neat_commentRow (h : Steady st) {line : Text} (hline : Inked line) :
    Neat (st.commentRow line) := by
  have hdepth : 0 ≤ st.level + st.switchOffset + st.carried := by
    have hlevel := h.level
    have hoffset := st.switchOffset_nonneg
    have hcarried := h.carried_nonneg
    omega
  rw [commentRow]
  split
  · next hstar =>
    obtain ⟨t, rfl⟩ := List.head?_eq_some_iff.mp hstar
    exact .star hdepth hline
  · exact .inked hdepth hline

theorem Steady.neat_layLine (h : Steady st) {line : Text} (hf : '\n' ∉ line) :
    ∀ row ∈ (st.layLine line).1, Neat row := by
  simp only [Indenter.layLine]
  split
  · simpa using Neat.empty
  · next hne =>
    have hline : Inked line.trim := .of_trim hne hf
    split
    · simpa using h.neat_commentRow hline
    · have hinked := inked_layAll st fun f hmem =>
        (rowPiece_of_mem_scan hline.feed hline.tight f hmem).inked
      exact fun row hrow => .inked (h.depth_layAll row hrow) (hinked row hrow)

theorem Steady.neat_layLines : ∀ {lines : List Text} {st : Indenter}, Steady st →
    (∀ l ∈ lines, '\n' ∉ l) → ∀ row ∈ (st.layLines lines).1, Neat row
  | [], _, _, _ => by simp [layLines]
  | line :: lines, st, h, hf => by
    obtain ⟨hline, hrest⟩ := List.forall_mem_cons.mp hf
    rw [layLines]
    exact List.forall_mem_append.mpr
      ⟨h.neat_layLine hline, Steady.neat_layLines (h.layLine line) hrest⟩

/-- No line is lost. -/
theorem layLine_ne_nil (st : Indenter) {line : Text} (hf : '\n' ∉ line) : (st.layLine line).1 ≠ [] := by
  intro hnil
  have hkept := looser_layLine st hf
  rw [hnil] at hkept
  have hblank : Blank line := blank_of_marks_eq_nil (List.forall₂_nil_right_iff.mp hkept)
  have htrim : line.trim = [] := (trim_eq_nil_iff line).mpr hblank
  simp [layLine, htrim] at hnil

end Indenter

theorem neat_layout (code : Text) : ∀ row ∈ layout code, Neat row :=
  Indenter.steady_start.neat_layLines (lines_no_feed _)

theorem layout_ne_nil (code : Text) : layout code ≠ [] := by
  obtain ⟨line, lines, hlines⟩ := List.exists_cons_of_ne_nil (lines_ne_nil (joinContinuations code))
  have hf : '\n' ∉ line := lines_no_feed (joinContinuations code) line (by rw [hlines]; exact List.mem_cons_self)
  rw [layout, hlines, Indenter.layLines]
  exact List.append_ne_nil_of_left_ne_nil (Indenter.layLine_ne_nil {} hf) _

/-! ### Lines -/

theorem not_mem_times {c : Char} {unit : Text} (h : c ∉ unit) : ∀ n, c ∉ unit.times n
  | 0 => List.not_mem_nil
  | n + 1 => by simp [times, h, not_mem_times h n]

theorem no_feed_indentUnit (width : Int) (useTabs : Bool) : '\n' ∉ indentUnit width useTabs := by
  rw [indentUnit]
  split
  · decide
  · exact fun h => absurd (List.eq_of_mem_replicate h) (by decide)

/-- The lines of laid out code are its rows. -/
theorem lines_reformatWith {unit : Text} (hunit : '\n' ∉ unit) (code : Text) :
    (reformatWith unit code).lines = (layout code).map (Row.render unit) := by
  refine lines_unlines (fun hnil => layout_ne_nil code (List.map_eq_nil_iff.mp hnil)) fun l hl => ?_
  obtain ⟨row, hrow, rfl⟩ := List.mem_map.mp hl
  rw [Row.render, List.mem_append, not_or]
  exact ⟨not_mem_times hunit _, (neat_layout code row hrow).feed⟩

/-- The layout of code does not depend on the unit of indentation. There is one list of depths and texts
    that gives the lines of the laid out code for tabs and for any number of spaces. Each text is empty
    and at depth zero, or it ends with a character that is not blank and begins with one, or with one
    space and a star. -/
theorem reformat_eq_rows (code : Text) : ∃ rows : List (Nat × Text),
    (∀ (width : Int) (useTabs : Bool),
      let unit : Text := if useTabs then ['\t'] else List.replicate width.toNat ' '
      let written : List Text := rows.map fun row => unit.times row.1 ++ row.2
      reformat code width useTabs = unlines written ∧ (reformat code width useTabs).lines = written) ∧
    ∀ row ∈ rows, '\n' ∉ row.2 ∧
      (row = (0, []) ∨ (∃ c, row.2.getLast? = some c ∧ isBlank c = false) ∧
        ((∃ c, row.2.head? = some c ∧ isBlank c = false) ∨ ∃ rest, row.2 = ' ' :: '*' :: rest)) := by
  refine ⟨(layout code).map fun row => (row.depth.toNat, row.text), fun width useTabs => ?_, ?_⟩
  · intro unit written
    have hwritten : (layout code).map (Row.render unit) = written := by
      simp only [written, List.map_map]
      rfl
    rw [← hwritten]
    exact ⟨rfl, lines_reformatWith (no_feed_indentUnit width useTabs) code⟩
  · refine List.forall_mem_map.mpr fun row hrow => ?_
    have hneat := neat_layout code row hrow
    refine ⟨hneat.feed, ?_⟩
    cases hneat with
    | empty => exact Or.inl rfl
    | inked _ htext => exact Or.inr ⟨htext.exists_last, Or.inl htext.exists_head⟩
    | star _ htext =>
      obtain ⟨c, hlast, hc⟩ := htext.exists_last
      exact Or.inr ⟨⟨c, by rwa [List.getLast?_cons_cons], hc⟩, Or.inr ⟨_, rfl⟩⟩

end JspLayout.Java
