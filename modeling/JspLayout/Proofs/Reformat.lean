import JspLayout.Proofs.Fragments
import JspLayout.Proofs.Rows
import JspLayout.Java.Indenter

/-! Laying out Java moves blanks and nothing else.

    Joining continuations, cutting lines into fragments, splitting fragments into rows and indenting
    the rows each keep the characters that are not blank, in order, and never bring two of them
    together that stood apart. Main statement: without its blanks, laid out code is the code. -/

namespace JspLayout.Java

open Text

/-! ### Fragments and rows -/

theorem Cuts.looser {s : Text} {fs : List Text} (h : Cuts s fs) :
    Looser (marks s) (fs.flatMap marks) := by
  induction h with
  | blank hw => exact .of_eq (marks_blank hw)
  | last => exact .of_eq (by simp)
  | @comment u c =>
    refine (looser_append u c).trans (.of_eq ?_)
    rw [List.flatMap_singleton, marks_append_cons (by decide), marks_trim]
  | @cut u s fs _ _ _ _ ih =>
    rw [List.flatMap_cons, marks_trim]
    exact (looser_append u s).trans ((Looser.refl _).append ih)

theorem Halves.looser {code head tail : Text} (h : Halves code head tail) :
    Looser (marks code) (marks head ++ marks tail) := by
  obtain ⟨u, v, rfl, hhead, rfl, _, _⟩ := h
  have hu : marks head = marks u := by
    rcases hhead with rfl | rfl
    · exact marks_trim u
    · exact marks_trimRight u
  rw [hu, marks_trim]
  exact looser_append u v

theorem looser_splitTrailingComment (fragment : Text) :
    Looser (marks fragment)
      (marks (splitTrailingComment fragment).1 ++ marks (splitTrailingComment fragment).2) := by
  obtain ⟨a, b, hab, hsplit, _⟩ := splitTrailingComment_spec fragment
  rw [hsplit, hab, marks_trimRight, marks_trim]
  exact looser_append a b

theorem looser_spaceAfterClose (code : Text) :
    Looser (marks code) (marks (spaceAfterClose code)) := by
  rcases spaceAfterClose_spec code with h | ⟨w, r, hw, hcode, hspaced⟩
  · rw [h]
    exact Looser.refl _
  · rw [hspaced, hcode]
    refine (looser_append ['}'] (w ++ r)).trans (.of_eq ?_)
    rw [marks_blank_append hw]
    exact (marks_append_cons (s := ['}']) (by decide) r).symm

theorem looser_laidCode (code : Text) :
    Looser (marks code) (marks (Indenter.laidCode code)) := by
  unfold Indenter.laidCode
  split
  · exact looser_spaceAfterClose code
  · exact Looser.refl _

/-- The marks of what rows say. -/
def rowMarks (rows : List Row) : List (Char × Bool) := rows.flatMap fun row => marks row.text

theorem Splits.looser {code : Text} {rows : List Row} (h : Splits code rows) :
    Looser (marks code) (rowMarks rows) := by
  cases h with
  | whole depth => exact .of_eq (by simp [rowMarks])
  | head depth h => simpa [rowMarks] using h.looser
  | halves depth depth' h => simpa [rowMarks] using h.looser

theorem Splits.ne_nil {code : Text} {rows : List Row} (h : Splits code rows) : rows ≠ [] := by
  cases h <;> simp

namespace Indenter

/-- A comment goes after what the rows say. -/
theorem rowMarks_withComment (comment : Text) : ∀ {rows : List Row}, rows ≠ [] →
    rowMarks (withComment comment rows) = rowMarks rows ++ marks comment
  | [], h => absurd rfl h
  | [row], _ => by
    rw [withComment]
    split
    · next h => simp [rowMarks, h]
    · simp [rowMarks, marks_append_cons (b := ' ') (by decide)]
  | row :: row' :: rows, _ => by
    have ih := rowMarks_withComment comment (List.cons_ne_nil row' rows)
    rw [withComment]
    · simp only [rowMarks, List.flatMap_cons, List.append_assoc] at ih ⊢
      rw [ih]
    · simp

/-- A fragment is laid out with nothing lost and nothing brought together. -/
theorem looser_lay (st : Indenter) (fragment : Text) :
    Looser (marks fragment) (rowMarks (st.lay fragment).1) := by
  refine (looser_splitTrailingComment fragment).trans ?_
  rcases lay_cases st fragment with ⟨hcode, depth, hrows⟩ | ⟨rows, hsplits, hrows⟩
  · rw [hrows, hcode]
    exact .of_eq (by simp [rowMarks])
  · rw [hrows, rowMarks_withComment _ hsplits.ne_nil]
    exact ((looser_laidCode _).trans hsplits.looser).append (Looser.refl _)

theorem looser_layAll (st : Indenter) : ∀ fragments : List Text,
    Looser (fragments.flatMap marks) (rowMarks (st.layAll fragments).1)
  | [] => .nil
  | fragment :: rest => by
    rw [layAll, rowMarks, List.flatMap_append, List.flatMap_cons]
    exact (looser_lay st fragment).append (looser_layAll _ rest)

/-! ### Lines -/

theorem looser_layLine (st : Indenter) {line : Text} (hf : '\n' ∉ line) :
    Looser (marks line) (rowMarks (st.layLine line).1) := by
  simp only [layLine]
  split
  · next h => exact .of_eq (by simp [rowMarks, ← marks_trim line, h])
  · split
    · refine .of_eq ?_
      simp only [rowMarks, commentRow, List.flatMap_singleton]
      split
      · exact (marks_trim line).symm.trans (marks_append_cons (by decide) [] line.trim).symm
      · exact (marks_trim line).symm
    · have hf' : '\n' ∉ line.trim := fun h => hf ((trim_isInfix line).subset h)
      rw [← marks_trim line]
      exact (cuts_scan hf' true).looser.trans (looser_layAll st _)

theorem looser_layLines (st : Indenter) : ∀ {lines : List Text}, (∀ l ∈ lines, '\n' ∉ l) →
    Looser (lines.flatMap marks) (rowMarks (st.layLines lines).1)
  | [], _ => .nil
  | line :: rest, hf => by
    rw [layLines, rowMarks, List.flatMap_append, List.flatMap_cons]
    exact (looser_layLine st (hf line List.mem_cons_self)).append
      (looser_layLines _ fun l hl => hf l (List.mem_cons_of_mem _ hl))

end Indenter

/-! ### Continuations -/

/-- A line is added to those before it, or joined to the nearest one that is not blank. -/
theorem joinLine_cases (before : List Text) (line : Text) : joinLine before line = line :: before ∨
    ∃ target earlier, before.dropWhile blank = target :: earlier ∧
      joinLine before line = (target.trimRight ++ ' ' :: line.trim) :: earlier := by
  unfold joinLine
  split
  · split
    · exact Or.inl rfl
    · next target earlier h =>
      split
      · exact Or.inr ⟨target, earlier, h, rfl⟩
      · exact Or.inl rfl
  · exact Or.inl rfl

/-- A line goes after those before it, joined to one of them or not. -/
theorem flatMap_marks_joinLine (before : List Text) (line : Text) :
    (joinLine before line).reverse.flatMap marks = before.reverse.flatMap marks ++ marks line := by
  rcases joinLine_cases before line with h | ⟨target, earlier, hbefore, h⟩
  · rw [h]
    simp
  · rw [h, ← flatMap_marks_reverse_dropWhile before, hbefore]
    simp [marks_append_cons (b := ' ') (by decide), marks_trimRight]

theorem flatMap_marks_foldl_joinLine (lines before : List Text) :
    (lines.foldl joinLine before).reverse.flatMap marks =
      before.reverse.flatMap marks ++ lines.flatMap marks := by
  induction lines generalizing before with
  | nil => simp
  | cons l ls ih => rw [List.foldl_cons, ih, flatMap_marks_joinLine, List.flatMap_cons,
      List.append_assoc]

theorem marks_joinContinuations (code : Text) : marks (joinContinuations code) = marks code := by
  rw [joinContinuations, marks_unlines, flatMap_marks_foldl_joinLine, marks_lines]
  rfl

/-! ### The whole layout -/

theorem marks_render {unit : Text} (h : Blank unit) (row : Row) :
    marks (row.render unit) = marks row.text :=
  marks_blank_append (blank_times h _) _

/-- Laid out code is the code with its blanks moved: nothing is brought together. -/
theorem looser_reformatWith {unit : Text} (h : Blank unit) (code : Text) :
    Looser (marks code) (marks (reformatWith unit code)) := by
  rw [reformatWith, marks_unlines, List.flatMap_map, ← marks_joinContinuations, ← marks_lines]
  refine (Indenter.looser_layLines {} (lines_no_feed _)).trans (.of_eq ?_)
  simp only [marks_render h]
  rfl

theorem blank_indentUnit (width : Int) (useTabs : Bool) : Blank (indentUnit width useTabs) := by
  unfold indentUnit
  split
  · exact Blank.cons (by decide) blank_nil
  · exact blank_spaces width

/-- The layout of Java never drops, doubles, moves or makes up a character that is not blank, for
    any text and any unit of indentation. -/
theorem solid_reformat (code : Text) (width : Int) (useTabs : Bool) :
    (reformat code width useTabs).solid = code.solid :=
  (looser_reformatWith (blank_indentUnit width useTabs) code).solid_eq

end JspLayout.Java
