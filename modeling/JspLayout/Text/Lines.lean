import JspLayout.Text.Blank

/-! Lines of a text.

    A line feed ends a line and belongs to neither side, so a text always has one line more than it
    has line feeds, and joining the lines gives the text back. -/

namespace JspLayout.Text

/-- The lines of `s`; never an empty list. -/
def lines : Text → List Text
  | [] => [[]]
  | c :: s =>
    if c = '\n' then [] :: lines s
    else
      match lines s with
      | [] => [[c]]
      | l :: ls => (c :: l) :: ls

/-- The lines joined by line feeds. -/
def unlines : List Text → Text
  | [] => []
  | [l] => l
  | l :: ls => l ++ '\n' :: unlines ls

theorem lines_ne_nil (s : Text) : lines s ≠ [] := by
  cases s with
  | nil => simp [lines]
  | cons c s =>
    rw [lines]
    split
    · simp
    · split <;> simp

theorem unlines_cons (l : Text) {ls : List Text} (h : ls ≠ []) :
    unlines (l :: ls) = l ++ '\n' :: unlines ls := by
  cases ls with
  | nil => exact absurd rfl h
  | cons m ms => rfl

/-- Joining the lines of a text gives the text back. -/
theorem unlines_lines (s : Text) : unlines (lines s) = s := by
  induction s with
  | nil => rfl
  | cons c s ih =>
    rw [lines]
    split
    · next h => rw [unlines_cons _ (lines_ne_nil s), ih, h]; rfl
    · cases hl : lines s with
      | nil => exact absurd hl (lines_ne_nil s)
      | cons l ls =>
        rw [hl] at ih
        cases ls with
        | nil => simpa [unlines] using ih
        | cons m ms => simpa [unlines] using ih

/-- No line of a text holds a line feed. -/
theorem lines_no_feed (s : Text) : ∀ l ∈ lines s, '\n' ∉ l := by
  induction s with
  | nil => simp [lines]
  | cons c s ih =>
    rw [lines]
    split
    · intro l hl
      rcases List.mem_cons.mp hl with rfl | hl
      · simp
      · exact ih l hl
    · next hc =>
      cases hs : lines s with
      | nil => exact absurd hs (lines_ne_nil s)
      | cons m ms =>
        rw [hs] at ih
        intro l hl
        rcases List.mem_cons.mp hl with rfl | hl
        · intro hm
          rcases List.mem_cons.mp hm with h | h
          · exact hc h.symm
          · exact ih m List.mem_cons_self h
        · exact ih l (List.mem_cons_of_mem _ hl)

end JspLayout.Text
