import Mathlib.Data.List.Forall2
import Mathlib.Data.List.Induction
import Mathlib.Data.List.TakeWhile
import JspLayout.Text.Lines

/-! Texts compared by their spacing.

    The marks of a text are its characters that are not blank, each with whether a blank comes right
    before it. One text is *looser* than another when it has the same characters in the same order
    and a gap wherever the other has one: blanks may have been moved, added or shortened, but no two
    characters that stood apart have been brought together. -/

namespace JspLayout.Text

/-! ### Blanks -/

/-- A text of blanks alone. -/
def Blank (s : Text) : Prop := ∀ c ∈ s, isBlank c = true

/-- A text without blanks. -/
def Solid (s : Text) : Prop := ∀ c ∈ s, isBlank c = false

instance (s : Text) : Decidable (Solid s) := List.decidableBAll (fun c => isBlank c = false) s

theorem blank_iff (s : Text) : s.blank = true ↔ Blank s := by simp [blank, Blank]

theorem not_blank_iff (s : Text) : s.blank = false ↔ ¬Blank s := by
  rw [← Bool.not_eq_true, blank_iff]

theorem blank_nil : Blank [] := by simp [Blank]

theorem Blank.cons {c : Char} {s : Text} (hc : isBlank c = true) (hs : Blank s) : Blank (c :: s) :=
  List.forall_mem_cons.mpr ⟨hc, hs⟩

theorem Blank.append {s t : Text} (hs : Blank s) (ht : Blank t) : Blank (s ++ t) :=
  List.forall_mem_append.mpr ⟨hs, ht⟩

theorem isBlank_of_isIndent {c : Char} (h : isIndent c = true) : isBlank c = true := by
  simp only [isIndent, Bool.or_eq_true, beq_iff_eq] at h
  rcases h with rfl | rfl <;> decide

theorem blank_indent (s : Text) : Blank s.indent := by
  intro c hc
  exact isBlank_of_isIndent (List.mem_takeWhile_imp hc)

theorem indent_isPrefix (s : Text) : s.indent <+: s :=
  List.takeWhile_prefix _

theorem blank_spaces (n : Int) : Blank (spaces n) := by
  intro c hc
  rw [List.eq_of_mem_replicate hc]
  decide

theorem blank_times {unit : Text} (h : Blank unit) : ∀ n, Blank (unit.times n)
  | 0 => blank_nil
  | n + 1 => h.append (blank_times h n)

theorem solid_append (s t : Text) : solid (s ++ t) = s.solid ++ t.solid := List.filter_append ..

@[simp] theorem solid_nil : solid [] = [] := rfl

theorem solid_cons {c : Char} (hc : isBlank c = false) (s : Text) : solid (c :: s) = c :: s.solid :=
  List.filter_cons_of_pos (by simp [hc])

theorem solid_blank_cons {c : Char} (hc : isBlank c = true) (s : Text) : solid (c :: s) = s.solid :=
  List.filter_cons_of_neg (by simp [hc])

theorem Solid.solid_eq {s : Text} (h : Solid s) : s.solid = s :=
  List.filter_eq_self.mpr fun c hc => by simp [h c hc]

theorem Blank.solid_eq {s : Text} (h : Blank s) : s.solid = [] :=
  List.filter_eq_nil_iff.mpr fun c hc => by simp [h c hc]

/-- What trimming takes off the start of a text is blank. -/
theorem exists_blank_trimLeft (s : Text) : ∃ w, Blank w ∧ s = w ++ s.trimLeft :=
  ⟨s.takeWhile isBlank, fun _ hc => List.mem_takeWhile_imp hc,
    (List.takeWhile_append_dropWhile).symm⟩

/-- What trimming takes off the end of a text is blank. -/
theorem exists_blank_trimRight (s : Text) : ∃ w, Blank w ∧ s = s.trimRight ++ w := by
  refine ⟨(s.reverse.takeWhile isBlank).reverse, ?_, ?_⟩
  · intro c hc
    exact List.mem_takeWhile_imp (List.mem_reverse.mp hc)
  · rw [trimRight, dropEndWhile, ← List.reverse_append, List.takeWhile_append_dropWhile,
      List.reverse_reverse]

theorem trimRight_isPrefix (s : Text) : s.trimRight <+: s := by
  obtain ⟨w, _, hs⟩ := exists_blank_trimRight s
  exact ⟨w, hs.symm⟩

theorem trim_isInfix (s : Text) : s.trim <:+: s := by
  obtain ⟨w, _, hs⟩ := exists_blank_trimLeft s
  exact (trimRight_isPrefix s.trimLeft).isInfix.trans ⟨w, [], by simp [← hs]⟩

theorem trimLeft_of_solid_head {c : Char} {s : Text} (h : isBlank c = false) :
    trimLeft (c :: s) = c :: s := by
  simp [trimLeft, h]

theorem trimLeft_blank_append {w : Text} (hw : Blank w) (s : Text) :
    trimLeft (w ++ s) = trimLeft s := by
  induction w with
  | nil => rfl
  | cons c w ih =>
    rw [trimLeft, List.cons_append, List.dropWhile_cons_of_pos (hw c List.mem_cons_self)]
    exact ih fun d hd => hw d (List.mem_cons_of_mem _ hd)

theorem trimLeft_blank {w : Text} (hw : Blank w) : trimLeft w = [] := by
  have h := trimLeft_blank_append hw []
  rwa [List.append_nil] at h

theorem trimLeft_append {s : Text} (hs : ¬Blank s) (t : Text) :
    trimLeft (s ++ t) = trimLeft s ++ t := by
  induction s with
  | nil => exact absurd blank_nil hs
  | cons c s ih =>
    cases hc : isBlank c with
    | false => rw [List.cons_append, trimLeft_of_solid_head hc, trimLeft_of_solid_head hc]; rfl
    | true =>
      have h : ¬Blank s := fun h => hs (h.cons hc)
      rw [trimLeft, trimLeft, List.cons_append, List.dropWhile_cons_of_pos hc,
        List.dropWhile_cons_of_pos hc]
      exact ih h

theorem trimRight_eq_reverse (s : Text) : s.trimRight = (trimLeft s.reverse).reverse := rfl

theorem trimRight_append_blank {w : Text} (hw : Blank w) (s : Text) :
    trimRight (s ++ w) = trimRight s := by
  have hr : Blank w.reverse := fun c hc => hw c (List.mem_reverse.mp hc)
  rw [trimRight_eq_reverse, List.reverse_append, trimLeft_blank_append hr, trimRight_eq_reverse]

theorem trimRight_blank {w : Text} (hw : Blank w) : w.trimRight = [] := by
  simpa [trimRight, dropEndWhile] using trimRight_append_blank hw []

theorem trimRight_append {t : Text} (ht : ¬Blank t) (s : Text) :
    trimRight (s ++ t) = s ++ t.trimRight := by
  have hrev : ¬Blank t.reverse := fun h => ht fun c hc => h c (List.mem_reverse.mpr hc)
  rw [trimRight_eq_reverse, List.reverse_append, trimLeft_append hrev, trimRight_eq_reverse]
  simp

theorem not_blank_trimRight {s : Text} (h : ¬Blank s) : ¬Blank s.trimRight := by
  obtain ⟨w, hw, hs⟩ := exists_blank_trimRight s
  intro hb
  exact h (by rw [hs]; exact hb.append hw)

theorem trimRight_ne_nil {s : Text} (h : ¬Blank s) : s.trimRight ≠ [] := fun hnil =>
  not_blank_trimRight h (hnil ▸ blank_nil)

theorem trim_blank_append {w : Text} (hw : Blank w) (s : Text) : trim (w ++ s) = trim s := by
  rw [trim, trimLeft_blank_append hw, trim]

theorem trim_blank {w : Text} (hw : Blank w) : trim w = [] := by
  rw [trim, trimLeft_blank hw]
  rfl

theorem trim_append_blank {w : Text} (hw : Blank w) (s : Text) : trim (s ++ w) = trim s := by
  by_cases hs : Blank s
  · rw [trim_blank_append hs, trim_blank hw, trim_blank hs]
  · rw [trim, trimLeft_append hs, trimRight_append_blank hw, trim]

theorem trimRight_of_solid_last {c : Char} {s : Text} (h : isBlank c = false) :
    trimRight (s ++ [c]) = s ++ [c] := by
  rw [trimRight_eq_reverse, List.reverse_append, List.reverse_singleton, List.singleton_append,
    trimLeft_of_solid_head h]
  simp

theorem trimLeft_of_head {s : Text} (h : ∀ c ∈ s.head?, isBlank c = false) : s.trimLeft = s := by
  cases s with
  | nil => rfl
  | cons c s => exact trimLeft_of_solid_head (h c rfl)

theorem trimRight_of_last {s : Text} (h : ∀ c ∈ s.getLast?, isBlank c = false) :
    s.trimRight = s := by
  rcases List.eq_nil_or_concat s with rfl | ⟨l, c, rfl⟩
  · rfl
  · rw [List.concat_eq_append]
    exact trimRight_of_solid_last (h c (by simp))

theorem last_trimRight (s : Text) : ∀ c ∈ s.trimRight.getLast?, isBlank c = false := by
  intro c hc
  rw [trimRight, dropEndWhile, List.getLast?_reverse] at hc
  have := List.head?_dropWhile_not isBlank s.reverse
  rw [Option.mem_def.mp hc] at this
  simpa using this

/-- Without blanks at its end, a text is blanks and what is left of it after trimming. -/
theorem exists_blank_trim {s : Text} (h : ∀ c ∈ s.getLast?, isBlank c = false) :
    ∃ w, Blank w ∧ s = w ++ s.trim := by
  obtain ⟨w, hw, hs⟩ := exists_blank_trimLeft s
  refine ⟨w, hw, ?_⟩
  rw [trim, trimRight_of_last fun c hc => h c ?_, ← hs]
  rw [hs, List.getLast?_append, Option.mem_def.mp hc]
  rfl

theorem eq_nil_of_blank {w : Text} (hw : Blank w) (h : ∀ c ∈ w.getLast?, isBlank c = false) :
    w = [] := by
  rcases List.eq_nil_or_concat w with hnil | ⟨t, c, rfl⟩
  · exact hnil
  · have hc := h c (by simp)
    rw [hw c (by simp)] at hc
    exact absurd hc (by simp)

theorem trim_drop_indent {l : Text} {m : Nat} (h : m ≤ l.indent.length) : trim (l.drop m) = l.trim := by
  have hsplit : l = l.indent ++ l.dropWhile isIndent := List.takeWhile_append_dropWhile.symm
  have hdrop : Blank (l.indent.drop m) := fun c hc => blank_indent l c (List.mem_of_mem_drop hc)
  conv_lhs => rw [hsplit, List.drop_append_of_le_length h, trim_blank_append hdrop]
  conv_rhs => rw [hsplit, trim_blank_append (blank_indent l)]

theorem trim_eq_nil_iff (s : Text) : s.trim = [] ↔ Blank s := by
  refine ⟨fun h => ?_, trim_blank⟩
  obtain ⟨w, hw, hs⟩ := exists_blank_trimLeft s
  obtain ⟨w', hw', hs'⟩ := exists_blank_trimRight s.trimLeft
  rw [hs, hs', ← trim, h]
  exact hw.append hw'

/-! ### Lines -/

theorem lines_of_no_feed {l : Text} (h : '\n' ∉ l) : lines l = [l] := by
  induction l with
  | nil => rfl
  | cons c l ih =>
    rw [List.mem_cons, not_or] at h
    rw [lines, if_neg (Ne.symm h.1), ih h.2]

theorem lines_append_feed {l : Text} (h : '\n' ∉ l) (s : Text) :
    lines (l ++ '\n' :: s) = l :: lines s := by
  induction l with
  | nil => simp [lines]
  | cons c l ih =>
    rw [List.mem_cons, not_or] at h
    rw [List.cons_append, lines, if_neg (Ne.symm h.1), ih h.2]

/-- Lines that are joined can be taken apart again. -/
theorem lines_unlines : ∀ {ls : List Text}, ls ≠ [] → (∀ l ∈ ls, '\n' ∉ l) → lines (unlines ls) = ls
  | [], h, _ => absurd rfl h
  | [l], _, hf => lines_of_no_feed (hf l List.mem_cons_self)
  | l :: l' :: ls, _, hf => by
    obtain ⟨hl, hls⟩ := List.forall_mem_cons.mp hf
    rw [unlines_cons _ (by simp), lines_append_feed hl, lines_unlines (by simp) hls]

theorem unlines_concat : ∀ {ls : List Text}, ls ≠ [] → ∀ l : Text,
    unlines (ls ++ [l]) = unlines ls ++ '\n' :: l
  | [], h, _ => absurd rfl h
  | [_], _, _ => rfl
  | m :: m' :: ls, _, l => by
    have ih := unlines_concat (List.cons_ne_nil m' ls) l
    rw [List.cons_append, unlines_cons m (by simp), ih, unlines_cons m (by simp), List.append_assoc]
    rfl

theorem unlines_append_last (ls : List Text) (l z : Text) :
    unlines (ls ++ [l ++ z]) = unlines (ls ++ [l]) ++ z := by
  cases ls with
  | nil => rfl
  | cons m ls => rw [unlines_concat (by simp), unlines_concat (by simp), List.append_assoc]; rfl

theorem lines_append_right {z : Text} (hz : '\n' ∉ z) {s l : Text} {ls : List Text}
    (h : s.lines = ls ++ [l]) : (s ++ z).lines = ls ++ [l ++ z] := by
  have hfeed := lines_no_feed s
  have hs := unlines_lines s
  rw [h] at hfeed hs
  rw [← hs, ← unlines_append_last, lines_unlines (by simp)]
  intro k hk
  rcases List.mem_append.mp hk with hk | hk
  · exact hfeed k (List.mem_append_left _ hk)
  · obtain rfl : k = l ++ z := by simpa using hk
    simp [hz, hfeed l (by simp)]

/-! ### Lines that are not blank -/

/-- Texts without the blanks around them; those of blanks alone are dropped. -/
def trimmed (ts : List Text) : List Text := (ts.map trim).filter (· ≠ [])

/-- The lines of a text that are not blank, each without the blanks around it. -/
def inkedLines (s : Text) : List Text := trimmed s.lines

theorem trimmed_append (ts us : List Text) : trimmed (ts ++ us) = trimmed ts ++ trimmed us := by
  rw [trimmed, List.map_append, List.filter_append]
  rfl

theorem trimmed_cons (t : Text) (ts : List Text) : trimmed (t :: ts) = trimmed [t] ++ trimmed ts :=
  trimmed_append [t] ts

theorem trimmed_singleton (t : Text) : trimmed [t] = if t.trim = [] then [] else [t.trim] := by
  by_cases h : t.trim = [] <;> simp [trimmed, h]

theorem trimmed_reverse (ts : List Text) : trimmed ts.reverse = (trimmed ts).reverse := by
  rw [trimmed, List.map_reverse, List.filter_reverse]
  rfl

theorem trimmed_of_blank {ts : List Text} (h : ∀ t ∈ ts, Blank t) : trimmed ts = [] := by
  refine List.filter_eq_nil_iff.mpr fun t ht => ?_
  obtain ⟨u, hu, rfl⟩ := List.mem_map.mp ht
  simp [trim_blank (h u hu)]

theorem trimmed_dropWhile_blank (ts : List Text) : trimmed (ts.dropWhile blank) = trimmed ts := by
  have hblank : trimmed (ts.takeWhile blank) = [] :=
    trimmed_of_blank fun t ht => (blank_iff t).mp (List.mem_takeWhile_imp ht)
  conv_rhs => rw [← List.takeWhile_append_dropWhile (p := blank) (l := ts), trimmed_append, hblank]
  rfl

/-- Joined lines are inked as the lines are. -/
theorem inkedLines_unlines {ls : List Text} (hf : ∀ l ∈ ls, '\n' ∉ l) :
    (unlines ls).inkedLines = trimmed ls := by
  by_cases hne : ls = []
  · rw [hne]
    rfl
  · rw [inkedLines, lines_unlines hne hf]

theorem inkedLines_concat {c : Char} (hc : isBlank c = true) (s : Text) :
    (s ++ [c]).inkedLines = s.inkedLines := by
  obtain ⟨ls, l, hlines⟩ : ∃ ls l, s.lines = ls ++ [l] :=
    ⟨_, _, (List.dropLast_concat_getLast (lines_ne_nil s)).symm⟩
  by_cases hfeed : c = '\n'
  · have hunlines : s ++ [c] = unlines (s.lines ++ [[]]) := by
      rw [unlines_concat (lines_ne_nil s), unlines_lines, hfeed]
    have hf : ∀ l ∈ s.lines ++ [[]], '\n' ∉ l := by
      intro l hl
      rcases List.mem_append.mp hl with hl | hl
      · exact lines_no_feed s l hl
      · obtain rfl : l = [] := by simpa using hl
        simp
    have hnil : trimmed [[]] = [] := rfl
    rw [hunlines, inkedLines_unlines hf, trimmed_append, hnil, List.append_nil]
    rfl
  · have hone : Blank [c] := Blank.cons hc blank_nil
    rw [inkedLines, lines_append_right (by simpa using Ne.symm hfeed) hlines, inkedLines, hlines,
      trimmed_append, trimmed_append, trimmed_singleton, trimmed_singleton, trim_append_blank hone]

theorem inkedLines_append_blank {w : Text} (hw : Blank w) (s : Text) :
    (s ++ w).inkedLines = s.inkedLines := by
  induction w generalizing s with
  | nil => rw [List.append_nil]
  | cons c w ih =>
    obtain ⟨hc, hw⟩ := List.forall_mem_cons.mp hw
    rw [List.append_cons, ih hw, inkedLines_concat hc]

theorem inkedLines_trimRight (s : Text) : s.trimRight.inkedLines = s.inkedLines := by
  obtain ⟨w, hw, hs⟩ := exists_blank_trimRight s
  conv_rhs => rw [hs, inkedLines_append_blank hw]

/-! ### Marks -/

/-- The characters of a text that are not blank, each with whether a blank comes right before it;
    `gap` says so of the start. -/
def marksFrom (gap : Bool) : Text → List (Char × Bool)
  | [] => []
  | c :: s => if isBlank c then marksFrom true s else (c, gap) :: marksFrom false s

/-- The marks of a text that stands on its own. -/
def marks (s : Text) : List (Char × Bool) := marksFrom true s

/-- Whether a blank comes right before what follows a text. -/
def gapAfter (gap : Bool) : Text → Bool
  | [] => gap
  | c :: s => gapAfter (isBlank c) s

theorem marksFrom_append (gap : Bool) : ∀ s t : Text,
    marksFrom gap (s ++ t) = marksFrom gap s ++ marksFrom (gapAfter gap s) t
  | [], _ => rfl
  | c :: s, t => by
    simp only [List.cons_append, marksFrom, gapAfter]
    split
    · next hc => rw [marksFrom_append true s t, hc]
    · next hc => rw [marksFrom_append false s t, Bool.eq_false_iff.mpr hc]; rfl

/-- Blanks leave no marks. -/
theorem marksFrom_blank {w : Text} (hw : Blank w) : ∀ gap, marksFrom gap w = [] := by
  induction w with
  | nil => intro gap; rfl
  | cons c w ih =>
    intro gap
    rw [marksFrom, if_pos (hw c List.mem_cons_self)]
    exact ih (fun d hd => hw d (List.mem_cons_of_mem _ hd)) true

theorem gapAfter_blank {w : Text} (hw : Blank w) : gapAfter true w = true := by
  induction w with
  | nil => rfl
  | cons c w ih =>
    rw [gapAfter, hw c List.mem_cons_self]
    exact ih fun d hd => hw d (List.mem_cons_of_mem _ hd)

@[simp] theorem marks_nil : marks [] = [] := rfl

theorem marks_blank {w : Text} (hw : Blank w) : marks w = [] := marksFrom_blank hw true

theorem marks_blank_append {w : Text} (hw : Blank w) (s : Text) : marks (w ++ s) = marks s := by
  rw [marks, marksFrom_append, marksFrom_blank hw, gapAfter_blank hw]
  rfl

theorem marks_append_blank {w : Text} (hw : Blank w) (s : Text) : marks (s ++ w) = marks s := by
  rw [marks, marksFrom_append, marksFrom_blank hw, List.append_nil]
  rfl

/-- A blank between two texts keeps their marks apart. -/
theorem marks_append_cons {b : Char} (hb : isBlank b = true) (s t : Text) :
    marks (s ++ b :: t) = marks s ++ marks t := by
  rw [marks, marksFrom_append, marksFrom, if_pos hb]
  rfl

theorem marks_trimLeft (s : Text) : marks s.trimLeft = marks s := by
  obtain ⟨w, hw, hs⟩ := exists_blank_trimLeft s
  conv_rhs => rw [hs, marks_blank_append hw]

theorem marks_trimRight (s : Text) : marks s.trimRight = marks s := by
  obtain ⟨w, hw, hs⟩ := exists_blank_trimRight s
  conv_rhs => rw [hs, marks_append_blank hw]

@[simp] theorem marks_trim (s : Text) : marks s.trim = marks s := by
  rw [trim, marks_trimRight, marks_trimLeft]

theorem marks_drop_indent {l : Text} {m : Nat} (h : m ≤ l.indent.length) :
    marks (l.drop m) = marks l := by
  rw [← marks_trim, trim_drop_indent h, marks_trim]

/-- The marks of joined lines are those of the lines. -/
theorem marks_unlines : ∀ ls : List Text, marks (unlines ls) = ls.flatMap marks
  | [] => rfl
  | [l] => by simp [unlines]
  | l :: m :: ms => by
    rw [unlines_cons l (List.cons_ne_nil m ms), marks_append_cons (by decide),
      marks_unlines (m :: ms)]
    rfl

theorem marks_lines (s : Text) : s.lines.flatMap marks = marks s := by
  rw [← marks_unlines, unlines_lines]

/-- Lines that are not blank, each trimmed, tell the marks of a text. -/
theorem marks_of_inkedLines {s t : Text} (h : s.inkedLines = t.inkedLines) : marks s = marks t := by
  have htrimmed : ∀ ls : List Text, ls.flatMap marks = (trimmed ls).flatMap marks := by
    intro ls
    induction ls with
    | nil => rfl
    | cons l ls ih =>
      rw [List.flatMap_cons, trimmed_cons, List.flatMap_append, ih, trimmed_singleton]
      split
      · next hnil => rw [← marks_trim, hnil]; rfl
      · rw [List.flatMap_singleton, marks_trim]
  rw [← marks_lines s, ← marks_lines t, htrimmed s.lines, htrimmed t.lines]
  exact congrArg _ h

theorem flatMap_marks_blank {ls : List Text} (h : ∀ l ∈ ls, l.blank = true) :
    ls.flatMap marks = [] :=
  List.flatMap_eq_nil_iff.mpr fun l hl => marks_blank ((blank_iff l).mp (h l hl))

theorem flatMap_marks_reverse_dropWhile (ls : List Text) :
    (ls.dropWhile blank).reverse.flatMap marks = ls.reverse.flatMap marks := by
  conv_rhs => rw [← List.takeWhile_append_dropWhile (p := blank) (l := ls), List.reverse_append,
    List.flatMap_append, flatMap_marks_blank fun l hl => List.mem_takeWhile_imp (List.mem_reverse.mp hl),
    List.append_nil]

theorem map_fst_marksFrom (gap : Bool) (s : Text) : (marksFrom gap s).map Prod.fst = s.solid := by
  induction s generalizing gap with
  | nil => rfl
  | cons c s ih =>
    rw [marksFrom]
    split
    · next hc => rw [ih, solid, solid, List.filter_cons_of_neg (by simp [hc])]
    · next hc => rw [List.map_cons, ih, solid, solid, List.filter_cons_of_pos (by simpa using hc)]

/-- Without the gaps, the marks of a text are the text without its blanks. -/
theorem map_fst_marks (s : Text) : (marks s).map Prod.fst = s.solid := map_fst_marksFrom true s

/-! ### Looser marks -/

/-- The same character, with a gap before it where there was one. -/
def Kept (a b : Char × Bool) : Prop := a.1 = b.1 ∧ (a.2 = true → b.2 = true)

/-- The same characters in the same order, with a gap wherever there was one. -/
def Looser (a b : List (Char × Bool)) : Prop := List.Forall₂ Kept a b

theorem Looser.refl (a : List (Char × Bool)) : Looser a a :=
  List.forall₂_same.mpr fun _ _ => ⟨rfl, id⟩

theorem Looser.of_eq {a b : List (Char × Bool)} (h : a = b) : Looser a b := h ▸ Looser.refl a

theorem Looser.trans : ∀ {a b c : List (Char × Bool)}, Looser a b → Looser b c → Looser a c
  | [], _, _, .nil, .nil => .nil
  | _ :: _, _, _, .cons hx hxs, .cons hy hys =>
    .cons ⟨hx.1.trans hy.1, hy.2 ∘ hx.2⟩ (Looser.trans hxs hys)

theorem Looser.append {a b c d : List (Char × Bool)} (h : Looser a b) (h' : Looser c d) :
    Looser (a ++ c) (b ++ d) :=
  List.rel_append h h'

theorem Looser.split_right {a b c : List (Char × Bool)} (h : Looser a (b ++ c)) :
    ∃ b' c', Looser b' b ∧ Looser c' c ∧ a = b' ++ c' :=
  ⟨_, _, List.forall₂_take_append a b c h, List.forall₂_drop_append a b c h,
    (List.take_append_drop b.length a).symm⟩

/-- Marks are looser where the text starts after a gap. -/
theorem looser_marksFrom {g g' : Bool} (h : g = true → g' = true) :
    ∀ s : Text, Looser (marksFrom g s) (marksFrom g' s)
  | [] => .nil
  | c :: s => by
    simp only [marksFrom]
    split
    · exact Looser.refl _
    · exact .cons ⟨rfl, h⟩ (Looser.refl _)

/-- Two texts side by side are looser when set apart. -/
theorem looser_append (s t : Text) : Looser (marks (s ++ t)) (marks s ++ marks t) := by
  rw [marks, marksFrom_append]
  exact (Looser.refl _).append (looser_marksFrom (fun _ => rfl) t)

theorem Looser.map_fst {a b : List (Char × Bool)} (h : Looser a b) :
    b.map Prod.fst = a.map Prod.fst := by
  induction h with
  | nil => rfl
  | cons hx _ ih => rw [List.map_cons, List.map_cons, ih, hx.1]

/-- Looser marks are marks of the same characters. -/
theorem Looser.solid_eq {s t : Text} (h : Looser (marks s) (marks t)) : t.solid = s.solid := by
  rw [← map_fst_marks, ← map_fst_marks, h.map_fst]

theorem solid_of_marks {s t : Text} (h : marks s = marks t) : s.solid = t.solid := by
  rw [← map_fst_marks, h, map_fst_marks]

theorem solid_trim (s : Text) : s.trim.solid = s.solid := solid_of_marks (marks_trim s)

theorem solid_solid (s : Text) : s.solid.solid = s.solid :=
  Solid.solid_eq fun c hc => by simpa using (List.mem_filter.mp hc).2

/-! ### Tight texts -/

/-- A text without blanks at its ends. -/
def Tight (s : Text) : Prop :=
  (∀ c ∈ s.head?, isBlank c = false) ∧ ∀ c ∈ s.getLast?, isBlank c = false

theorem Solid.tight {s : Text} (h : Solid s) : Tight s :=
  ⟨fun c hc => h c (List.mem_of_mem_head? hc), fun c hc => h c (List.mem_of_getLast? hc)⟩

theorem solid_solid_tight (s : Text) : Tight s.solid :=
  Solid.tight fun c hc => by simpa using (List.mem_filter.mp hc).2

theorem head_trimLeft (s : Text) : ∀ c ∈ s.trimLeft.head?, isBlank c = false := by
  intro c hc
  have := List.head?_dropWhile_not isBlank s
  rw [← trimLeft, Option.mem_def.mp hc] at this
  simpa using this

theorem mem_head?_of_trimRight {s : Text} {c : Char} (h : c ∈ s.trimRight.head?) : c ∈ s.head? := by
  obtain ⟨w, -, hs⟩ := exists_blank_trimRight s
  rw [hs, List.head?_append, Option.mem_def.mp h]
  rfl

theorem tight_trim (s : Text) : Tight s.trim :=
  ⟨fun c hc => head_trimLeft s c (mem_head?_of_trimRight hc), last_trimRight s.trimLeft⟩

theorem Tight.trim_eq {s : Text} (h : Tight s) : s.trim = s := by
  rw [trim, trimLeft_of_head h.1, trimRight_of_last h.2]

theorem trim_trim (s : Text) : s.trim.trim = s.trim := (tight_trim s).trim_eq

theorem Tight.last_of_append {s t : Text} (h : Tight (s ++ t)) :
    ∀ c ∈ t.getLast?, isBlank c = false := by
  intro c hc
  refine h.2 c ?_
  rw [List.getLast?_append, Option.mem_def.mp hc]
  rfl

theorem Tight.head_of_append {s t : Text} (h : Tight (s ++ t)) :
    ∀ c ∈ s.head?, isBlank c = false := by
  intro c hc
  refine h.1 c ?_
  rw [List.head?_append, Option.mem_def.mp hc]
  rfl

theorem Tight.append {s t : Text} (hs : Tight s) (ht : Tight t) : Tight (s ++ t) := by
  constructor
  · intro c hc
    rw [List.head?_append, Option.mem_def, Option.or_eq_some_iff] at hc
    rcases hc with hc | ⟨_, hc⟩
    · exact hs.1 c hc
    · exact ht.1 c hc
  · intro c hc
    rw [List.getLast?_append, Option.mem_def, Option.or_eq_some_iff] at hc
    rcases hc with hc | ⟨_, hc⟩
    · exact ht.2 c hc
    · exact hs.2 c hc

theorem gapAfter_concat (gap : Bool) (s : Text) (c : Char) : gapAfter gap (s ++ [c]) = isBlank c := by
  induction s generalizing gap with
  | nil => rfl
  | cons d s ih => exact ih _

theorem blank_of_marks_eq_nil : ∀ {s : Text} {gap : Bool}, marksFrom gap s = [] → Blank s
  | [], _, _ => blank_nil
  | c :: s, gap, h => by
    rw [marksFrom] at h
    split at h
    · next hc => exact (blank_of_marks_eq_nil h).cons hc
    · exact absurd h (by simp)

/-- Only the first mark depends on what comes before the text. -/
theorem marksFrom_tail : ∀ {s : Text} {c : Char} {g : Bool} {m : List (Char × Bool)} (gap : Bool),
    marks s = (c, g) :: m → ∃ g', marksFrom gap s = (c, g') :: m
  | [], _, _, _, _, h => by simp at h
  | d :: s, c, g, m, gap, h => by
    rw [marks, marksFrom] at h
    rw [marksFrom]
    split at h
    · next hd => exact ⟨g, by rw [if_pos hd]; exact h⟩
    · next hd =>
      rw [List.cons.injEq, Prod.mk.injEq] at h
      exact ⟨gap, by rw [if_neg hd, h.1.1, h.2]⟩

/-- Without its blanks a text is tightest. -/
theorem looser_solid (s : Text) : Looser (marks s.solid) (marks s) := by
  have h : ∀ (s : Text) {g g' : Bool}, (g = true → g' = true) →
      Looser (marksFrom g s.solid) (marksFrom g' s) := by
    intro s
    induction s with
    | nil => exact fun _ => .nil
    | cons c s ih =>
      intro g g' hg
      cases hc : isBlank c with
      | true =>
        rw [solid_blank_cons hc, marksFrom, if_pos hc]
        exact ih fun _ => rfl
      | false =>
        rw [solid_cons hc, marksFrom, marksFrom, if_neg (by simp [hc]), if_neg (by simp [hc])]
        exact .cons ⟨rfl, hg⟩ (ih id)
  exact h s id

/-- Texts that are looser than tight ones are so side by side. -/
theorem Looser.append_tight {a b s t : Text} (ha : Tight a) (hb : Tight b)
    (hs : Looser (marks a) (marks s)) (ht : Looser (marks b) (marks t)) :
    Looser (marks (a ++ b)) (marks (s ++ t)) := by
  rw [marks, marks, marksFrom_append, marksFrom_append]
  refine Looser.append hs ?_
  rcases List.eq_nil_or_concat a with rfl | ⟨a', c, rfl⟩
  · have hblank : Blank s := by
      generalize hm : marks s = m at hs
      cases hs
      exact blank_of_marks_eq_nil hm
    rw [gapAfter_blank hblank]
    exact ht
  · rw [List.concat_eq_append, gapAfter_concat,
      ha.2 c (by rw [List.concat_eq_append, List.getLast?_concat]; rfl)]
    cases b with
    | nil =>
      have hblank : Blank t := by
        generalize hm : marks t = m at ht
        cases ht
        exact blank_of_marks_eq_nil hm
      rw [marksFrom_blank hblank]
      exact .nil
    | cons d b =>
      have hd : isBlank d = false := hb.1 d rfl
      rw [marks, marksFrom, if_neg (by simp [hd])] at ht
      generalize hm : marks t = m at ht
      cases ht with
      | @cons _ x _ m hx hxs =>
        obtain ⟨e, g⟩ := x
        obtain ⟨g', hg'⟩ := marksFrom_tail (gapAfter true s) hm
        rw [hg', marksFrom, if_neg (by simp [hd])]
        exact .cons ⟨hx.1, by simp⟩ hxs

end JspLayout.Text
