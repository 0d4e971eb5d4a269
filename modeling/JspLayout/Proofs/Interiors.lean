import JspLayout.Proofs.Bodies
import JspLayout.Proofs.Splicing

/-! Placing a block again.

    A placed block of several lines has its interior lines indented together: the indentation they
    share is replaced. Main statements: placing a placed block at the same place changes nothing exactly
    when no blank line had a say in what its interior lines share, and the same holds where the margin
    of a placed body is taken off in between. -/

namespace JspLayout

open Text

/-! ### Common indentation -/

/-- The lines that are not blank. -/
def inked (ls : List Text) : List Text := ls.filter fun l => !l.blank

/-- Blank lines have no say in the indentation that the lines share. -/
def Flush (ls : List Text) : Prop :=
  commonIndent? (inked ls) = none ∨ commonIndent? (inked ls) = commonIndent? ls

instance (ls : List Text) : Decidable (Flush ls) :=
  inferInstanceAs (Decidable (commonIndent? (inked ls) = none ∨ _))

theorem mem_inked {l : Text} {ls : List Text} : l ∈ inked ls ↔ l ∈ ls ∧ ¬Blank l := by
  rw [inked, List.mem_filter, Bool.not_eq_true', not_blank_iff]

theorem blank_of_all_isIndent {l : Text} (h : l.all isIndent = true) : Blank l :=
  fun c hc => isBlank_of_isIndent (List.all_eq_true.mp h c hc)

theorem all_isIndent_of_not_blank {l : Text} (h : ¬Blank l) : l.all isIndent = false :=
  Bool.eq_false_iff.mpr fun hall => h (blank_of_all_isIndent hall)

theorem commonStart_append (m : Text) :
    ∀ s t : Text, commonStart (m ++ s) (m ++ t) = m ++ commonStart s t := by
  induction m with
  | nil => intro s t; rfl
  | cons c m ih =>
    intro s t
    rw [List.cons_append, List.cons_append, commonStart, if_pos rfl, ih, List.cons_append]

theorem indent_append {m : Text} (hm : m.all isIndent = true) (l : Text) :
    indent (m ++ l) = m ++ l.indent :=
  List.takeWhile_append_of_pos (List.all_eq_true.mp hm)

theorem indent_append_right {l : Text} (hl : ¬Blank l) (t : Text) : indent (l ++ t) = l.indent := by
  have hall := all_isIndent_of_not_blank hl
  induction l with
  | nil => exact absurd blank_nil hl
  | cons c l ih =>
    by_cases hc : isIndent c = true
    · have hl : ¬Blank l := fun h => hl (h.cons (isBlank_of_isIndent hc))
      rw [List.cons_append, indent, indent, List.takeWhile_cons_of_pos hc,
        List.takeWhile_cons_of_pos hc]
      exact congrArg (c :: ·) (ih hl (all_isIndent_of_not_blank hl))
    · rw [List.cons_append, indent, indent, List.takeWhile_cons_of_neg hc,
        List.takeWhile_cons_of_neg hc]

theorem indent_trimRight {l : Text} (hl : ¬Blank l) : l.trimRight.indent = l.indent := by
  obtain ⟨w, _, h⟩ := exists_blank_trimRight l
  conv_rhs => rw [h, indent_append_right (not_blank_trimRight hl)]

theorem inked_inked (ls : List Text) : inked (inked ls) = inked ls := by
  simp [inked, List.filter_filter]

theorem inked_map {f : Text → Text} {ls : List Text} (h : ∀ l ∈ ls, Blank (f l) ↔ Blank l) :
    inked (ls.map f) = (inked ls).map f := by
  rw [inked, List.filter_map]
  refine congrArg _ (List.filter_congr fun l hl => ?_)
  have hblank : (f l).blank = l.blank := by
    rw [Bool.eq_iff_iff, blank_iff, blank_iff]
    exact h l hl
  simp [hblank]

/-- Lines that are all moved by the same indentation share that much more of it. -/
theorem commonIndent?_map {f : Text → Text} {m : Text} {ls : List Text}
    (hblank : ∀ l ∈ ls, Blank l → (f l).all isIndent = true)
    (hink : ∀ l ∈ ls, ¬Blank l → (f l).all isIndent = false ∧ (f l).indent = m ++ l.indent) :
    commonIndent? (ls.map f) = (commonIndent? (inked ls)).map (m ++ ·) := by
  induction ls with
  | nil => rfl
  | cons l ls ih =>
    have ih := ih (fun k hk => hblank k (List.mem_cons_of_mem _ hk))
      fun k hk => hink k (List.mem_cons_of_mem _ hk)
    rw [List.map_cons, commonIndent?]
    by_cases hl : Blank l
    · have hinked : inked (l :: ls) = inked ls := by simp [inked, (blank_iff l).mpr hl]
      rw [if_pos (hblank l List.mem_cons_self hl), ih, hinked]
    · have hinked : inked (l :: ls) = l :: inked ls := by
        simp [inked, (not_blank_iff l).mpr hl]
      obtain ⟨hall, hindent⟩ := hink l List.mem_cons_self hl
      rw [if_neg (by simp [hall]), ih, hindent, hinked, commonIndent?,
        if_neg (by simp [all_isIndent_of_not_blank hl])]
      cases commonIndent? (inked ls) with
      | none => rfl
      | some k => exact congrArg some (commonStart_append m l.indent k)

theorem exists_inked {m : Text} {ls : List Text} (h : commonIndent? (inked ls) = some m) :
    ∃ l ∈ ls, ¬Blank l ∧ m <+: l.indent := by
  cases hls : inked ls with
  | nil => rw [hls] at h; exact absurd h (by simp [commonIndent?])
  | cons l _ =>
    have hmem : l ∈ inked ls := hls ▸ List.mem_cons_self
    obtain ⟨hl, hblank⟩ := mem_inked.mp hmem
    exact ⟨l, hl, hblank, commonIndent?_isPrefix h l hmem (all_isIndent_of_not_blank hblank)⟩

/-! ### Interior lines indented again -/

theorem indentLine_blank {base l : Text} (hl : Blank l) : indentLine base l = [] := by
  rw [indentLine, if_pos ((blank_iff l).mpr hl)]

theorem indentLine_inked {base l : Text} (hl : ¬Blank l) :
    indentLine base l = base ++ l.trimRight := by
  rw [indentLine, if_neg fun h => hl ((blank_iff l).mp h)]

theorem not_blank_append {l : Text} (hl : ¬Blank l) (w : Text) : ¬Blank (w ++ l) := fun h =>
  hl fun c hc => h c (List.mem_append_right w hc)

/-- Taking as much off an indented line as it has in common with others leaves it as it was exactly
    when there is nothing to take off but what was put there. -/
theorem indentLine_drop_iff {l m : Text} (hl : ¬Blank l) (hm : m <+: l.indent) (base step : Text) :
    indentLine base ((indentLine step l).drop (step ++ m).length) = indentLine base l ↔ m = [] := by
  have hprefix : m <+: l.trimRight := by
    rw [← indent_trimRight hl] at hm
    exact hm.trans (indent_isPrefix _)
  obtain ⟨u, hu⟩ : ∃ u : Text, m ++ u = l.trimRight := hprefix
  have hmblank : Blank m := fun c hc => blank_indent l c (hm.subset hc)
  have hublank : ¬Blank u := fun h => not_blank_trimRight hl (hu ▸ hmblank.append h)
  have htrim : u.trimRight = u := by
    have h := trimRight_append hublank m
    rw [hu, trimRight_of_last (last_trimRight l), ← hu] at h
    exact (List.append_cancel_left h).symm
  have hdrop : (step ++ l.trimRight).drop (step ++ m).length = u := by
    rw [← hu, ← List.append_assoc, List.drop_left]
  rw [indentLine_inked hl, indentLine_inked hl, hdrop, indentLine_inked hublank, htrim, ← hu,
    List.append_cancel_left_eq]
  constructor
  · intro h
    have hlen := congrArg List.length h
    rw [List.length_append] at hlen
    exact List.eq_nil_of_length_eq_zero (by omega)
  · rintro rfl
    rfl

theorem commonIndent?_map_indentLine {step : Text} (hstep : step.all isIndent = true)
    (ls : List Text) :
    commonIndent? (ls.map (indentLine step)) = (commonIndent? (inked ls)).map (step ++ ·) := by
  refine commonIndent?_map (fun l _ hl => by rw [indentLine_blank hl]; rfl) fun l _ hl => ?_
  rw [indentLine_inked hl, indent_append hstep, indent_trimRight hl]
  exact ⟨all_isIndent_of_not_blank (not_blank_append (not_blank_trimRight hl) step), rfl⟩

theorem indentInterior_map_indentLine_iff {step : Text} (hstep : step.all isIndent = true)
    (base : Text) (ls : List Text) :
    indentInterior base (ls.map (indentLine step)) = ls.map (indentLine base) ↔
      (commonIndent? (inked ls)).getD [] = [] := by
  rw [indentInterior, List.map_map, List.map_inj_left, commonIndent?_map_indentLine hstep]
  have hblank : ∀ n, ∀ l, Blank l → indentLine base
      (if (indentLine step l).all isIndent then [] else (indentLine step l).drop n) =
        indentLine base l := by
    intro n l hl
    rw [indentLine_blank hl, indentLine_blank hl]
    rfl
  have hinked : ∀ l, ¬Blank l → (indentLine step l).all isIndent = false := by
    intro l hl
    rw [indentLine_inked hl]
    exact all_isIndent_of_not_blank (not_blank_append (not_blank_trimRight hl) step)
  cases hcommon : commonIndent? (inked ls) with
  | none =>
    refine ⟨fun _ => rfl, fun _ l hl => hblank _ l ?_⟩
    by_contra hlblank
    have hall := all_isIndent_of_commonIndent? hcommon l (mem_inked.mpr ⟨hl, hlblank⟩)
    exact hlblank (blank_of_all_isIndent hall)
  | some m =>
    constructor
    · intro h
      obtain ⟨l, hl, hlblank, hm⟩ := exists_inked hcommon
      have hline := h l hl
      rw [Function.comp_apply, hinked l hlblank] at hline
      exact (indentLine_drop_iff hlblank hm base step).mp hline
    · intro hm l hl
      by_cases hlblank : Blank l
      · exact hblank _ l hlblank
      · have hprefix : m <+: l.indent := by
          rw [show m = [] from hm]
          exact List.nil_prefix
        rw [Function.comp_apply, hinked l hlblank]
        exact (indentLine_drop_iff hlblank hprefix base step).mpr hm

/-- A line without the indentation that it shares with others. -/
def cutIndent (m l : Text) : Text := if l.all isIndent then [] else l.drop m.length

theorem indentInterior_eq (base : Text) (ls : List Text) : indentInterior base ls =
    (ls.map (cutIndent ((commonIndent? ls).getD []))).map (indentLine base) := by
  rw [indentInterior, List.map_map]
  rfl

theorem append_cutIndent {m l : Text} (hl : ¬Blank l) (hm : m <+: l.indent) :
    m ++ cutIndent m l = l := by
  obtain ⟨t, rfl⟩ := hm.trans (indent_isPrefix _)
  rw [cutIndent, if_neg (by simp [all_isIndent_of_not_blank hl]), List.drop_left]

theorem blank_cutIndent_iff {m l : Text} (hm : ¬Blank l → m <+: l.indent) :
    Blank (cutIndent m l) ↔ Blank l := by
  constructor
  · intro h
    by_contra hl
    have hmblank : Blank m := fun c hc => blank_indent l c ((hm hl).subset hc)
    exact hl (append_cutIndent hl (hm hl) ▸ hmblank.append h)
  · intro h
    unfold cutIndent
    split
    · exact blank_nil
    · exact fun c hc => h c (List.mem_of_mem_drop hc)

/-- Cut by the indentation that all lines share, lines share nothing more exactly when no blank line
    had a say in it. -/
theorem commonIndent?_cutIndent_iff (ls : List Text) :
    (commonIndent? (inked (ls.map (cutIndent ((commonIndent? ls).getD []))))).getD [] = [] ↔
      Flush ls := by
  generalize hm : (commonIndent? ls).getD [] = m
  have hstart : ∀ l ∈ ls, ¬Blank l → commonIndent? ls = some m ∧ m <+: l.indent := by
    intro l hl hlblank
    have hall := all_isIndent_of_not_blank hlblank
    cases hcommon : commonIndent? ls with
    | none => rw [all_isIndent_of_commonIndent? hcommon l hl] at hall; exact absurd hall (by simp)
    | some k =>
      obtain rfl : k = m := by rw [← hm, hcommon]; rfl
      exact ⟨rfl, commonIndent?_isPrefix hcommon l hl hall⟩
  have hcut : inked (ls.map (cutIndent m)) = (inked ls).map (cutIndent m) :=
    inked_map fun l hl => blank_cutIndent_iff fun hlblank => (hstart l hl hlblank).2
  have hback : inked ls = (inked (ls.map (cutIndent m))).map (m ++ ·) := by
    rw [hcut, List.map_map]
    conv_lhs => rw [← List.map_id (inked ls)]
    refine List.map_congr_left fun l hl => ?_
    obtain ⟨hl, hlblank⟩ := mem_inked.mp hl
    exact (append_cutIndent hlblank (hstart l hl hlblank).2).symm
  have hshared : commonIndent? (inked ls) =
      (commonIndent? (inked (ls.map (cutIndent m)))).map (m ++ ·) := by
    conv_lhs => rw [hback]
    rw [commonIndent?_map (m := m), inked_inked]
    · intro l hl hlblank
      exact absurd hlblank (mem_inked.mp hl).2
    · intro l hl hlblank
      rw [hcut] at hl
      obtain ⟨k, hk, -⟩ := List.mem_map.mp hl
      obtain ⟨hk, hkblank⟩ := mem_inked.mp hk
      have hall : m.all isIndent = true := List.all_eq_true.mpr fun c hc =>
        List.mem_takeWhile_imp ((hstart k hk hkblank).2.subset hc)
      exact ⟨all_isIndent_of_not_blank (not_blank_append hlblank m), indent_append hall l⟩
  unfold Flush
  rw [hshared]
  cases hcommon : commonIndent? (inked (ls.map (cutIndent m))) with
  | none => simp
  | some k =>
    rw [hcommon] at hshared
    obtain ⟨l, hl, hlblank, -⟩ := exists_inked hshared
    rw [(hstart l hl hlblank).1]
    simp

/-- Interior lines that are indented once and indented again are as if indented at once, exactly when
    blank lines have no say in the indentation they share. -/
theorem indentInterior_indentInterior_iff {step : Text} (hstep : step.all isIndent = true)
    (base : Text) (ls : List Text) :
    indentInterior base (indentInterior step ls) = indentInterior base ls ↔ Flush ls := by
  rw [indentInterior_eq step, indentInterior_eq base ls, indentInterior_map_indentLine_iff hstep,
    commonIndent?_cutIndent_iff]

/-! ### Blocks placed again -/

/-- The lines between the first and the last. -/
def Text.interior (s : Text) : List Text := s.lines.tail.dropLast

theorem lines_inj {s t : Text} : s.lines = t.lines ↔ s = t := by
  refine ⟨fun h => ?_, congrArg lines⟩
  rw [← unlines_lines s, h, unlines_lines]

theorem lines_cases (s : Text) : ('\n' ∉ s ∧ s.lines = [s]) ∨
    ∃ top mid bottom, s.lines = top :: (mid ++ [bottom]) := by
  by_cases hs : '\n' ∈ s
  · cases hlines : s.lines with
    | nil => exact absurd hlines (lines_ne_nil s)
    | cons top rest =>
      rcases List.eq_nil_or_concat' rest with rfl | ⟨mid, bottom, rfl⟩
      · have htop : top = s := by rw [← unlines_lines s, hlines]; rfl
        have hfeed := lines_no_feed s top (by rw [hlines]; exact List.mem_cons_self)
        exact absurd hs (htop ▸ hfeed)
      · exact Or.inr ⟨top, mid, bottom, rfl⟩
  · exact Or.inl ⟨hs, lines_of_no_feed hs⟩

theorem interior_of_lines {s top bottom : Text} {mid : List Text}
    (h : s.lines = top :: (mid ++ [bottom])) : s.interior = mid := by
  rw [Text.interior, h, List.tail_cons, List.dropLast_concat]

theorem no_feed_trim {l : Text} (h : '\n' ∉ l) : '\n' ∉ l.trim := fun hmem =>
  h ((trim_isInfix l).subset hmem)

theorem no_feed_of_all_isIndent {m : Text} (h : m.all isIndent = true) : '\n' ∉ m := fun hmem =>
  absurd (List.all_eq_true.mp h _ hmem) (by decide)

theorem no_feed_indentInterior {base : Text} (hbase : '\n' ∉ base) {ls : List Text}
    (hls : ∀ l ∈ ls, '\n' ∉ l) : ∀ l ∈ indentInterior base ls, '\n' ∉ l := by
  intro l hl
  rw [indentInterior_eq, List.map_map] at hl
  obtain ⟨k, hk, rfl⟩ := List.mem_map.mp hl
  have hcut : '\n' ∉ cutIndent ((commonIndent? ls).getD []) k := by
    unfold cutIndent
    split
    · exact List.not_mem_nil
    · exact fun h => hls k hk (List.mem_of_mem_drop h)
  rw [Function.comp_apply, indentLine]
  split
  · exact List.not_mem_nil
  · intro h
    rcases List.mem_append.mp h with h | h
    · exact hbase h
    · exact hcut ((trimRight_isPrefix _).subset h)

theorem lines_unlines_indentInterior {first last step : Text} {mid : List Text} (hfirst : '\n' ∉ first)
    (hstep : '\n' ∉ step) (hmid : ∀ l ∈ mid, '\n' ∉ l) (hlast : '\n' ∉ last) :
    lines (unlines (first :: (indentInterior step mid ++ [last]))) =
      first :: (indentInterior step mid ++ [last]) := by
  refine lines_unlines (by simp) (List.forall_mem_cons.mpr ⟨hfirst, fun l hl => ?_⟩)
  rcases List.mem_append.mp hl with hl | hl
  · exact no_feed_indentInterior hstep hmid l hl
  · obtain rfl : l = last := by simpa using hl
    exact hlast

theorem indentBlock_of_no_feed {r : Text} (h : '\n' ∉ r) (base pad : Text) :
    indentBlock r base pad [] = r.trim := by
  rw [indentBlock, lines_of_no_feed h]
  rfl

section

variable {base pad : Text} (hbase : base.all isIndent = true) (hpad : pad.all isIndent = true)

include hbase hpad

theorem lines_indentBlock {r top bottom : Text} {mid : List Text}
    (h : r.lines = top :: (mid ++ [bottom])) : (indentBlock r base pad []).lines =
      top.trim :: (indentInterior (base ++ pad) mid ++ [base ++ bottom.trim]) := by
  have hfeed := lines_no_feed r
  rw [h] at hfeed
  obtain ⟨htop, hrest⟩ := List.forall_mem_cons.mp hfeed
  rcases indentBlock_cases r base pad [] with ⟨only, hlines, -⟩ |
    ⟨top', mid', bottom', hlines, hblock⟩
  · rw [h] at hlines
    simp at hlines
  · rw [h, List.cons.injEq] at hlines
    obtain ⟨rfl, hlines⟩ := hlines
    obtain ⟨rfl, hbottom⟩ := List.append_inj' hlines rfl
    obtain rfl : bottom = bottom' := by simpa using hbottom
    rw [hblock, List.nil_append, ← unlines_cons _ (by simp)]
    refine lines_unlines_indentInterior (no_feed_trim htop) ?_
      (fun l hl => hrest l (List.mem_append_left _ hl)) ?_
    · simp [no_feed_of_all_isIndent hbase, no_feed_of_all_isIndent hpad]
    · simp [no_feed_of_all_isIndent hbase, no_feed_trim (hrest bottom (by simp))]

/-- A block whose interior lines are indented already is placed like the block itself, exactly when
    blank lines have no say in the indentation that its interior lines share. -/
theorem indentBlock_eq_iff {r t top top' bottom bottom' step : Text} {mid : List Text}
    (hr : r.lines = top :: (mid ++ [bottom]))
    (ht : t.lines = top' :: (indentInterior step mid ++ [bottom'])) (hstep : step.all isIndent = true)
    (htop : top'.trim = top.trim) (hbottom : bottom'.trim = bottom.trim) :
    indentBlock t base pad [] = indentBlock r base pad [] ↔ Flush r.interior := by
  rw [← lines_inj, lines_indentBlock hbase hpad hr, lines_indentBlock hbase hpad ht, htop, hbottom,
    interior_of_lines hr, ← indentInterior_indentInterior_iff hstep (base ++ pad)]
  simp

/-- Placing a placed block changes nothing exactly when blank lines have no say in the indentation
    that its interior lines share. -/
theorem indentBlock_indentBlock_iff (r : Text) :
    indentBlock (indentBlock r base pad []) base pad [] = indentBlock r base pad [] ↔
      Flush r.interior := by
  rcases lines_cases r with ⟨hfeed, hlines⟩ | ⟨top, mid, bottom, hlines⟩
  · rw [indentBlock_of_no_feed hfeed, indentBlock_of_no_feed (no_feed_trim hfeed), trim_trim,
      Text.interior, hlines]
    exact iff_of_true rfl (Or.inl rfl)
  · refine indentBlock_eq_iff hbase hpad hlines (lines_indentBlock hbase hpad hlines) ?_
      (trim_trim top) ?_
    · rw [List.all_append, hbase, hpad, Bool.true_and]
    · rw [trim_blank_append (blank_of_all_isIndent hbase), trim_trim]

end

/-! ### Between the ends of a line -/

theorem lines_append_left {a : Text} (ha : '\n' ∉ a) {s l : Text} {ls : List Text}
    (h : s.lines = l :: ls) : (a ++ s).lines = (a ++ l) :: ls := by
  have hfeed := lines_no_feed s
  have hs := unlines_lines s
  rw [h] at hfeed hs
  obtain ⟨hl, hls⟩ := List.forall_mem_cons.mp hfeed
  have hunlines : a ++ s = unlines ((a ++ l) :: ls) := by
    rw [← hs]
    cases ls with
    | nil => rfl
    | cons k ls => rw [unlines_cons l (by simp), unlines_cons (a ++ l) (by simp), List.append_assoc]
  rw [hunlines, lines_unlines (by simp)]
  refine List.forall_mem_cons.mpr ⟨?_, hls⟩
  simp [ha, hl]

/-- The first and the last line of a text without blanks at its ends have none there. -/
theorem Text.Tight.outer_lines {s top bottom : Text} {mid : List Text} (h : Tight s)
    (hs : s.lines = top :: (mid ++ [bottom])) :
    (top ≠ [] ∧ ∀ c ∈ top.head?, isBlank c = false) ∧
      bottom ≠ [] ∧ ∀ c ∈ bottom.getLast?, isBlank c = false := by
  have htext := unlines_lines s
  rw [hs] at htext
  constructor
  · rw [unlines_cons _ (by simp)] at htext
    have hne : top ≠ [] := by
      rintro rfl
      have := h.1 '\n' (by rw [← htext]; rfl)
      exact absurd this (by decide)
    refine ⟨hne, fun c hc => h.1 c ?_⟩
    rw [← htext, List.head?_append_of_ne_nil _ hne]
    exact hc
  · rw [← List.cons_append, unlines_concat (by simp), List.append_cons] at htext
    have hne : bottom ≠ [] := by
      rintro rfl
      have := h.2 '\n' (by rw [← htext, List.append_nil, List.getLast?_concat]; rfl)
      exact absurd this (by decide)
    refine ⟨hne, fun c hc => h.2 c ?_⟩
    rw [← htext, List.getLast?_append_of_ne_nil _ hne]
    exact hc

theorem not_blank_of_head {s : Text} (hne : s ≠ []) (h : ∀ c ∈ s.head?, isBlank c = false) :
    ¬Blank s := by
  intro hblank
  obtain ⟨c, t, rfl⟩ := List.exists_cons_of_ne_nil hne
  have hc := h c rfl
  rw [hblank c List.mem_cons_self] at hc
  exact absurd hc (by simp)

theorem not_blank_of_last {s : Text} (hne : s ≠ []) (h : ∀ c ∈ s.getLast?, isBlank c = false) :
    ¬Blank s := fun hblank => hne (eq_nil_of_blank hblank h)

theorem Text.Tight.trim_outer_lines {s top bottom : Text} {mid : List Text} (h : Tight s)
    (hs : s.lines = top :: (mid ++ [bottom])) : top.trim ≠ [] ∧ bottom.trim ≠ [] := by
  obtain ⟨⟨htop, htop'⟩, hbottom, hbottom'⟩ := h.outer_lines hs
  rw [ne_eq, ne_eq, trim_eq_nil_iff, trim_eq_nil_iff]
  exact ⟨not_blank_of_head htop htop', not_blank_of_last hbottom hbottom'⟩

theorem trim_of_last {s : Text} (h : ∀ c ∈ s.getLast?, isBlank c = false) : s.trim = s.trimLeft := by
  obtain ⟨w, hw, hs⟩ := exists_blank_trim h
  conv_rhs => rw [hs, trimLeft_blank_append hw, trimLeft_of_head (tight_trim s).1]

/-- The start of a line without a blank before it and the end of one without a blank after it stay
    where they are around a block between them. -/
theorem indentBlock_between {a y z : Text} (ha : '\n' ∉ a) (ha' : a ≠ [])
    (hhead : ∀ c ∈ a.head?, isBlank c = false) (hz : '\n' ∉ z) (hz' : z ≠ [])
    (hlast : ∀ c ∈ z.getLast?, isBlank c = false) (hy : Tight y) {base pad : Text}
    (hbase : base.all isIndent = true) (hpad : pad.all isIndent = true) :
    indentBlock (a ++ (y ++ z)) base pad [] = a ++ (indentBlock y base pad [] ++ z) ∧
      Text.interior (a ++ (y ++ z)) = y.interior := by
  have hleft : ∀ t : Text, trimLeft (a ++ t) = a ++ t := by
    intro t
    refine trimLeft_of_head fun c hc => hhead c ?_
    rwa [List.head?_append_of_ne_nil _ ha'] at hc
  have hright : ∀ t : Text, trimRight (t ++ z) = t ++ z := by
    intro t
    refine trimRight_of_last fun c hc => hlast c ?_
    rwa [List.getLast?_append_of_ne_nil _ hz'] at hc
  rcases lines_cases y with ⟨hfeed, hlines⟩ | ⟨top, mid, bottom, hlines⟩
  · have hnone : '\n' ∉ a ++ (y ++ z) := by simp [ha, hfeed, hz]
    constructor
    · rw [indentBlock_of_no_feed hnone, indentBlock_of_no_feed hfeed, hy.trim_eq, trim, hleft,
        ← List.append_assoc, hright]
    · rw [Text.interior, Text.interior, lines_of_no_feed hnone, hlines]
      rfl
  · have hbetween : ∀ {s first last : Text} {ls : List Text}, s.lines = first :: (ls ++ [last]) →
        lines (a ++ (s ++ z)) = (a ++ first) :: (ls ++ [last ++ z]) := by
      intro s first last ls h
      have hend : lines (s ++ z) = (first :: ls) ++ [last ++ z] := lines_append_right hz h
      exact lines_append_left ha hend
    have hwhole := hbetween hlines
    obtain ⟨⟨htop, htop'⟩, hbottom, hbottom'⟩ := hy.outer_lines hlines
    have htrim : trim (a ++ top) = a ++ top.trim := by
      rw [trim, hleft, trimRight_append (not_blank_of_head htop htop'), trim, trimLeft_of_head htop']
    have htrim' : trim (bottom ++ z) = bottom.trim ++ z := by
      rw [trim, trimLeft_append (not_blank_of_last hbottom hbottom'), hright, trim_of_last hbottom']
    refine ⟨?_, by rw [interior_of_lines hwhole, interior_of_lines hlines]⟩
    rw [← lines_inj, lines_indentBlock hbase hpad hwhole,
      hbetween (lines_indentBlock hbase hpad hlines), htrim, htrim', List.append_assoc]

/-! ### A placed body without its margin -/

theorem dedentLines_eq_map {m : Nat} {ls : List Text} (h : ∀ l ∈ ls, l = [] ∨ ¬Blank l) :
    dedentLines m ls = ls.map (List.drop m) := by
  rw [← List.map_id (dedentLines m ls)]
  refine map_dedentLines fun l hl => ?_
  rcases h l hl with rfl | hblank
  · simp [dedentEdge, dedentInterior]
  · have hblank := (not_blank_iff l).mpr hblank
    exact ⟨by simp [dedentEdge, hblank], by simp [dedentInterior, hblank]⟩

/-- Lines of which the blank ones are empty lose their margin. -/
theorem stripMargin_unlines {ls : List Text} {m : Nat} (hne : ls ≠ []) (hfeed : ∀ l ∈ ls, '\n' ∉ l)
    (hls : ∀ l ∈ ls, l = [] ∨ ¬Blank l) (hm : margin? ls = some m) :
    stripMargin (unlines ls) = unlines (ls.map (List.drop m)) := by
  rw [stripMargin, lines_unlines hne hfeed, hm]
  cases m with
  | zero => exact congrArg unlines (List.map_id ls).symm
  | succ m => exact congrArg unlines (dedentLines_eq_map hls)

/-- The margin is as wide as the indentation of a line when no other line has less. -/
theorem margin?_concat {n : Nat} {last : Text} (hlast : ¬Blank last) (hn : last.indent.length = n) :
    ∀ {ls : List Text}, (∀ l ∈ ls, ¬Blank l → n ≤ l.indent.length) →
      margin? (ls ++ [last]) = some n
  | [], _ => by simp [margin?, (not_blank_iff last).mpr hlast, hn, narrower]
  | l :: ls, h => by
    have ih := margin?_concat hlast hn fun k hk => h k (List.mem_cons_of_mem _ hk)
    rw [List.cons_append, margin?, ih]
    split
    · rfl
    · next hl =>
      have hle := h l List.mem_cons_self fun hblank => hl ((blank_iff l).mpr hblank)
      rw [narrower, Nat.min_eq_right hle]

/-- Every interior line that is placed is empty or has the indentation it is given. -/
theorem indentInterior_cases {base l : Text} {ls : List Text} (h : l ∈ indentInterior base ls) :
    l = [] ∨ ∃ k, ¬Blank k ∧ l = base ++ k := by
  rw [indentInterior_eq] at h
  obtain ⟨k, -, rfl⟩ := List.mem_map.mp h
  by_cases hk : Blank k
  · exact Or.inl (indentLine_blank hk)
  · exact Or.inr ⟨k.trimRight, not_blank_trimRight hk, indentLine_inked hk⟩

theorem map_drop_indentInterior (base step : Text) (ls : List Text) :
    (indentInterior (base ++ step) ls).map (List.drop base.length) = indentInterior step ls := by
  rw [indentInterior_eq, indentInterior_eq, List.map_map]
  refine List.map_congr_left fun l _ => ?_
  rw [Function.comp_apply]
  by_cases hl : Blank l
  · rw [indentLine_blank hl, indentLine_blank hl, List.drop_nil]
  · rw [indentLine_inked hl, indentLine_inked hl, List.append_assoc, List.drop_left]

theorem dedentBody_of_lines {body first : Text} {rest : List Text} (h : body.lines = first :: rest)
    (hrest : rest ≠ []) (hfirst : ¬Blank first) : dedentBody body =
      trimRight (trimBlankLines (first.trim ++ '\n' :: stripMargin (unlines rest))) := by
  cases rest with
  | nil => exact absurd rfl hrest
  | cons l ls => simp only [dedentBody, h, (not_blank_iff first).mpr hfirst, Bool.false_eq_true, if_false]

theorem trimBlankLines_of_lines {s first last : Text} {ls : List Text}
    (h : s.lines = first :: (ls ++ [last])) (hfirst : ¬Blank first) (hlast : ¬Blank last) :
    s.trimBlankLines = s := by
  have hf : ¬first.blank = true := fun h => hfirst ((blank_iff first).mp h)
  have hl : ¬last.blank = true := fun h => hlast ((blank_iff last).mp h)
  have hreverse : (first :: (ls ++ [last])).reverse = last :: (ls.reverse ++ [first]) := by simp
  rw [trimBlankLines, h, List.dropWhile_cons_of_neg hf, hreverse, List.dropWhile_cons_of_neg hl,
    ← hreverse, List.reverse_reverse, ← h, unlines_lines]

theorem tight_unlines {top bottom : Text} (htop : Tight top) (htop' : top ≠ []) (hbottom : Tight bottom)
    (hbottom' : bottom ≠ []) (mid : List Text) : Tight (unlines (top :: (mid ++ [bottom]))) := by
  constructor
  · intro c hc
    rw [unlines_cons _ (by simp), List.head?_append_of_ne_nil _ htop'] at hc
    exact htop.1 c hc
  · intro c hc
    rw [← List.cons_append, unlines_concat (by simp), List.append_cons,
      List.getLast?_append_of_ne_nil _ hbottom'] at hc
    exact hbottom.2 c hc

section

variable {base pad : Text} (hbase : base.all isIndent = true) (hpad : pad.all isIndent = true)

include hbase hpad

/-- The lines of a placed body after the first lose the indentation of the last one. -/
theorem stripMargin_placed {bottom : Text} {mid : List Text} (hmid : ∀ l ∈ mid, '\n' ∉ l)
    (hbottom : '\n' ∉ bottom) (hbottom' : Tight bottom) (hne : bottom ≠ []) :
    stripMargin (unlines (indentInterior (base ++ pad) mid ++ [base ++ bottom ++ [' ']])) =
      unlines (indentInterior pad mid ++ [bottom ++ [' ']]) := by
  have hblank : ¬Blank (bottom ++ [' ']) := fun h =>
    not_blank_of_head hne hbottom'.1 fun c hc => h c (List.mem_append_left _ hc)
  have hindent : indent (base ++ bottom ++ [' ']) = base := by
    obtain ⟨c, t, rfl⟩ := List.exists_cons_of_ne_nil hne
    have hc : ¬isIndent c = true := fun h => by
      have := hbottom'.1 c rfl
      rw [isBlank_of_isIndent h] at this
      exact absurd this (by simp)
    rw [List.append_assoc, indent_append hbase, List.cons_append, indent,
      List.takeWhile_cons_of_neg hc, List.append_nil]
  rw [stripMargin_unlines (m := base.length) (by simp), List.map_append, map_drop_indentInterior]
  · simp
  · intro l hl
    rcases List.mem_append.mp hl with hl | hl
    · refine no_feed_indentInterior ?_ hmid l hl
      simp [no_feed_of_all_isIndent hbase, no_feed_of_all_isIndent hpad]
    · obtain rfl : l = base ++ bottom ++ [' '] := by simpa using hl
      simp [no_feed_of_all_isIndent hbase, hbottom]
  · intro l hl
    rcases List.mem_append.mp hl with hl | hl
    · rcases indentInterior_cases hl with rfl | ⟨k, hk, rfl⟩
      · exact Or.inl rfl
      · exact Or.inr (not_blank_append hk _)
    · obtain rfl : l = base ++ bottom ++ [' '] := by simpa using hl
      rw [List.append_assoc]
      exact Or.inr (not_blank_append hblank base)
  · refine margin?_concat ?_ (congrArg List.length hindent) fun l hl hlblank => ?_
    · rw [List.append_assoc]
      exact not_blank_append hblank base
    · rcases indentInterior_cases hl with rfl | ⟨k, -, rfl⟩
      · exact absurd blank_nil hlblank
      · rw [List.append_assoc, indent_append hbase, List.length_append]
        omega

/-- A placed body of several lines loses the indentation of its last line, and nothing else. -/
theorem dedentBody_indentBlock {w y top bottom : Text} {mid : List Text} (hw : Blank w)
    (hfeed : '\n' ∉ w) (hy : Tight y) (hlines : y.lines = top :: (mid ++ [bottom])) :
    dedentBody (w ++ (indentBlock y base pad [] ++ [' '])) =
      unlines (top.trim :: (indentInterior pad mid ++ [bottom.trim])) := by
  obtain ⟨hne, hne'⟩ := hy.trim_outer_lines hlines
  have hnone := lines_no_feed y
  rw [hlines] at hnone
  obtain ⟨hnotop, hnorest⟩ := List.forall_mem_cons.mp hnone
  have hnobottom : '\n' ∉ bottom.trim := no_feed_trim (hnorest bottom (by simp))
  have hbody : lines (w ++ (indentBlock y base pad [] ++ [' '])) =
      (w ++ top.trim) :: (indentInterior (base ++ pad) mid ++ [base ++ bottom.trim ++ [' ']]) := by
    refine lines_append_left hfeed ?_
    have hend : lines (indentBlock y base pad [] ++ [' ']) =
        (top.trim :: indentInterior (base ++ pad) mid) ++ [base ++ bottom.trim ++ [' ']] :=
      lines_append_right (by decide) (lines_indentBlock hbase hpad hlines)
    exact hend
  have hfirst : ¬Blank top.trim := not_blank_of_head hne (tight_trim top).1
  have hlast : ¬Blank (bottom.trim ++ [' ']) := fun h =>
    not_blank_of_head hne' (tight_trim bottom).1 fun c hc => h c (List.mem_append_left _ hc)
  have hwhole : lines (unlines (top.trim :: (indentInterior pad mid ++ [bottom.trim ++ [' ']]))) =
      top.trim :: (indentInterior pad mid ++ [bottom.trim ++ [' ']]) :=
    lines_unlines_indentInterior (no_feed_trim hnotop) (no_feed_of_all_isIndent hpad)
      (fun l hl => hnorest l (List.mem_append_left _ hl)) (by simp [hnobottom])
  rw [dedentBody_of_lines hbody (by simp) (not_blank_append hfirst w), trim_blank_append hw, trim_trim,
    stripMargin_placed hbase hpad (fun l hl => hnorest l (List.mem_append_left _ hl)) hnobottom
      (tight_trim bottom) hne', ← unlines_cons _ (by simp),
    trimBlankLines_of_lines hwhole hfirst hlast, ← List.cons_append, unlines_append_last,
    trimRight_append_blank (Blank.cons (by decide) blank_nil)]
  exact trimRight_of_last (tight_unlines (tight_trim top) hne (tight_trim bottom) hne' _).2

/-- A placed body without its margin is placed as before, exactly when blank lines have no say in the
    indentation that its interior lines share. -/
theorem exists_dedentBody_indentBlock {w y : Text} (hw : Blank w) (hfeed : '\n' ∉ w) (hy : Tight y)
    (hne : y ≠ []) : ∃ y', dedentBody (w ++ (indentBlock y base pad [] ++ [' '])) = y' ∧
      (Tight y' ∧ y' ≠ []) ∧ ('\n' ∉ y → y' = y) ∧
        (indentBlock y' base pad [] = indentBlock y base pad [] ↔ Flush y.interior) := by
  refine ⟨_, rfl, ?_⟩
  rcases lines_cases y with ⟨hnone, hlines⟩ | ⟨top, mid, bottom, hlines⟩
  · have hbody : dedentBody (w ++ (indentBlock y base pad [] ++ [' '])) = y := by
      rw [indentBlock_of_no_feed hnone, hy.trim_eq, dedentBody, lines_of_no_feed (by simp [hfeed, hnone])]
      dsimp only
      rw [trim_blank_append hw, trim_append_blank (Blank.cons (by decide) blank_nil), hy.trim_eq]
    rw [hbody, Text.interior, hlines]
    exact ⟨⟨hy, hne⟩, fun _ => rfl, iff_of_true rfl (Or.inl rfl)⟩
  · obtain ⟨hne, hne'⟩ := hy.trim_outer_lines hlines
    have hnone := lines_no_feed y
    rw [hlines] at hnone
    obtain ⟨htop, hrest⟩ := List.forall_mem_cons.mp hnone
    rw [dedentBody_indentBlock hbase hpad hw hfeed hy hlines]
    refine ⟨⟨tight_unlines (tight_trim top) hne (tight_trim bottom) hne' _, ?_⟩, fun hy => ?_, ?_⟩
    · rw [unlines_cons _ (by simp)]
      exact List.append_ne_nil_of_left_ne_nil hne _
    · rw [lines_of_no_feed hy] at hlines
      simp at hlines
    · refine indentBlock_eq_iff hbase hpad hlines (lines_unlines_indentInterior (no_feed_trim htop)
        (no_feed_of_all_isIndent hpad) (fun l hl => hrest l (List.mem_append_left _ hl))
        (no_feed_trim (hrest bottom (by simp)))) hpad (trim_trim top) (trim_trim bottom)

end

end JspLayout
