import JspLayout.Proofs.Interiors

/-! Texts that differ in the blanks around line feeds.

    Placing a body between its delimiters changes blanks around line feeds and leaves every line feed
    between the characters it stood between. So runs of blanks that hold a line feed become others, and
    all else is the same. What reads a text without telling one blank from another, character by
    character from the left, does the same on both. -/

namespace JspLayout

open Text

/-- The texts are the same but for runs of blanks that hold a line feed in both. -/
inductive Reflowed : Text → Text → Prop
  | nil : Reflowed [] []
  | cons (c : Char) {s t : Text} : Reflowed s t → Reflowed (c :: s) (c :: t)
  | gap {w w' s t : Text} : Blank w → '\n' ∈ w → Blank w' → '\n' ∈ w' → Reflowed s t →
      Reflowed (w ++ s) (w' ++ t)

namespace Reflowed

theorem refl : ∀ s : Text, Reflowed s s
  | [] => .nil
  | c :: s => .cons c (refl s)

theorem symm {s t : Text} (h : Reflowed s t) : Reflowed t s := by
  induction h with
  | nil => exact .nil
  | cons c _ ih => exact .cons c ih
  | gap hw hfeed hw' hfeed' _ ih => exact .gap hw' hfeed' hw hfeed ih

theorem append_left (a : Text) {s t : Text} (h : Reflowed s t) : Reflowed (a ++ s) (a ++ t) := by
  induction a with
  | nil => exact h
  | cons c a ih => exact .cons c ih

/-- Where there is no line feed nothing differs. -/
theorem eq_of_no_feed {s t : Text} (h : Reflowed s t) (hs : '\n' ∉ s) : t = s := by
  induction h with
  | nil => rfl
  | cons c _ ih => rw [ih fun hmem => hs (List.mem_cons_of_mem _ hmem)]
  | gap _ hfeed _ _ _ _ => exact absurd (List.mem_append_left _ hfeed) hs

/-- A character that is not blank stands in both texts, between texts that differ in this way. -/
theorem split {a b t : Text} {c : Char} (h : Reflowed (a ++ c :: b) t) (hc : isBlank c = false) :
    ∃ a' b', t = a' ++ c :: b' ∧ Reflowed a a' ∧ Reflowed b b' := by
  generalize hs : a ++ c :: b = s at h
  induction h generalizing a with
  | nil => simp at hs
  | @cons d s t hst ih =>
    cases a with
    | nil =>
      obtain ⟨rfl, rfl⟩ : c = d ∧ b = s := by simpa using hs
      exact ⟨[], t, rfl, .nil, hst⟩
    | cons e a =>
      obtain ⟨rfl, hrest⟩ : e = d ∧ a ++ c :: b = s := by simpa using hs
      obtain ⟨a', b', rfl, ha, hb⟩ := ih hrest
      exact ⟨e :: a', b', rfl, .cons e ha, hb⟩
  | @gap w w' s t hw hfeed hw' hfeed' hst ih =>
    -- the character is not in the run of blanks, so it comes after it
    obtain ⟨u, rfl, hrest⟩ : ∃ u, a = w ++ u ∧ u ++ c :: b = s := by
      rcases List.append_eq_append_iff.mp hs with ⟨v, hv, hcb⟩ | ⟨u, hu, hs⟩
      · cases v with
        | nil => exact ⟨[], by simpa using hv.symm, by simpa using hcb⟩
        | cons d v =>
          obtain ⟨rfl, -⟩ : c = d ∧ b = v ++ s := by simpa using hcb
          have := hw c (by rw [hv]; simp)
          rw [hc] at this
          exact absurd this (by simp)
      · exact ⟨u, hu, hs.symm⟩
    obtain ⟨a', b', rfl, ha, hb⟩ := ih hrest
    exact ⟨w' ++ a', b', by simp, .gap hw hfeed hw' hfeed' ha, hb⟩

theorem split_cons {b t : Text} {c : Char} (h : Reflowed (c :: b) t) (hc : isBlank c = false) :
    ∃ b', t = c :: b' ∧ Reflowed b b' := by
  have h : Reflowed ([] ++ c :: b) t := h
  obtain ⟨a', b', rfl, ha, hb⟩ := h.split hc
  obtain rfl : a' = [] := ha.eq_of_no_feed List.not_mem_nil
  exact ⟨b', rfl, hb⟩

theorem head?_eq {s t : Text} (h : Reflowed s t) (hs : ∀ c ∈ s.head?, isBlank c = false) :
    t.head? = s.head? := by
  cases s with
  | nil => rw [h.eq_of_no_feed List.not_mem_nil]
  | cons c s =>
    obtain ⟨t, rfl, -⟩ := h.split_cons (hs c rfl)
    rfl

theorem tight {s t : Text} (h : Reflowed s t) (hs : Tight s) : Tight t := by
  refine ⟨fun c hc => hs.1 c (h.head?_eq hs.1 ▸ hc), fun c hc => ?_⟩
  rcases List.eq_nil_or_concat' s with rfl | ⟨s, d, rfl⟩
  · rw [h.eq_of_no_feed List.not_mem_nil] at hc
    simp at hc
  · have hd := hs.2 d (by simp)
    obtain ⟨s', r, rfl, -, hr⟩ := h.split hd
    obtain rfl : r = [] := hr.eq_of_no_feed List.not_mem_nil
    obtain rfl : d = c := by simpa using hc
    exact hd

theorem mem {s t : Text} (h : Reflowed s t) {c : Char} (hc : isBlank c = false) (hmem : c ∈ s) :
    c ∈ t := by
  obtain ⟨a, b, rfl⟩ := List.append_of_mem hmem
  obtain ⟨a', b', rfl, -, -⟩ := h.split hc
  simp

theorem mem_iff {s t : Text} (h : Reflowed s t) {c : Char} (hc : isBlank c = false) :
    c ∈ s ↔ c ∈ t :=
  ⟨h.mem hc, h.symm.mem hc⟩

theorem trimLeft {s t : Text} (h : Reflowed s t) : Reflowed s.trimLeft t.trimLeft := by
  induction h with
  | nil => exact .nil
  | @cons c s t hst ih =>
    by_cases hc : isBlank c = true
    · rwa [Text.trimLeft, Text.trimLeft, List.dropWhile_cons_of_pos hc, List.dropWhile_cons_of_pos hc]
    · rw [Text.trimLeft, Text.trimLeft, List.dropWhile_cons_of_neg hc, List.dropWhile_cons_of_neg hc]
      exact .cons c hst
  | gap hw _ hw' _ _ ih => rwa [trimLeft_blank_append hw, trimLeft_blank_append hw']

/-- A run of characters of a kind that no blank is of is the same in both texts. -/
theorem takeWhile {s t : Text} (h : Reflowed s t) {p : Char → Bool}
    (hp : ∀ c, isBlank c = true → p c = false) :
    t.takeWhile p = s.takeWhile p ∧ Reflowed (s.dropWhile p) (t.dropWhile p) := by
  induction h with
  | nil => exact ⟨rfl, .nil⟩
  | @cons c s t hst ih =>
    by_cases hc : p c = true
    · simpa [List.takeWhile_cons_of_pos hc, List.dropWhile_cons_of_pos hc] using ih
    · rw [List.takeWhile_cons_of_neg hc, List.takeWhile_cons_of_neg hc, List.dropWhile_cons_of_neg hc,
        List.dropWhile_cons_of_neg hc]
      exact ⟨rfl, .cons c hst⟩
  | @gap w w' s t hw hfeed hw' hfeed' hst _ =>
    have hstop : ∀ {v : Text}, Blank v → '\n' ∈ v → ∀ u : Text,
        (v ++ u).takeWhile p = [] ∧ (v ++ u).dropWhile p = v ++ u := by
      intro v hv hfeed u
      obtain ⟨c, v, rfl⟩ := List.exists_cons_of_ne_nil (List.ne_nil_of_mem hfeed)
      have hc : ¬p c = true := by simp [hp c (hv c List.mem_cons_self)]
      exact ⟨List.takeWhile_cons_of_neg hc, List.dropWhile_cons_of_neg hc⟩
    rw [(hstop hw hfeed s).1, (hstop hw hfeed s).2, (hstop hw' hfeed' t).1, (hstop hw' hfeed' t).2]
    exact ⟨rfl, .gap hw hfeed hw' hfeed' hst⟩

end Reflowed

/-! ### Placed blocks -/

theorem exists_trim (l : Text) : ∃ p q, Blank p ∧ Blank q ∧ l = p ++ (l.trim ++ q) := by
  obtain ⟨p, hp, hl⟩ := exists_blank_trimLeft l
  obtain ⟨q, hq, hl'⟩ := exists_blank_trimRight l.trimLeft
  exact ⟨p, q, hp, hq, by rw [trim, ← hl', ← hl]⟩

theorem trim_trimRight (s : Text) : s.trimRight.trim = s.trim := by
  obtain ⟨w, hw, hs⟩ := exists_blank_trimRight s
  conv_rhs => rw [hs, trim_append_blank hw]

theorem map_trim_indentInterior {base : Text} (hbase : Blank base) (ls : List Text) :
    (indentInterior base ls).map trim = ls.map trim := by
  rw [indentInterior_eq, List.map_map, List.map_map]
  refine List.map_congr_left fun l hl => ?_
  have hstart : ¬Blank l → (commonIndent? ls).getD [] <+: l.indent := by
    intro hlblank
    cases hm : commonIndent? ls with
    | none => exact List.nil_prefix
    | some m => exact commonIndent?_isPrefix hm l hl (all_isIndent_of_not_blank hlblank)
  have hcut := blank_cutIndent_iff hstart
  generalize (commonIndent? ls).getD [] = m at hstart hcut
  rw [Function.comp_apply, Function.comp_apply]
  by_cases hlblank : Blank l
  · rw [indentLine_blank (hcut.mpr hlblank), trim_blank hlblank]
    rfl
  · have hm : Blank m := fun c hc => blank_indent l c ((hstart hlblank).subset hc)
    rw [indentLine_inked fun h => hlblank (hcut.mp h), trim_blank_append hbase, trim_trimRight,
      ← trim_blank_append hm, append_cutIndent hlblank (hstart hlblank)]

/-- After a line feed, lines that are the same but for the blanks around them, the last one without
    blanks at its end, follow one another. -/
theorem reflowed_unlines {p p' : Text} (hp : Blank p) (hp' : Blank p') (last : Text) :
    ∀ (w w' : Text) {ls ls' : List Text}, Blank w → '\n' ∈ w → Blank w' → '\n' ∈ w' →
      ls'.map trim = ls.map trim →
        Reflowed (w ++ unlines (ls ++ [p ++ last])) (w' ++ unlines (ls' ++ [p' ++ last]))
  | w, w', [], [], hw, hfeed, hw', hfeed', _ => by
    have h := Reflowed.gap (hw.append hp) (List.mem_append_left p hfeed) (hw'.append hp')
      (List.mem_append_left p' hfeed') (.refl last)
    simpa [unlines] using h
  | _, _, [], _ :: _, _, _, _, _, h => by simp at h
  | _, _, _ :: _, [], _, _, _, _, h => by simp at h
  | w, w', l :: ls, l' :: ls', hw, hfeed, hw', hfeed', h => by
    rw [List.map_cons, List.map_cons, List.cons.injEq] at h
    obtain ⟨htrim, h⟩ := h
    obtain ⟨u, v, hu, hv, hl⟩ := exists_trim l
    obtain ⟨u', v', hu', hv', hl'⟩ := exists_trim l'
    have hend : Blank ['\n'] := Blank.cons (by decide) blank_nil
    have hrest := reflowed_unlines hp hp' last (v ++ ['\n']) (v' ++ ['\n']) (hv.append hend) (by simp)
      (hv'.append hend) (by simp) h
    have hline := Reflowed.gap (hw.append hu) (List.mem_append_left u hfeed) (hw'.append hu')
      (List.mem_append_left u' hfeed') (hrest.append_left l.trim)
    rw [List.cons_append, List.cons_append, unlines_cons _ (by simp), unlines_cons _ (by simp), hl, hl',
      htrim]
    simpa using hline

/-- Placing a body without blanks at its ends changes blanks around line feeds only. -/
theorem reflowed_indentBlock {base pad : Text} (hbase : Blank base) (hpad : Blank pad) {y : Text}
    (hy : Tight y) : Reflowed y (indentBlock y base pad []) := by
  rcases indentBlock_cases y base pad [] with ⟨only, hlines, hblock⟩ |
    ⟨top, mid, bottom, hlines, hblock⟩
  · obtain rfl : only = y := by rw [← unlines_lines y, hlines]; rfl
    rw [hblock, List.nil_append, hy.trim_eq]
    exact .refl only
  · obtain ⟨⟨-, htop⟩, -, hbottom⟩ := hy.outer_lines hlines
    obtain ⟨p, hp, hbottom⟩ := exists_blank_trim hbottom
    obtain ⟨v, hv, htop'⟩ := exists_blank_trimRight top
    have hend : Blank ['\n'] := Blank.cons (by decide) blank_nil
    have hrest := reflowed_unlines hp hbase bottom.trim (v ++ ['\n']) ['\n'] (hv.append hend) (by simp)
      hend (by simp) (map_trim_indentInterior (hbase.append hpad) mid)
    have htrim : top.trim = top.trimRight := by rw [trim, trimLeft_of_head htop]
    have hy' : y = top.trim ++ ((v ++ ['\n']) ++ unlines (mid ++ [p ++ bottom.trim])) := by
      rw [← unlines_lines y, hlines, unlines_cons _ (by simp), ← hbottom, htrim]
      conv_lhs => rw [htop']
      simp
    rw [hblock, List.nil_append]
    conv_lhs => rw [hy']
    exact hrest.append_left top.trim

end JspLayout
