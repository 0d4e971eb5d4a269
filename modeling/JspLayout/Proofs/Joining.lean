import JspLayout.Proofs.RowPieces

/-! Continuations that are joined already.

    A continuation is joined to the nearest line before it that is not blank, if that one ends with a
    closing brace. `Linked` says of lines that this happens to none of them. Main statements: joined lines
    are linked, and lines that are linked are joined to what they are. -/

namespace JspLayout.Java

open Text

/-- None of the lines would be joined to the nearest line before it that is not blank, where `prev`
    stands before them all. -/
def Linked (prev : Text) (lines : List Text) : Prop :=
  (prev :: lines.filter fun l => !l.blank).IsChain Unjoined

theorem filter_dropWhile_blank (lines : List Text) :
    (lines.dropWhile blank).filter (fun l => !l.blank) = lines.filter fun l => !l.blank := by
  induction lines with
  | nil => rfl
  | cons l lines ih =>
    cases hl : l.blank with
    | true => rw [List.dropWhile_cons_of_pos hl, List.filter_cons_of_neg (by simp [hl]), ih]
    | false => rw [List.dropWhile_cons_of_neg (by simp [hl])]

theorem blank_eq_false_iff (s : Text) : s.blank = false ↔ s.trim ≠ [] := by
  rw [← Bool.not_eq_true, blank_iff, ← trim_eq_nil_iff]

theorem blank_eq_false_of_isContinuation {line : Text} (h : isContinuation line.trim = true) :
    line.blank = false := by
  rw [blank_eq_false_iff]
  intro hnil
  rw [hnil] at h
  exact absurd h (by decide)

/-- What a continuation is joined to begins as before. -/
theorem isContinuation_join {target : Text} (h : ¬Blank target) (s : Text) :
    isContinuation (trim (target.trimRight ++ ' ' :: s)) = isContinuation target.trim := by
  obtain ⟨w, hw, htarget⟩ := exists_blank_trimRight target
  have hapart : WordsApart target.trimRight (' ' :: s) := Or.inl (by
    simp [endsWord, isWord_of_isBlank (c := ' ') (by decide)])
  rw [isContinuation_of_trim, isContinuation_trim (not_blank_trimRight h) hapart]
  conv_rhs => rw [htarget, trim_append_blank hw]

theorem isChain_joinLine {before : List Text} (line : Text)
    (h : (before.filter fun l => !l.blank).IsChain fun l prev => Unjoined prev l) :
    ((joinLine before line).filter fun l => !l.blank).IsChain fun l prev => Unjoined prev l := by
  have hkeep : (∀ prev ∈ (before.filter fun l => !l.blank).head?, Unjoined prev line) →
      ((line :: before).filter fun l => !l.blank).IsChain fun l prev => Unjoined prev l := by
    intro hunjoined
    cases hl : line.blank with
    | true => rwa [List.filter_cons_of_neg (by simp [hl])]
    | false =>
      rw [List.filter_cons_of_pos (by simp [hl])]
      exact List.isChain_cons.mpr ⟨hunjoined, h⟩
  rw [joinLine]
  split
  · next hcont =>
    have hdrop := filter_dropWhile_blank before
    have hhead := List.head?_dropWhile_not blank before
    split
    · next hnil =>
      refine hkeep fun prev hprev => ?_
      rw [← hdrop, hnil] at hprev
      simp at hprev
    · next target earlier htarget =>
      rw [htarget] at hdrop hhead
      have hsolid : target.blank = false := by simpa using hhead
      rw [List.filter_cons_of_pos (by simp [hsolid])] at hdrop
      split
      · have hblank : ¬Blank target := by
          rw [← blank_iff]
          simp [hsolid]
        have hjoined : blank (target.trimRight ++ ' ' :: line.trim) = false := by
          rw [← Bool.not_eq_true, blank_iff]
          exact fun hb => not_blank_trimRight hblank fun c hc => hb c (List.mem_append_left _ hc)
        rw [← hdrop] at h
        obtain ⟨hrel, hchain⟩ := List.isChain_cons.mp h
        rw [List.filter_cons_of_pos (by simp [hjoined])]
        refine List.isChain_cons.mpr ⟨fun prev hprev hbrace => ?_, hchain⟩
        rw [isContinuation_join hblank]
        exact hrel prev hprev hbrace
      · next hopen =>
        refine hkeep fun prev hprev hbrace => ?_
        rw [← hdrop, List.head?_cons, Option.mem_some_iff] at hprev
        exact absurd (hprev ▸ hbrace) hopen
  · next hcont => exact hkeep fun _ _ _ => by simpa using hcont

theorem isChain_foldl_joinLine : ∀ {lines before : List Text},
    ((before.filter fun l => !l.blank).IsChain fun l prev => Unjoined prev l) →
      ((lines.foldl joinLine before).filter fun l => !l.blank).IsChain fun l prev => Unjoined prev l
  | [], _, h => h
  | line :: lines, before, h => by
    rw [List.foldl_cons]
    exact isChain_foldl_joinLine (isChain_joinLine line h)

/-- After the continuations are joined none is left to join. -/
theorem linked_foldl_joinLine (lines : List Text) : Linked [] (lines.foldl joinLine []).reverse := by
  rw [Linked, List.filter_reverse, List.isChain_cons, List.isChain_reverse]
  exact ⟨fun _ _ hbrace => absurd hbrace (by decide), isChain_foldl_joinLine (by simp)⟩

theorem Linked.tail {prev line : Text} {lines : List Text} (h : Linked prev (line :: lines)) :
    Linked (if line.blank then prev else line) lines := by
  rw [Linked] at h
  cases hl : line.blank with
  | true => rwa [List.filter_cons_of_neg (by simp [hl])] at h
  | false =>
    rw [List.filter_cons_of_pos (by simp [hl])] at h
    exact (List.isChain_cons_cons.mp h).2

theorem Linked.head {prev line : Text} {lines : List Text} (h : Linked prev (line :: lines))
    (hl : line.blank = false) : Unjoined prev line := by
  rw [Linked, List.filter_cons_of_pos (by simp [hl])] at h
  exact (List.isChain_cons_cons.mp h).1

/-- Lines of which none would be joined stay as they are. -/
theorem Linked.foldl_joinLine : ∀ {lines before : List Text},
    Linked ((before.dropWhile blank).head?.getD []) lines →
      lines.foldl joinLine before = lines.reverse ++ before
  | [], _, _ => rfl
  | line :: lines, before, h => by
    have hline : joinLine before line = line :: before := by
      rw [joinLine]
      split
      · next hcont =>
        have hunjoined := h.head (blank_eq_false_of_isContinuation hcont)
        split
        · rfl
        · next target earlier htarget =>
          rw [htarget] at hunjoined
          refine if_neg fun hbrace => ?_
          rw [hunjoined hbrace] at hcont
          exact absurd hcont (by decide)
      · rfl
    have hnext : Linked (((line :: before).dropWhile blank).head?.getD []) lines := by
      have htail := h.tail
      cases hl : line.blank with
      | true =>
        rw [List.dropWhile_cons_of_pos hl]
        rwa [hl] at htail
      | false =>
        rw [List.dropWhile_cons_of_neg (by simp [hl])]
        rwa [hl] at htail
    rw [List.foldl_cons, hline, hnext.foldl_joinLine, List.reverse_cons, List.append_assoc]
    rfl

theorem endsWithBrace_trim (s : Text) : endsWithBrace s.trim = endsWithBrace s := by
  rw [endsWithBrace_eq, endsWithBrace_eq, solidKinds_trim]

theorem unjoined_trim (a b : Text) : Unjoined a.trim b.trim ↔ Unjoined a b := by
  rw [Unjoined, Unjoined, endsWithBrace_trim, trim_trim]

theorem blank_trim (s : Text) : s.trim.blank = s.blank := by
  rw [Bool.eq_iff_iff, blank_iff, blank_iff, ← trim_eq_nil_iff, ← trim_eq_nil_iff, trim_trim]

/-- Blanks around the lines play no part in what is joined. -/
theorem linked_trim (prev : Text) (lines : List Text) :
    Linked prev.trim (lines.map trim) ↔ Linked prev lines := by
  have hfilter : (lines.map trim).filter (fun l => !l.blank) =
      (lines.filter fun l => !l.blank).map trim := by
    rw [List.filter_map]
    congr 2
    exact funext fun l => by simp [blank_trim]
  rw [Linked, Linked, hfilter, ← List.map_cons, List.isChain_map]
  simp only [unjoined_trim]

end JspLayout.Java
