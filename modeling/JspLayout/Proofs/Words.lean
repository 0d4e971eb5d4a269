import JspLayout.Proofs.Occurrence
import JspLayout.Java.Keyword

/-! Words at the start of a text.

    A keyword counts where a word ends after it, so whether a text begins with one does not depend on
    what follows the words of the text. -/

namespace JspLayout.Java

open Text

/-- No word runs from `t` into `r`. -/
def WordsApart (t r : Text) : Prop := endsWord r = true ∨ ∀ c ∈ t.getLast?, isWord c = false

theorem WordsApart.of_append {s t r : Text} (h : WordsApart (s ++ t) r) (ht : t ≠ []) :
    WordsApart t r :=
  h.imp_right fun hlast c hc => hlast c (by rwa [List.getLast?_append_of_ne_nil _ ht])

theorem afterWord?_eq_some_iff {word s rest : Text} :
    afterWord? word s = some rest ↔ s = word ++ rest ∧ endsWord rest = true := by
  rw [afterWord?, Option.filter_eq_some_iff, after?_eq_some_iff]

theorem endsWord_append {a r : Text} (ha : a ≠ []) : endsWord (a ++ r) = endsWord a := by
  cases a with
  | nil => exact absurd rfl ha
  | cons c a => rfl

/-- Whether a text begins with a word does not depend on what follows the words of the text. -/
theorem isSome_afterWord?_append {word t r : Text} (hword : ∀ c ∈ word, isWord c = true)
    (hw : word ≠ []) (ht : t ≠ []) (hr : WordsApart t r) :
    (afterWord? word (t ++ r)).isSome = (afterWord? word t).isSome := by
  have hmem : ∀ {t : Text} {c : Char}, t <+: word → c ∈ t.getLast? → isWord c = true :=
    fun hp hc => hword _ (hp.subset (List.mem_of_getLast? hc))
  have hlast : ∀ {t : Text}, t ≠ [] → t <+: word → ¬∀ c ∈ t.getLast?, isWord c = false := by
    intro t ht hp hall
    obtain ⟨c, hc⟩ := List.getLast?_isSome.mpr ht |> Option.isSome_iff_exists.mp
    have := hall c hc
    rw [hmem hp hc] at this
    exact absurd this (by simp)
  rw [Bool.eq_iff_iff, Option.isSome_iff_exists, Option.isSome_iff_exists]
  constructor
  · rintro ⟨rest, h⟩
    obtain ⟨hs, hend⟩ := afterWord?_eq_some_iff.mp h
    rcases List.append_eq_append_iff.mp hs with ⟨a, hword', hr'⟩ | ⟨a, rfl, rfl⟩
    · cases a with
      | nil =>
        rw [List.append_nil] at hword'
        exact ⟨[], afterWord?_eq_some_iff.mpr ⟨by rw [hword', List.append_nil], rfl⟩⟩
      | cons x a =>
        rcases hr with hr | hr
        · have hx : isWord x = true := hword x (by rw [hword']; simp)
          rw [hr', List.cons_append, endsWord, hx] at hr
          exact absurd hr (by simp)
        · exact absurd hr (hlast ht ⟨x :: a, hword'.symm⟩)
    · refine ⟨a, afterWord?_eq_some_iff.mpr ⟨rfl, ?_⟩⟩
      by_cases ha : a = []
      · rw [ha]
        rfl
      · rwa [endsWord_append ha] at hend
  · rintro ⟨rest, h⟩
    obtain ⟨rfl, hend⟩ := afterWord?_eq_some_iff.mp h
    refine ⟨rest ++ r, afterWord?_eq_some_iff.mpr ⟨List.append_assoc .., ?_⟩⟩
    by_cases hrest : rest = []
    · subst hrest
      rw [List.append_nil] at hr
      exact hr.resolve_right (hlast hw (List.prefix_refl _))
    · rwa [endsWord_append hrest]

theorem isSome_keyword?_iff {words : List Text} {s : Text} :
    (keyword? words s).isSome = true ↔ ∃ word ∈ words, (afterWord? word s).isSome = true := by
  rw [keyword?, List.findSome?_isSome_iff]
  simp

theorem isSome_keyword?_append {words : List Text}
    (hwords : ∀ word ∈ words, word ≠ [] ∧ ∀ c ∈ word, isWord c = true) {t r : Text} (ht : t ≠ [])
    (hr : WordsApart t r) : (keyword? words (t ++ r)).isSome = (keyword? words t).isSome := by
  rw [Bool.eq_iff_iff, isSome_keyword?_iff, isSome_keyword?_iff]
  refine exists_congr fun word => and_congr_right fun hmem => ?_
  rw [isSome_afterWord?_append (hwords word hmem).2 (hwords word hmem).1 ht hr]

theorem words_of_all {words : List Text}
    (h : (words.all fun word => !word.isEmpty && word.all isWord) = true) :
    ∀ word ∈ words, word ≠ [] ∧ ∀ c ∈ word, isWord c = true := by
  intro word hmem
  have hword := List.all_eq_true.mp h word hmem
  rw [Bool.and_eq_true, Bool.not_eq_true', List.isEmpty_eq_false_iff] at hword
  exact ⟨hword.1, List.all_eq_true.mp hword.2⟩

theorem closingWords_words : ∀ word ∈ closingWords, word ≠ [] ∧ ∀ c ∈ word, isWord c = true :=
  words_of_all (by decide +kernel)

theorem continuationWords_words :
    ∀ word ∈ continuationWords, word ≠ [] ∧ ∀ c ∈ word, isWord c = true :=
  words_of_all (by decide +kernel)

theorem gluesToClose_append {t r : Text} (ht : t ≠ []) (hr : WordsApart t r) :
    gluesToClose (t ++ r) = gluesToClose t := by
  have hkeyword := isSome_keyword?_append closingWords_words ht hr
  cases t with
  | nil => exact absurd rfl ht
  | cons c t =>
    rw [List.cons_append] at hkeyword ⊢
    rw [gluesToClose, gluesToClose, hkeyword]

theorem isContinuation_append {t r : Text} (ht : t ≠ []) (hr : WordsApart t r) :
    isContinuation (t ++ r) = isContinuation t :=
  isSome_keyword?_append continuationWords_words ht hr

theorem isWord_of_isBlank {c : Char} (h : isBlank c = true) : isWord c = false := by
  have hcodes : ∀ n ∈ List.range' 0x09 5 ++ List.range' 0x1C 5 ++ List.range' 0x2000 11 ++
      [0x85, 0xA0, 0x1680, 0x2028, 0x2029, 0x202F, 0x205F, 0x3000],
      isWord (Char.ofNat n) = false := by
    decide +kernel
  rw [← Char.ofNat_toNat c]
  refine hcodes _ ?_
  simp only [isBlank, Bool.or_eq_true, Bool.and_eq_true, decide_eq_true_eq, beq_iff_eq] at h
  simp only [List.mem_append, List.mem_range'_1, List.mem_cons, List.not_mem_nil, or_false]
  omega

theorem solid_of_isWord {c : Char} (h : isWord c = true) : isBlank c = false := by
  rw [← Bool.not_eq_true]
  intro hb
  rw [isWord_of_isBlank hb] at h
  exact absurd h (by simp)

theorem endsWord_of_blank {w : Text} (hw : Blank w) : endsWord w = true := by
  cases w with
  | nil => rfl
  | cons c w => simp [endsWord, isWord_of_isBlank (hw c List.mem_cons_self)]

/-- Blanks at the ends of a text do not change which word it begins with. -/
theorem exists_trim_append {t r : Text} (ht : ¬Blank t) (hr : WordsApart t r) :
    t.trim ≠ [] ∧ ∃ r', (t ++ r).trimLeft = t.trim ++ r' ∧ WordsApart t.trim r' := by
  have hne : t.trim ≠ [] := fun h => ht ((trim_eq_nil_iff t).mp h)
  obtain ⟨w, hw, htw⟩ := exists_blank_trimRight t.trimLeft
  rw [← trim] at htw
  refine ⟨hne, w ++ r, by rw [trimLeft_append ht, htw, List.append_assoc], ?_⟩
  cases w with
  | cons c w => exact Or.inl (by simp [endsWord, isWord_of_isBlank (hw c List.mem_cons_self)])
  | nil =>
    refine hr.imp_right fun h c hc => h c ?_
    obtain ⟨v, _, htv⟩ := exists_blank_trimLeft t
    rw [htv, htw, List.append_nil, List.getLast?_append_of_ne_nil _ hne]
    exact hc

theorem gluesToClose_trim {t r : Text} (ht : ¬Blank t) (hr : WordsApart t r) :
    gluesToClose (t ++ r).trimLeft = gluesToClose t.trim := by
  obtain ⟨hne, r', happ, hr'⟩ := exists_trim_append ht hr
  rw [happ, gluesToClose_append hne hr']

theorem isContinuation_trim {t r : Text} (ht : ¬Blank t) (hr : WordsApart t r) :
    isContinuation (t ++ r).trimLeft = isContinuation t.trim := by
  obtain ⟨hne, r', happ, hr'⟩ := exists_trim_append ht hr
  rw [happ, isContinuation_append hne hr']

theorem isContinuation_of_trim (s : Text) : isContinuation s.trim = isContinuation s.trimLeft := by
  by_cases hs : Blank s
  · rw [trim_blank hs, trimLeft_blank hs]
  · have h := isContinuation_trim hs (Or.inl rfl : WordsApart s [])
    rw [List.append_nil] at h
    exact h.symm

theorem gluesToClose_of_trim (s : Text) : gluesToClose s.trim = gluesToClose s.trimLeft := by
  by_cases hs : Blank s
  · rw [trim_blank hs, trimLeft_blank hs]
  · have h := gluesToClose_trim hs (Or.inl rfl : WordsApart s [])
    rw [List.append_nil] at h
    exact h.symm

theorem gluesToClose_trimRight (s : Text) :
    gluesToClose s.trimRight.trimLeft = gluesToClose s.trimLeft := by
  obtain ⟨w, hw, hs⟩ := exists_blank_trimRight s
  by_cases hb : Blank s.trimRight
  · have hblank : Blank s := by
      rw [hs]
      exact hb.append hw
    rw [trimLeft_blank hb, trimLeft_blank hblank]
  · have hw' : WordsApart s.trimRight w := Or.inl (endsWord_of_blank hw)
    rw [← gluesToClose_of_trim, ← gluesToClose_trim hb hw', ← hs]

theorem gluesToClose_of_isContinuation {s : Text} (h : isContinuation s = true) :
    gluesToClose s = true := by
  obtain ⟨word, hmem, hword⟩ := isSome_keyword?_iff.mp h
  have hclosing : word ∈ closingWords := by
    have hsub : ∀ w ∈ continuationWords, w ∈ closingWords := by decide
    exact hsub word hmem
  have hkeyword := isSome_keyword?_iff.mpr ⟨word, hclosing, hword⟩
  cases s with
  | nil => exact absurd h (by decide)
  | cons c s => simp [gluesToClose, hkeyword]

end JspLayout.Java
