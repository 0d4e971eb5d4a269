import JspLayout.Proofs.RowParts

/-! Headers and labels that are split off.

    A control header ends with its control word or with the parenthesis that closes its condition, and
    a label with its colon. Main statements: a header that is split off is a header with nothing after
    it, and so is a label. -/

namespace JspLayout.Java

open Text

/-! ### Control words -/

/-- A word that opens a control statement, with whether a condition must follow. -/
inductive ControlWord : Text → Bool → Prop
  | plain {word : Text} {needs : Bool} : (word, needs) ∈ controlWords → ControlWord word needs
  | elseIf {w : Text} : Blank w → w ≠ [] → ControlWord ("else".toList ++ (w ++ "if".toList)) true

theorem exists_controlWord {s rest : Text} {needs : Bool} (h : controlWord? s = some (needs, rest)) :
    ∃ word, ControlWord word needs ∧ s = word ++ rest ∧ endsWord rest = true := by
  rw [controlWord?, Option.orElse_eq_orElse, Option.orElse_eq_or] at h
  rcases Option.or_eq_some_iff.mp h with h | ⟨_, h⟩
  · obtain ⟨rest', helse, he⟩ := Option.map_eq_some_iff.mp h
    rw [Prod.mk.injEq] at he
    obtain ⟨rfl, rfl⟩ := he
    rw [afterElseIf?, Option.bind_eq_bind, Option.bind_eq_some_iff] at helse
    obtain ⟨s', hs', hif⟩ := helse
    split at hif
    · next hblank =>
      obtain ⟨w, hw, hs''⟩ := exists_blank_trimLeft s'
      obtain ⟨hrest, hend⟩ := afterWord?_eq_some_iff.mp hif
      refine ⟨_, .elseIf hw ?_, ?_, hend⟩
      · rintro rfl
        rw [List.nil_append] at hs''
        rw [hs'', hrest] at hblank
        exact absurd hblank (by simp [isBlank])
      · rw [eq_append_of_after? hs', hs'', hrest]
        simp
    · exact absurd hif (by simp)
  · obtain ⟨⟨word, needs'⟩, hmem, hfound⟩ := List.exists_of_findSome?_eq_some h
    obtain ⟨rest', hword, he⟩ := Option.map_eq_some_iff.mp hfound
    rw [Prod.mk.injEq] at he
    obtain ⟨rfl, rfl⟩ := he
    obtain ⟨hs, hend⟩ := afterWord?_eq_some_iff.mp hword
    exact ⟨word, .plain hmem, hs, hend⟩

/-- A control word is found before any text that does not go on with it. -/
theorem ControlWord.controlWord? {word rest : Text} {needs : Bool} (h : ControlWord word needs)
    (hrest : endsWord rest = true) (hif : rest.trimLeft.head? ≠ some 'i') :
    Java.controlWord? (word ++ rest) = some (needs, rest) := by
  cases h with
  | plain hmem =>
    have helse : afterElseIf? ("else".toList ++ rest) = none := by
      rw [afterElseIf?, after?_append, Option.bind_eq_bind, Option.bind_some]
      split
      · cases hs : rest.trimLeft with
        | nil => rfl
        | cons c s =>
          have hc : c ≠ 'i' := by
            rintro rfl
            exact hif (by rw [hs]; rfl)
          simp [afterWord?, after?, Ne.symm hc]
      · rfl
    simp only [controlWords, List.mem_cons, Prod.mk.injEq, List.not_mem_nil, or_false] at hmem
    rcases hmem with h | h | h | h | h | h | h | h | h | h <;> obtain ⟨rfl, rfl⟩ := h
    case inr.inr.inr.inr.inr.inr.inr.inl =>
      rw [Java.controlWord?, helse]
      simp [controlWords, afterWord?, after?, hrest]
    all_goals simp [Java.controlWord?, afterElseIf?, controlWords, afterWord?, after?, hrest]
  | @elseIf w hw hne =>
    have hblank : (w ++ ("if".toList ++ rest)).head?.any isBlank = true := by
      cases w with
      | nil => exact absurd rfl hne
      | cons c w => exact hw c List.mem_cons_self
    have hif' : afterWord? "if".toList (w ++ ("if".toList ++ rest)).trimLeft = some rest := by
      rw [trimLeft_blank_append hw]
      exact afterWord?_eq_some_iff.mpr ⟨rfl, hrest⟩
    rw [Java.controlWord?, afterElseIf?, List.append_assoc, after?_append, Option.bind_eq_bind,
      Option.bind_some, List.append_assoc, if_pos hblank, hif']
    rfl

/-- A text of words and blanks. -/
def Wordy (s : Text) : Prop := ∀ c ∈ s, isWord c = true ∨ isBlank c = true

theorem ne_of_wordy {c d : Char} (hc : isWord c = true ∨ isBlank c = true)
    (hd : isWord d = false ∧ isBlank d = false) : c ≠ d := by
  rintro rfl
  rw [hd.1, hd.2] at hc
  simp at hc

theorem Wordy.unquoted {s : Text} (h : Wordy s) : Unquoted s := fun c hc =>
  ⟨ne_of_wordy (h c hc) (by decide +kernel), ne_of_wordy (h c hc) (by decide +kernel),
    ne_of_wordy (h c hc) (by decide +kernel)⟩

theorem Wordy.append {s t : Text} (hs : Wordy s) (ht : Wordy t) : Wordy (s ++ t) :=
  List.forall_mem_append.mpr ⟨hs, ht⟩

theorem wordy_of_blank {w : Text} (hw : Blank w) : Wordy w := fun c hc => Or.inr (hw c hc)

/-- Words and blanks open no bracket. -/
theorem Wordy.walk? {s : Text} (h : Wordy s) :
    ({} : Place).walk? (s.map fun c => (c, .code)) = some {} := by
  induction s with
  | nil => rfl
  | cons c s ih =>
    obtain ⟨hc, hs⟩ := List.forall_mem_cons.mp h
    have hne : ∀ d : Char, isWord d = false ∧ isBlank d = false → c ≠ d := fun d => ne_of_wordy hc
    have hread : ({} : Place).read? (c, .code) = some {} := by
      simp [Place.read?, Place.bracket?, Place.fillsAfter, hne '(' (by decide +kernel),
        hne ')' (by decide +kernel), hne '{' (by decide +kernel), hne '}' (by decide +kernel),
        hne ';' (by decide +kernel), hne '=' (by decide +kernel), hne ',' (by decide +kernel),
        hne ']' (by decide +kernel)]
    rw [List.map_cons, Place.walk?_cons, hread, Option.bind_some]
    exact ih hs

/-- The words of `controlWords` begin and end with word characters and are no labels. -/
theorem controlWords_words : ∀ p ∈ controlWords, (∀ c ∈ p.1, isWord c = true) ∧ p.1 ≠ [] := by
  have hwords : ∀ word ∈ controlWords.map Prod.fst, word ≠ [] ∧ ∀ c ∈ word, isWord c = true :=
    words_of_all (by decide +kernel)
  exact fun p hmem => (hwords p.1 (List.mem_map_of_mem hmem)).symm

namespace ControlWord

variable {word : Text} {needs : Bool}

theorem wordy (h : ControlWord word needs) : Wordy word := by
  cases h with
  | plain hmem => exact fun c hc => Or.inl ((controlWords_words _ hmem).1 c hc)
  | elseIf hw =>
    have hletters : ∀ c ∈ "else".toList ++ "if".toList, isWord c = true :=
      List.all_eq_true.mp (by decide +kernel)
    refine Wordy.append (fun c hc => Or.inl (hletters c (List.mem_append_left _ hc))) ?_
    exact (wordy_of_blank hw).append fun c hc => Or.inl (hletters c (List.mem_append_right _ hc))

/-- A control word begins with a letter that is none of a brace. -/
theorem head (h : ControlWord word needs) :
    ∃ c t, word = c :: t ∧ isWord c = true := by
  cases h with
  | plain hmem =>
    obtain ⟨hletters, hne⟩ := controlWords_words _ hmem
    obtain ⟨c, t, rfl⟩ := List.exists_cons_of_ne_nil hne
    exact ⟨c, t, rfl, hletters c List.mem_cons_self⟩
  | elseIf => exact ⟨'e', _, rfl, by decide +kernel⟩

theorem last (h : ControlWord word needs) : ∃ t c, word = t ++ [c] ∧ isWord c = true := by
  cases h with
  | plain hmem =>
    obtain ⟨hletters, hne⟩ := controlWords_words _ hmem
    rcases List.eq_nil_or_concat word with rfl | ⟨t, c, rfl⟩
    · exact absurd rfl hne
    · exact ⟨t, c, List.concat_eq_append, hletters c (by simp)⟩
  | @elseIf w => exact ⟨"else".toList ++ (w ++ ['i']), 'f', by simp, by decide +kernel⟩

theorem isCaseLabel (h : ControlWord word needs) (rest : Text) :
    Java.isCaseLabel (word ++ rest) = false := by
  cases h with
  | plain hmem =>
    simp only [controlWords, List.mem_cons, Prod.mk.injEq, List.not_mem_nil, or_false] at hmem
    rcases hmem with h | h | h | h | h | h | h | h | h | h <;> obtain ⟨rfl, rfl⟩ := h <;>
      simp [Java.isCaseLabel, afterWord?, after?]
  | elseIf => simp [Java.isCaseLabel, afterWord?, after?]

end ControlWord

/-! ### Control headers -/

/-- What may stand before a control word: nothing, or a closing brace and blanks. -/
def Braced (brace : Text) : Prop := brace = [] ∨ ∃ w, Blank w ∧ brace = '}' :: w

theorem exists_braced (code : Text) : ∃ brace, Braced brace ∧ code = brace ++ afterBrace code := by
  unfold afterBrace
  split
  · next rest =>
    obtain ⟨w, hw, hs⟩ := exists_blank_trimLeft rest
    exact ⟨'}' :: w, Or.inr ⟨w, hw, rfl⟩, by rw [List.cons_append, ← hs]⟩
  · exact ⟨[], Or.inl rfl, rfl⟩

theorem Braced.unquoted {brace : Text} (h : Braced brace) : Unquoted brace := by
  rcases h with rfl | ⟨w, hw, rfl⟩
  · simp [Unquoted]
  · exact Unquoted.append (s := ['}']) (by decide) (unquoted_of_blank hw)

theorem Braced.afterBrace_append {brace s : Text} (h : Braced brace) {c : Char} {t : Text}
    (hs : s = c :: t) (hc : isWord c = true) : afterBrace (brace ++ s) = s := by
  have hblank : isBlank c = false := solid_of_isWord hc
  have hbrace : c ≠ '}' := by
    rintro rfl
    exact absurd hc (by decide +kernel)
  rcases h with rfl | ⟨w, hw, rfl⟩
  · rw [List.nil_append, hs, afterBrace]
    rintro rest ⟨⟩
    exact hbrace rfl
  · have hbody : afterBrace ('}' :: (w ++ s)) = trimLeft (w ++ s) := rfl
    rw [List.cons_append, hbody, trimLeft_blank_append hw, hs, trimLeft_of_solid_head hblank]

section Header

variable {brace word : Text} {needs : Bool}

theorem controlWord?_braced (hbrace : Braced brace) (hword : ControlWord word needs) {rest : Text}
    (hrest : endsWord rest = true) (hif : rest.trimLeft.head? ≠ some 'i') :
    controlWord? (afterBrace (brace ++ (word ++ rest))) = some (needs, rest) := by
  obtain ⟨c, t, hc, hletter⟩ := hword.head
  rw [hbrace.afterBrace_append (by rw [hc]; rfl) hletter, hword.controlWord? hrest hif]

/-- A control word before a parenthesis: the header ends where the parenthesis is closed. -/
theorem splitControlHeader_parens (hbrace : Braced brace) (hword : ControlWord word needs) {w : Text}
    (hw : Blank w) (t : Text) :
    splitControlHeader (brace ++ (word ++ (w ++ '(' :: t))) =
      (afterParens? 1 (classify t)).map fun tail =>
        splitTrimmed ((brace ++ (word ++ (w ++ '(' :: t))).length - tail.length)
          (brace ++ (word ++ (w ++ '(' :: t))) := by
  have hparen : (w ++ '(' :: t).trimLeft = '(' :: t := by
    rw [trimLeft_blank_append hw, trimLeft_of_solid_head (by decide)]
  have hrest : endsWord (w ++ '(' :: t) = true := by
    cases w with
    | nil =>
      have : isWord '(' = false := by decide +kernel
      simp [endsWord, this]
    | cons c w => simp [endsWord, isWord_of_isBlank (hw c List.mem_cons_self)]
  have hunquoted : Unquoted (brace ++ (word ++ w)) :=
    hbrace.unquoted.append (hword.wordy.unquoted.append (unquoted_of_blank hw))
  have hassoc : brace ++ (word ++ (w ++ '(' :: t)) = (brace ++ (word ++ w)) ++ '(' :: t := by simp
  have hdrop : (classify (brace ++ (word ++ (w ++ '(' :: t)))).drop
      ((brace ++ (word ++ (w ++ '(' :: t))).length - ('(' :: t).length) =
        ('(', .code) :: classify t := by
    have hlen : (brace ++ (word ++ (w ++ '(' :: t))).length - ('(' :: t).length =
        ((brace ++ (word ++ w)).map fun c => (c, CharKind.code)).length := by
      rw [hassoc, List.length_append, Nat.add_sub_cancel, List.length_map]
    rw [hlen, hassoc, classify_append_unquoted hunquoted, List.drop_left,
      classify_cons_unquoted (by decide)]
  rw [splitControlHeader_eq, controlWord?_braced hbrace hword hrest (by rw [hparen]; simp),
    Option.bind_some]
  simp only [hparen, List.head?_cons, if_true, hdrop]
  rw [afterParens?, if_pos ⟨rfl, rfl⟩]

/-- A control word that stands alone. -/
theorem splitControlHeader_word (hbrace : Braced brace) (hword : ControlWord word needs)
    (hneeds : needs = false) :
    splitControlHeader (brace ++ word) = some (trimRight (brace ++ word), []) := by
  have hend : endsWord [] = true := rfl
  have hfound := controlWord?_braced hbrace hword hend (by simp [trimLeft])
  rw [List.append_nil] at hfound
  have hparen : (trimLeft []).head? ≠ some '(' := by simp [trimLeft]
  rw [splitControlHeader_eq, hfound, Option.bind_some]
  simp only [hparen, hneeds, if_false, Bool.false_eq_true]
  rw [splitTrimmed, List.length_nil, Nat.sub_zero, List.take_length, List.drop_length]
  rfl

end Header

/-- The parenthesis that closes those that are open is the first one that does, and up to it the scan
    makes no cut. -/
theorem afterParens?_walk : ∀ {l tail : List (Char × CharKind)} {depth : Nat},
    afterParens? (depth + 1) l = some tail → ∃ l₁, l = l₁ ++ (')', .code) :: tail ∧
      afterParens? (depth + 1) (l₁ ++ [(')', .code)]) = some [] ∧
        ∀ p : Place, p.parens = depth + 1 →
          p.walk? (l₁ ++ [(')', .code)]) = some { p with parens := 0, fills := false }
  | [], _, _, h => by simp [afterParens?] at h
  | (c, kind) :: l, tail, depth, h => by
    rw [afterParens?] at h
    split at h
    · next hc =>
      obtain ⟨l₁, rfl, hagain, hwalk⟩ := afterParens?_walk h
      refine ⟨(c, kind) :: l₁, rfl, ?_, fun p hp => ?_⟩
      · rw [List.cons_append, afterParens?, if_pos hc]
        exact hagain
      · have hread : p.read? (c, kind) =
            some { p with parens := depth + 2, fills := p.fillsAfter c } := by
          simp [Place.read?, Place.bracket?, hc, hp]
        rw [List.cons_append, Place.walk?_cons, hread, Option.bind_some]
        exact hwalk _ rfl
    · next hopen =>
      split at h
      · next hc =>
        split at h
        · next hdepth =>
          obtain rfl : depth = 0 := by omega
          obtain rfl : l = tail := Option.some.inj h
          refine ⟨[], by rw [hc.1, hc.2]; rfl, rfl, fun p hp => ?_⟩
          simp [Place.walk?_cons, Place.read?, Place.bracket?, Place.fillsAfter, hp, isBlank]
        · next hdepth =>
          obtain ⟨depth, rfl⟩ : ∃ k, depth = k + 1 := ⟨depth - 1, by omega⟩
          obtain ⟨l₁, rfl, hagain, hwalk⟩ := afterParens?_walk h
          refine ⟨(c, kind) :: l₁, rfl, ?_, fun p hp => ?_⟩
          · rw [List.cons_append, afterParens?, if_neg hopen, if_pos hc, if_neg hdepth]
            exact hagain
          · have hread : p.read? (c, kind) =
                some { p with parens := depth + 1, fills := p.fillsAfter c } := by
              simp [Place.read?, Place.bracket?, hc, hp]
            rw [List.cons_append, Place.walk?_cons, hread, Option.bind_some]
            exact hwalk _ rfl
      · next hclose =>
        obtain ⟨l₁, rfl, hagain, hwalk⟩ := afterParens?_walk h
        refine ⟨(c, kind) :: l₁, rfl, ?_, fun p hp => ?_⟩
        · rw [List.cons_append, afterParens?, if_neg hopen, if_neg hclose]
          exact hagain
        · -- inside parentheses no other bracket counts
          have hread : p.read? (c, kind) = some { p with fills := p.fillsAfter c } := by
            by_cases hkind : kind = .code
            · have hc : c ≠ '(' ∧ c ≠ ')' := by tauto
              simp [Place.read?, Place.bracket?, hkind, hc, hp]
            · exact Place.read?_of_ne_code hkind p
          rw [List.cons_append, Place.walk?_cons, hread, Option.bind_some]
          exact hwalk _ hp

/-- Where a text is cut after a character of the code, each part has its own kinds. -/
theorem exists_classify_parts {s : Text} {l₁ l₂ : List (Char × CharKind)} {c : Char}
    (h : classify s = l₁ ++ (c, .code) :: l₂) (hc : Plain (some c)) :
    ∃ u v, s = u ++ v ∧ classify u = l₁ ++ [(c, .code)] ∧ classify v = l₂ ∧
      modeAfter .code none u = .code ∧ Apart u v.head? := by
  obtain ⟨u, v, rfl, hlen, hmode, hapart⟩ := cut_after_code h hc
  rw [classify_append (sealed_of_apart hmode hapart), List.append_cons] at h
  obtain ⟨hu, hv⟩ := List.append_inj h (by simp [length_classify, hlen])
  exact ⟨u, v, rfl, hu, hv, hmode, hapart⟩

/-- A control header with nothing after it. -/
structure Heading (head : Text) : Prop where
  again : splitControlHeader head = some (head, [])
  label : splitCaseLabel head = none
  mode : modeAfter .code none head = .code
  last : ∃ c, (classify head).getLast? = some (c, .code) ∧ (c = ')' ∨ isWord c = true)
  begins : ∃ c t, afterBrace head = c :: t ∧ isWord c = true
  reaches : Reaches (afterBrace head) {}

namespace Heading

variable {head : Text}

theorem getLast? (h : Heading head) : ∃ c, head.getLast? = some c ∧ (c = ')' ∨ isWord c = true) := by
  obtain ⟨c, hlast, hc⟩ := h.last
  refine ⟨c, ?_, hc⟩
  rw [← map_fst_classify head, List.getLast?_map, hlast]
  rfl

theorem solid_last (h : Heading head) : ∀ c ∈ head.getLast?, isBlank c = false := by
  intro c hc
  obtain ⟨d, hd, hd'⟩ := h.getLast?
  rw [hd, Option.mem_some_iff] at hc
  subst hc
  rcases hd' with rfl | hletter
  · decide
  · exact solid_of_isWord hletter

end Heading

theorem splitCaseLabel_of_controlWord {brace word : Text} {needs : Bool} (hbrace : Braced brace)
    (hword : ControlWord word needs) (s : Text) : splitCaseLabel (brace ++ (word ++ s)) = none := by
  rcases hbrace with rfl | ⟨w, _, rfl⟩
  · rw [List.nil_append, splitCaseLabel, hword.isCaseLabel]
    rfl
  · exact Indenter.splitCaseLabel_of_brace rfl

theorem trimRight_of_getLast? {s : Text} {c : Char} (h : s.getLast? = some c)
    (hc : isBlank c = false) : s.trimRight = s := by
  refine trimRight_of_last fun d hd => ?_
  rw [h, Option.mem_some_iff] at hd
  exact hd ▸ hc

theorem splitTrimmed_append {u v : Text} {n : Nat} (hn : n = u.length) :
    splitTrimmed n (u ++ v) = (u.trimRight, v.trim) := by
  rw [splitTrimmed, hn, List.take_left, List.drop_left]

/-- A header that ends with its condition. -/
theorem heading_parens {brace word w u : Text} {needs : Bool} {l : List (Char × CharKind)}
    (hbrace : Braced brace) (hword : ControlWord word needs) (hw : Blank w)
    (hu : classify u = l ++ [(')', .code)]) (hmode : modeAfter .code none u = .code)
    (hagain : afterParens? 1 (classify u) = some [])
    (hwalk : ∀ p : Place, p.parens = 1 →
      p.walk? (classify u) = some { p with parens := 0, fills := false }) :
    Heading (brace ++ (word ++ (w ++ '(' :: u))) := by
  obtain ⟨c, t, hc, hletter⟩ := hword.head
  have hbody : ∀ {x : Text}, Unquoted x → classify (x ++ '(' :: u) =
      (x.map fun c => (c, .code)) ++ ('(', .code) :: classify u := fun hx => by
    rw [classify_append_unquoted hx, classify_cons_unquoted (by decide)]
  have hwordy : Wordy (word ++ w) := hword.wordy.append (wordy_of_blank hw)
  have hunquoted : Unquoted (brace ++ (word ++ w)) := hbrace.unquoted.append hwordy.unquoted
  have hassoc : brace ++ (word ++ (w ++ '(' :: u)) = (brace ++ (word ++ w)) ++ '(' :: u := by simp
  have hlast : (classify (brace ++ (word ++ (w ++ '(' :: u)))).getLast? = some (')', .code) := by
    rw [hassoc, hbody hunquoted, hu, ← List.cons_append, ← List.append_assoc, List.getLast?_concat]
  have htrim : trimRight (brace ++ (word ++ (w ++ '(' :: u))) =
      brace ++ (word ++ (w ++ '(' :: u)) := by
    refine trimRight_of_getLast? (c := ')') ?_ (by decide)
    rw [← map_fst_classify (brace ++ (word ++ (w ++ '(' :: u))), List.getLast?_map, hlast]
    rfl
  have hafter : afterBrace (brace ++ (word ++ (w ++ '(' :: u))) = word ++ (w ++ '(' :: u) :=
    hbrace.afterBrace_append (by rw [hc]; rfl) hletter
  refine ⟨?_, splitCaseLabel_of_controlWord hbrace hword _, ?_, ⟨')', hlast, Or.inl rfl⟩,
    ⟨c, _, by rw [hafter, hc]; rfl, hletter⟩, ?_⟩
  · rw [splitControlHeader_parens hbrace hword hw, hagain, Option.map_some, splitTrimmed,
      List.length_nil, Nat.sub_zero, List.take_length, List.drop_length, htrim]
    rfl
  · have hparen : Unquoted ((brace ++ (word ++ w)) ++ ['(']) := hunquoted.append (by decide)
    rw [hassoc, List.append_cons, modeAfter_append, read_unquoted hparen, hmode]
  · rw [hafter, Reaches, walk?_solidKinds, ← List.append_assoc, hbody hwordy.unquoted,
      Place.walk?_append, hwordy.walk?, Option.bind_some, Place.walk?_cons]
    exact hwalk _ rfl

/-- A header that is a control word alone. -/
theorem heading_word {brace word : Text} (hbrace : Braced brace) (hword : ControlWord word false) :
    Heading (brace ++ word) := by
  obtain ⟨c, t, hc, hletter⟩ := hword.head
  obtain ⟨t', d, hd, hletter'⟩ := hword.last
  have hclass : ∀ {x : Text}, Unquoted x → classify x = x.map fun c => (c, .code) := fun hx => by
    have happ := classify_append_unquoted hx []
    rw [List.append_nil] at happ
    exact happ.trans (List.append_nil _)
  have hunquoted : Unquoted (brace ++ word) := hbrace.unquoted.append hword.wordy.unquoted
  have hlast : (brace ++ word).getLast? = some d := by
    rw [hd, ← List.append_assoc, List.getLast?_concat]
  have hnil : brace ++ word = brace ++ (word ++ []) := by rw [List.append_nil]
  have hafter : afterBrace (brace ++ word) = word := hbrace.afterBrace_append hc hletter
  refine ⟨?_, ?_, read_unquoted hunquoted none, ⟨d, ?_, Or.inr hletter'⟩,
    ⟨c, t, by rw [hafter, hc], hletter⟩, ?_⟩
  · rw [splitControlHeader_word hbrace hword rfl,
      trimRight_of_getLast? hlast (solid_of_isWord hletter')]
  · rw [hnil]
    exact splitCaseLabel_of_controlWord hbrace hword []
  · rw [hclass hunquoted, List.getLast?_map, hlast]
    rfl
  · rw [hafter, Reaches, walk?_solidKinds, hclass hword.wordy.unquoted]
    exact hword.wordy.walk?

/-- The header that is split off is a header with nothing after it. -/
theorem exists_heading {code head tail : Text} (h : splitControlHeader code = some (head, tail)) :
    ∃ v, code = head ++ v ∧ tail = v.trim ∧ Heading head ∧ WordsApart head v := by
  obtain ⟨brace, hbrace, hcode⟩ := exists_braced code
  have hfound := h
  rw [splitControlHeader_eq, Option.bind_eq_some_iff] at hfound
  obtain ⟨⟨needs, rest⟩, hword, hfound⟩ := hfound
  obtain ⟨word, hword, hrest, hend⟩ := exists_controlWord hword
  rw [hrest] at hcode
  by_cases hparen : rest.trimLeft.head? = some '('
  · obtain ⟨w, hw, hrest'⟩ := exists_blank_trimLeft rest
    obtain ⟨t', ht'⟩ := List.head?_eq_some_iff.mp hparen
    rw [ht'] at hrest'
    rw [hcode, hrest', splitControlHeader_parens hbrace hword hw, Option.map_eq_some_iff] at h
    obtain ⟨l, hl, hsplit⟩ := h
    obtain ⟨l₁, hl₁, hagain, hwalk⟩ := afterParens?_walk hl
    obtain ⟨u, v, rfl, hu, hv, hmode, _⟩ := exists_classify_parts hl₁ (by decide)
    have hheading := heading_parens hbrace hword hw hu hmode (by rw [hu]; exact hagain)
      (by rw [hu]; exact hwalk)
    have hparts : brace ++ (word ++ (w ++ '(' :: (u ++ v))) =
        brace ++ (word ++ (w ++ '(' :: u)) ++ v := by simp
    have hlen : l.length = v.length := by rw [← hv, length_classify]
    rw [hparts, splitTrimmed_append (by rw [hlen, List.length_append, Nat.add_sub_cancel]),
      trimRight_of_last hheading.solid_last, Prod.mk.injEq] at hsplit
    obtain ⟨rfl, rfl⟩ := hsplit
    refine ⟨v, by rw [hcode, hrest', hparts], rfl, hheading, Or.inr fun c hc => ?_⟩
    have hend' : (brace ++ (word ++ (w ++ '(' :: u))).getLast? = some ')' := by
      have hu' : u.getLast? = some ')' := by
        rw [← map_fst_classify u, hu, List.map_append, List.map_singleton, List.getLast?_concat]
      rw [show brace ++ (word ++ (w ++ '(' :: u)) = (brace ++ (word ++ (w ++ ['(']))) ++ u by simp,
        List.getLast?_append, hu']
      rfl
    rw [hend', Option.mem_some_iff] at hc
    exact hc ▸ by decide +kernel
  · simp only [hparen, if_false] at hfound
    split at hfound
    · exact absurd hfound (by simp)
    · next hneeds =>
      rw [Bool.not_eq_true] at hneeds
      subst hneeds
      have hheading := heading_word hbrace hword
      have hparts : code = (brace ++ word) ++ rest := by rw [hcode, List.append_assoc]
      rw [hparts, splitTrimmed_append (by rw [List.length_append, Nat.add_sub_cancel]),
        trimRight_of_last hheading.solid_last, Option.some.injEq, Prod.mk.injEq] at hfound
      obtain ⟨rfl, rfl⟩ := hfound
      exact ⟨rest, hparts, rfl, hheading, Or.inl hend⟩

/-! ### Labels -/

/-- The colon of a label is found again where the text ends with it. -/
theorem labelLength?_take : ∀ {before : Option Char} {l : List (Char × CharKind)} {n : Nat},
    labelLength? before l = some n → 0 < n ∧ labelLength? before (l.take n) = some n
  | _, [], _, h => by simp [labelLength?] at h
  | before, (c, kind) :: l, n, h => by
    rw [labelLength?] at h
    split at h
    · next hc =>
      obtain rfl : 1 = n := Option.some.inj h
      refine ⟨Nat.one_pos, ?_⟩
      rw [List.take_succ_cons, List.take_zero, labelLength?, if_pos (by simp [hc])]
    · next hc =>
      obtain ⟨k, hk, rfl⟩ := Option.map_eq_some_iff.mp h
      obtain ⟨hpos, htake⟩ := labelLength?_take hk
      have hhead : (l.take k).head? = l.head? := by
        rw [List.head?_take, if_neg (by omega)]
      refine ⟨Nat.succ_pos k, ?_⟩
      rw [List.take_succ_cons, labelLength?, hhead, if_neg hc, htake]
      rfl

/-- Whether a text begins with a label shows at the first colon. -/
theorem isCaseLabel_of_append {u v : Text} (hu : u.getLast? = some ':')
    (h : isCaseLabel (u ++ v) = true) : isCaseLabel u = true := by
  have hne : u ≠ [] := by
    rintro rfl
    simp at hu
  have hcolon : isWord ':' = false := by decide +kernel
  rw [isCaseLabel, Bool.or_eq_true] at h ⊢
  rcases h with h | h
  · left
    have hapart : WordsApart u v := Or.inr fun c hc => by
      rw [hu, Option.mem_some_iff] at hc
      exact hc ▸ hcolon
    rwa [isSome_afterWord?_append (List.all_eq_true.mp (by decide +kernel)) (by decide) hne hapart] at h
  · right
    cases hdefault : after? "default".toList (u ++ v) with
    | none =>
      rw [hdefault] at h
      exact absurd h (by simp)
    | some rest =>
      rw [hdefault] at h
      have hhead : rest.trimLeft.head? = some ':' := by simpa using h
      obtain ⟨w, hw, hrest⟩ := exists_blank_trimLeft rest
      obtain ⟨t, ht⟩ := List.head?_eq_some_iff.mp hhead
      have hparts := eq_append_of_after? hdefault
      rw [hrest, ht, ← List.append_assoc] at hparts
      -- the colon at the end of `u` is not before the first one
      have hno : ':' ∉ "default".toList ++ w := by
        rw [List.mem_append, not_or]
        exact ⟨by decide, fun hm => absurd (hw _ hm) (by decide)⟩
      have hmem : ':' ∈ u := List.mem_of_getLast? hu
      rcases List.append_eq_append_iff.mp hparts with ⟨a, ha, _⟩ | ⟨a, ha, hv⟩
      · exact absurd (by rw [ha]; exact List.mem_append_left _ hmem) hno
      · cases a with
        | nil =>
          rw [List.append_nil] at ha
          exact absurd (ha ▸ hmem) hno
        | cons c a =>
          rw [List.cons_append, List.cons.injEq] at hv
          obtain ⟨rfl, _⟩ := hv
          rw [ha, List.append_assoc, after?_append]
          simp only [trimLeft_blank_append hw, trimLeft_of_solid_head (c := ':') (by decide)]
          rfl

/-- A label with nothing after it. -/
structure Labelling (head : Text) : Prop where
  again : splitCaseLabel head = some (head, [])
  mode : modeAfter .code none head = .code
  last : (classify head).getLast? = some (':', .code)

/-- The label that is split off is a label with nothing after it. -/
theorem exists_labelling {code head tail : Text} (htight : Tight code)
    (h : splitCaseLabel code = some (head, tail)) :
    ∃ v, code = head ++ v ∧ tail = v.trim ∧ Labelling head := by
  rw [splitCaseLabel] at h
  split at h
  · next hlabel =>
    obtain ⟨n, hn, hsplit⟩ := Option.map_eq_some_iff.mp h
    obtain ⟨l₁, l₂, hl, hlen⟩ := labelLength?_spec hn
    obtain ⟨u, v, rfl, hu, hv, hmode, hapart⟩ := exists_classify_parts hl (by decide)
    have hlen' : u.length = n := by rw [← length_classify, hu, hlen, List.length_append]; rfl
    have hlast : (classify u).getLast? = some (':', .code) := by rw [hu, List.getLast?_concat]
    have hcolon : u.getLast? = some ':' := by
      rw [← map_fst_classify u, List.getLast?_map, hlast]
      rfl
    have htrim : u.trim = u := by
      refine Tight.trim_eq ⟨htight.head_of_append, fun c hc => ?_⟩
      rw [hcolon, Option.mem_some_iff] at hc
      exact hc ▸ by decide
    have hagain : labelLength? none (classify u) = some n := by
      have htake := (labelLength?_take hn).2
      rw [classify_append (sealed_of_apart hmode hapart), ← hlen', ← length_classify,
        List.take_left, length_classify, hlen'] at htake
      exact htake
    rw [← hlen', List.take_left, List.drop_left, htrim, Prod.mk.injEq] at hsplit
    obtain ⟨rfl, rfl⟩ := hsplit
    refine ⟨v, rfl, rfl, ?_, hmode, hlast⟩
    rw [splitCaseLabel, if_pos (isCaseLabel_of_append hcolon hlabel), hagain, Option.map_some,
      ← hlen', List.take_length, List.drop_length, htrim]
    rfl
  · exact absurd h (by simp)

end JspLayout.Java
