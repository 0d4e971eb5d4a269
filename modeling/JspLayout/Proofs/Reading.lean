import JspLayout.Proofs.Lexing

/-! Lexing a text line by line.

    Where every literal is closed on its line, a text can be read one line at a time: the lexer
    starts a line in code or inside a block comment, and blanks around the line play no part. `Reads`
    relates lines to what is read from them, and two lists of lines are interchangeable when all that
    is read from the first is read from the second. -/

namespace JspLayout.Java

open Text

/-! ### Literals -/

/-- Whether every literal of a text read from mode `m` is closed before a line feed and before the
    end. -/
def closesLiterals (m : Mode) : Text → Bool
  | [] => !m.inLiteral
  | c :: s => !(m.inLiteral && c == '\n') && closesLiterals (m.step c s.head?).2 s

/-- The rest of the literal that is open in mode `m`, and the literals after it, quotes included. -/
def literalsFrom (m : Mode) : Text → Text × List Text
  | [] => ([], [])
  | c :: s =>
    let (kind, m') := m.step c s.head?
    let (rest, later) := literalsFrom m' s
    if kind = .literal then
      if m = .code then ([], (c :: rest) :: later) else (c :: rest, later)
    else (rest, later)

/-- The literals of a text, quotes included. -/
def literals (s : Text) : List Text := (literalsFrom .code s).2

/-- The characters of a text that are not blank, each with its kind. -/
def solidKinds (s : Text) : List (Char × CharKind) := (classify s).filter fun x => !isBlank x.1

/-- The braces of a text are found among its characters with their kinds, blanks apart. -/
theorem countBraces_eq (s : Text) : countBraces s =
    ((solidKinds s).count ('{', .code), (solidKinds s).count ('}', .code)) := by
  have hcount : ∀ {b : Char} (_ : isBlank b = false) (l : List (Char × CharKind)),
      (l.filterMap fun x => if x.2 = .code then some x.1 else none).count b =
        (l.filter fun x => !isBlank x.1).count (b, .code) := by
    intro b hb l
    rw [List.count_filter (by simp [hb])]
    induction l with
    | nil => rfl
    | cons x l ih =>
      obtain ⟨c, kind⟩ := x
      cases kind <;> simp [List.count_cons, ih]
  have hcode : codeOf s = (classify s).filterMap fun x => if x.2 = .code then some x.1 else none := rfl
  rw [countBraces, hcode, solidKinds, hcount (by decide), hcount (by decide)]

/-- The literals in the essence of a text. -/
def gather : List (Char × CharKind × Bool) → Text × List Text
  | [] => ([], [])
  | (c, kind, opens) :: l =>
    if kind = .literal then
      if opens then ([], (c :: (gather l).1) :: (gather l).2) else (c :: (gather l).1, (gather l).2)
    else gather l

theorem literalsFrom_eq_gather (m : Mode) (s : Text) :
    literalsFrom m s = gather (essence m none s) := by
  induction s generalizing m with
  | nil => rfl
  | cons c s ih =>
    rw [literalsFrom, essence_cons, Option.or_none]
    simp only [ih]
    generalize essence (m.step c s.head?).2 none s = l
    generalize (m.step c s.head?).1 = kind
    by_cases hk : kind = .literal
    · simp [hk, essential_literal, gather]
    · rw [essential_of_ne hk]
      by_cases hb : isBlank c = true <;> simp [gather, hb, hk]

theorem filter_classifyFrom_eq_essence (m : Mode) (s : Text) :
    (classifyFrom m s).filter (fun x => !isBlank x.1) =
      ((essence m none s).filter fun x => !isBlank x.1).map fun x => (x.1, x.2.1) := by
  rw [classifyFrom_eq_trace, essence]
  induction trace m none s with
  | nil => rfl
  | cons x l ih =>
    obtain ⟨c, m, kind⟩ := x
    by_cases hk : kind = .literal
    · by_cases hb : isBlank c = true <;> simp [hk, essential_literal, hb, ih]
    · by_cases hb : isBlank c = true <;> simp [essential_of_ne hk, hb, ih]

theorem solidKinds_eq_essence (s : Text) : solidKinds s =
    ((essence .code none s).filter fun x => !isBlank x.1).map fun x => (x.1, x.2.1) :=
  filter_classifyFrom_eq_essence .code s

/-- What is read as the same has the same kinds and the same literals. -/
theorem kinds_eq_of_essence_eq {s t : Text} (h : essence .code none s = essence .code none t) :
    solidKinds s = solidKinds t ∧ literals s = literals t := by
  rw [solidKinds_eq_essence, solidKinds_eq_essence, literals, literals, literalsFrom_eq_gather,
    literalsFrom_eq_gather, h]
  exact ⟨rfl, rfl⟩

/-! ### The kinds of what is not blank -/

theorem solidKinds_append {u v : Text} (h : Sealed u v.head?) :
    solidKinds (u ++ v) = solidKinds u ++ solidKinds v := by
  rw [solidKinds, classify_append h, List.filter_append]
  rfl

theorem filter_classifyFrom_blank {w : Text} (hw : Blank w) (m : Mode) :
    ((classifyFrom m w).filter fun x => !isBlank x.1) = [] := by
  refine List.filter_eq_nil_iff.mpr fun x hx => ?_
  have hmem : x.1 ∈ (classifyFrom m w).map Prod.fst := List.mem_map_of_mem hx
  rw [map_fst_classifyFrom] at hmem
  simp [hw x.1 hmem]

theorem solidKinds_blank {w : Text} (hw : Blank w) : solidKinds w = [] :=
  filter_classifyFrom_blank hw .code

theorem sealed_blank {w : Text} (hw : Blank w) (next : Option Char) : Sealed w next := by
  refine sealed_of_apart (read_blank rests_code hw none).1 (Or.inr ?_)
  cases hlast : w.getLast? with
  | none => exact plain_none
  | some c => exact plain_of_isBlank (hw c (List.mem_of_getLast? hlast))

theorem solidKinds_blank_append {w : Text} (hw : Blank w) (s : Text) :
    solidKinds (w ++ s) = solidKinds s := by
  rw [solidKinds_append (sealed_blank hw _), solidKinds_blank hw, List.nil_append]

theorem solidKinds_append_blank {w : Text} (hw : Blank w) (s : Text) :
    solidKinds (s ++ w) = solidKinds s := by
  have hapart : Apart s (w.head?.or none) := Or.inl (plain_head?_of_blank hw)
  rw [solidKinds, classify, classifyFrom_eq_trace, trace_append, (trace_eq_of_apart hapart .code).1,
    List.map_append, List.filter_append, ← classifyFrom_eq_trace, ← classifyFrom_eq_trace,
    filter_classifyFrom_blank hw, List.append_nil]
  rfl

theorem solidKinds_trimLeft (s : Text) : solidKinds s.trimLeft = solidKinds s := by
  obtain ⟨w, hw, hs⟩ := exists_blank_trimLeft s
  rw [← solidKinds_blank_append hw, ← hs]

theorem solidKinds_trimRight (s : Text) : solidKinds s.trimRight = solidKinds s := by
  obtain ⟨w, hw, hs⟩ := exists_blank_trimRight s
  rw [← solidKinds_append_blank hw, ← hs]

@[simp] theorem solidKinds_trim (s : Text) : solidKinds s.trim = solidKinds s := by
  rw [trim, solidKinds_trimRight, solidKinds_trimLeft]

/-! ### Lines -/

/-- The mode at the start of a line, where `m` is that at the end of the line before. -/
def Mode.nextLine (m : Mode) : Mode := (m.step '\n' none).2

/-- From mode `m`, lines that close their literals are read as `e` and leave the lexer in mode `m'` at
    the start of the next line. -/
inductive Reads : Mode → List Text → List (Char × CharKind × Bool) → Mode → Prop
  | nil (m : Mode) : Reads m [] [] m
  | cons {m m' : Mode} {l : Text} {ls : List Text} {e : List (Char × CharKind × Bool)} :
      (modeAfter m none l).inLiteral = false → Reads (modeAfter m none l).nextLine ls e m' →
        Reads m (l :: ls) (essence m none l ++ e) m'

/-- All that is read from `ls` is read from `ls'`. -/
def ReadsAs (m : Mode) (ls ls' : List Text) : Prop :=
  ∀ (e : List (Char × CharKind × Bool)) (m' : Mode), Reads m ls e m' → Reads m ls' e m'

variable {m m' : Mode} {e : List (Char × CharKind × Bool)}

theorem rests_nextLine (hm : m.Meets none) (hl : m.inLiteral = false) : m.nextLine.Rests := by
  cases m with
  | code => exact Or.inl rfl
  | literal q escaped => exact absurd hl (by simp [Mode.inLiteral])
  | lineComment => exact Or.inl rfl
  | commentStart => exact absurd (hm.opening rfl) (by simp)
  | blockComment => exact Or.inr rfl
  | commentEnd => exact absurd (hm.closing rfl) (by simp)

theorem Mode.Rests.nextLine_eq (h : m.Rests) : m.nextLine = m := by
  rcases h with rfl | rfl <;> rfl

/-- Outside literals a line feed is not read as anything. -/
theorem essential_feed (hl : m.inLiteral = false) :
    essential ('\n', m, (m.step '\n' none).1) = none := by
  cases m with
  | literal q escaped => exact absurd hl (by simp [Mode.inLiteral])
  | _ => rfl

/-- The lexer rests at the start of every line. -/
theorem Reads.rests {ls : List Text} (h : Reads m ls e m') (hm : m.Rests) : m'.Rests := by
  induction h with
  | nil => exact hm
  | cons hl _ ih => exact ih (rests_nextLine (hm.meets _).modeAfter hl)

theorem Reads.append {a b : List Text} {m₁ : Mode} {e' : List (Char × CharKind × Bool)}
    (h : Reads m a e m₁) (h' : Reads m₁ b e' m') : Reads m (a ++ b) (e ++ e') m' := by
  induction h with
  | nil => exact h'
  | cons hl _ ih => rw [List.append_assoc]; exact .cons hl (ih h')

theorem Reads.of_append : ∀ {a b : List Text} {m : Mode} {e : List (Char × CharKind × Bool)},
    Reads m (a ++ b) e m' → ∃ e₁ e₂ m₁, e = e₁ ++ e₂ ∧ Reads m a e₁ m₁ ∧ Reads m₁ b e₂ m'
  | [], _, _, _, h => ⟨_, _, _, rfl, .nil _, h⟩
  | l :: a, _, _, _, .cons hl h => by
    obtain ⟨e₁, e₂, m₁, rfl, h₁, h₂⟩ := Reads.of_append h
    exact ⟨_, e₂, m₁, (List.append_assoc ..).symm, .cons hl h₁, h₂⟩

theorem reads_singleton {l : Text} : Reads m [l] e m' ↔ (modeAfter m none l).inLiteral = false ∧
    e = essence m none l ∧ m' = (modeAfter m none l).nextLine := by
  constructor
  · rintro (_ | ⟨hl, h⟩)
    cases h
    exact ⟨hl, List.append_nil _, rfl⟩
  · rintro ⟨hl, rfl, rfl⟩
    have := Reads.cons (l := l) hl (.nil _)
    rwa [List.append_nil] at this

theorem apart_feed (l s : Text) : Apart l ('\n' :: s).head? := Or.inl (by simp [Plain])

/-- A line feed takes the lexer to the next line. -/
theorem modeAfter_feed (m : Mode) (s : Text) :
    modeAfter m none ('\n' :: s) = modeAfter m.nextLine none s := by
  rw [modeAfter, step_eq_of_plain (by simp [Plain]), Mode.nextLine]

/-- What lines are read as is what the text they make up is read as. -/
theorem Reads.essence_unlines {ls : List Text} (h : Reads m ls e m') :
    essence m none (unlines ls) = e := by
  induction h with
  | nil => rfl
  | @cons m m' l ls e hl h ih =>
    cases ls with
    | nil => cases h; simp [unlines]
    | cons l' ls =>
      rw [unlines_cons _ (by simp), essence_append_apart (apart_feed _ _), essence_cons,
        step_eq_of_plain (by simp [Plain]), essential_feed hl, ← Mode.nextLine, ih]
      rfl

/-- A line after others is read from the mode that they leave. -/
theorem Reads.modeAfter_unlines {ls : List Text} (h : Reads m ls e m') (l : Text) :
    Java.modeAfter m none (unlines (ls ++ [l])) = Java.modeAfter m' none l := by
  induction h with
  | nil => rfl
  | cons _ _ ih =>
    rw [List.cons_append, unlines_cons _ (by simp), modeAfter_append_apart (apart_feed _ _),
      modeAfter_feed, ih]

/-- The lines of a text that closes its literals are read as the text. -/
theorem exists_reads_lines {s : Text} (h : closesLiterals m s = true) :
    ∃ e m', Reads m s.lines e m' := by
  induction s generalizing m with
  | nil =>
    have hl : m.inLiteral = false := by simpa [closesLiterals] using h
    exact ⟨_, _, .cons hl (.nil _)⟩
  | cons c s ih =>
    rw [closesLiterals, Bool.and_eq_true] at h
    obtain ⟨hc, hs⟩ := h
    obtain ⟨e, m', hr⟩ := ih hs
    rw [lines]
    split
    · next hfeed =>
      have hl : m.inLiteral = false := by simpa [hfeed] using hc
      rw [hfeed, step_eq_of_plain (by simp [Plain]), ← Mode.nextLine] at hr
      exact ⟨_, _, .cons hl hr⟩
    · cases hls : lines s with
      | nil => exact absurd hls (lines_ne_nil s)
      | cons l ls =>
        rw [hls] at hr
        cases hr with
        | cons hl hr =>
          have hstep : m.step c s.head? = m.step c (l.head?.or none) := by
            -- the line ends where the text does, or before a line feed
            have hs := unlines_lines s
            rw [hls] at hs
            cases l with
            | cons d l => cases ls <;> simp [← hs, unlines]
            | nil =>
              refine step_eq_of_plain_next ?_ m c
              cases ls <;> simp [← hs, unlines, Plain]
          rw [hstep] at hl hr
          exact ⟨_, _, .cons hl hr⟩

/-! ### Interchangeable lines -/

theorem ReadsAs.refl (m : Mode) (ls : List Text) : ReadsAs m ls ls := fun _ _ => id

theorem ReadsAs.trans {ls₁ ls₂ ls₃ : List Text} (h₁ : ReadsAs m ls₁ ls₂) (h₂ : ReadsAs m ls₂ ls₃) :
    ReadsAs m ls₁ ls₃ := fun _ _ h => h₂ _ _ (h₁ _ _ h)

theorem ReadsAs.append {a b a' b' : List Text} (ha : ReadsAs m a a')
    (hb : ∀ {e m₁}, Reads m a e m₁ → ReadsAs m₁ b b') : ReadsAs m (a ++ b) (a' ++ b') := by
  intro e m' h
  obtain ⟨e₁, e₂, m₁, rfl, hr₁, hr₂⟩ := h.of_append
  exact (ha _ _ hr₁).append (hb hr₁ _ _ hr₂)

theorem ReadsAs.cons {l l' : Text} {ls ls' : List Text} (hl : ReadsAs m [l] [l'])
    (hls : ∀ {e m₁}, Reads m [l] e m₁ → ReadsAs m₁ ls ls') : ReadsAs m (l :: ls) (l' :: ls') :=
  ReadsAs.append hl hls

/-- Lines that the lexer reads to the same mode are interchangeable. -/
theorem readsAs_of_read_eq {l l' : Text} (h : (modeAfter m none l).inLiteral = false →
    modeAfter m none l' = modeAfter m none l ∧ essence m none l' = essence m none l) :
    ReadsAs m [l] [l'] := by
  intro e m' hr
  obtain ⟨hl, rfl, rfl⟩ := reads_singleton.mp hr
  obtain ⟨hmode, hess⟩ := h hl
  exact reads_singleton.mpr ⟨hmode ▸ hl, hess.symm, by rw [hmode]⟩

theorem readsAs_trim (hm : m.Rests) {l : Text} (hf : '\n' ∉ l) : ReadsAs m [l] [l.trim] :=
  readsAs_of_read_eq fun hl => read_trim hm hf hl

theorem readsAs_trimRight (hm : m.Rests) {l : Text} (hf : '\n' ∉ l) : ReadsAs m [l] [l.trimRight] :=
  readsAs_of_read_eq fun hl => read_trimRight hm hf hl

theorem readsAs_blank_append (hm : m.Rests) {w : Text} (hw : Blank w) (l : Text) :
    ReadsAs m [l] [w ++ l] :=
  readsAs_of_read_eq fun _ => read_blank_append hm hw l

/-- A blank line is not read as anything. -/
theorem readsAs_nil (hm : m.Rests) {w : Text} (hw : Blank w) : ReadsAs m [w] [] := by
  intro e m' hr
  obtain ⟨_, rfl, rfl⟩ := reads_singleton.mp hr
  rw [(read_blank hm hw none).1, (read_blank hm hw none).2, hm.nextLine_eq]
  exact .nil m

/-- A line can be broken where the lexer is in code. -/
theorem readsAs_break {u v : Text} (h : Sealed u v.head?) : ReadsAs .code [u ++ v] [u, v] := by
  intro e m' hr
  obtain ⟨hl, rfl, rfl⟩ := reads_singleton.mp hr
  obtain ⟨hmode, hess⟩ := h.read_append
  rw [hmode] at hl ⊢
  rw [hess]
  refine .cons (by rw [h.2.1]; rfl) ?_
  rw [h.2.1]
  exact reads_singleton.mpr ⟨hl, rfl, rfl⟩

/-- A line can be put after another that the lexer rests at the end of. -/
theorem readsAs_join {u v : Text} (h : (modeAfter m none u).inLiteral = false →
    (modeAfter m none u).Rests) : ReadsAs m [u, v] [u ++ ' ' :: v] := by
  rintro e m' (_ | ⟨hl, hr⟩)
  obtain ⟨hl', rfl, rfl⟩ := reads_singleton.mp hr
  have hrest := h hl
  rw [hrest.nextLine_eq] at hl' ⊢
  have hapart : Apart u (' ' :: v).head? := Or.inl (by simp [Plain])
  obtain ⟨hmode, hess⟩ := read_blank_append hrest (Blank.cons (by decide) blank_nil) v (w := [' '])
  refine reads_singleton.mpr ?_
  rw [modeAfter_append_apart hapart, essence_append_apart hapart]
  exact ⟨by rwa [← hmode] at hl', congrArg _ hess.symm, congrArg Mode.nextLine hmode.symm⟩

end JspLayout.Java
