import JspLayout.Proofs.Spacing
import JspLayout.Java.Lexeme

/-! Lexing a text in parts.

    The lexer looks one character ahead, so what a part of a text is read as depends on the character
    that follows the part, and on it alone. Where that character is neither a slash nor a star, or
    the part ends in neither, the part is read as if it stood alone. The *essence* of a text is what
    a layout has to keep of it: every character that is not blank with its kind, and the characters
    of every literal, blank or not, with where each literal opens. -/

namespace JspLayout.Java

open Text

/-- Whether the lexer is inside a literal. -/
def Mode.inLiteral : Mode → Bool
  | .literal _ _ => true
  | _ => false

/-- The mode after a text that is read from mode `m` and followed by `next`. -/
def modeAfter (m : Mode) (next : Option Char) : Text → Mode
  | [] => m
  | c :: s => modeAfter (m.step c (s.head?.or next)).2 next s

/-- The characters of a text read from mode `m` and followed by `next`, each with the mode before it
    and its kind. -/
def trace (m : Mode) (next : Option Char) : Text → List (Char × Mode × CharKind)
  | [] => []
  | c :: s =>
    let (kind, m') := m.step c (s.head?.or next)
    (c, m, kind) :: trace m' next s

/-- What a layout keeps of a character: all of a literal, with whether it opens one, and of the rest
    what is not blank. -/
def essential : Char × Mode × CharKind → Option (Char × CharKind × Bool)
  | (c, m, .literal) => some (c, .literal, m == .code)
  | (c, _, kind) => if isBlank c then none else some (c, kind, false)

theorem essential_literal (c : Char) (m : Mode) :
    essential (c, m, .literal) = some (c, .literal, m == .code) := rfl

theorem essential_of_ne {kind : CharKind} (h : kind ≠ .literal) (c : Char) (m : Mode) :
    essential (c, m, kind) = if isBlank c then none else some (c, kind, false) := by
  cases kind with
  | literal => exact absurd rfl h
  | code => rfl
  | comment => rfl

/-- What a layout keeps of a text. -/
def essence (m : Mode) (next : Option Char) (s : Text) : List (Char × CharKind × Bool) :=
  (trace m next s).filterMap essential

/-! ### Parts of a text -/

theorem head?_or_append (s t : Text) (next : Option Char) :
    (s ++ t).head?.or next = s.head?.or (t.head?.or next) := by
  cases s <;> simp

theorem modeAfter_append (m : Mode) (next : Option Char) (s t : Text) :
    modeAfter m next (s ++ t) = modeAfter (modeAfter m (t.head?.or next) s) next t := by
  induction s generalizing m with
  | nil => rfl
  | cons c s ih => rw [List.cons_append, modeAfter, ih, modeAfter, head?_or_append]

theorem trace_append (m : Mode) (next : Option Char) (s t : Text) :
    trace m next (s ++ t) =
      trace m (t.head?.or next) s ++ trace (modeAfter m (t.head?.or next) s) next t := by
  induction s generalizing m with
  | nil => rfl
  | cons c s ih =>
    rw [List.cons_append, trace, trace, modeAfter, head?_or_append]
    exact congrArg _ (ih _)

theorem essence_append (m : Mode) (next : Option Char) (s t : Text) :
    essence m next (s ++ t) =
      essence m (t.head?.or next) s ++ essence (modeAfter m (t.head?.or next) s) next t := by
  rw [essence, trace_append, List.filterMap_append]
  rfl

theorem essence_cons (m : Mode) (next : Option Char) (c : Char) (s : Text) :
    essence m next (c :: s) =
      (essential (c, m, (m.step c (s.head?.or next)).1)).toList ++
        essence (m.step c (s.head?.or next)).2 next s := by
  rw [essence, trace, List.filterMap_cons]
  cases essential (c, m, (m.step c (s.head?.or next)).1) <;> rfl

theorem length_trace (m : Mode) (next : Option Char) (s : Text) :
    (trace m next s).length = s.length := by
  induction s generalizing m with
  | nil => rfl
  | cons c s ih => rw [trace, List.length_cons, List.length_cons, ih]

theorem classifyFrom_eq_trace (m : Mode) (s : Text) :
    classifyFrom m s = (trace m none s).map fun x => (x.1, x.2.2) := by
  induction s generalizing m with
  | nil => rfl
  | cons c s ih =>
    rw [classifyFrom, trace, Option.or_none, List.map_cons]
    exact congrArg _ (ih _)

theorem map_fst_classifyFrom (m : Mode) (s : Text) : (classifyFrom m s).map Prod.fst = s := by
  induction s generalizing m with
  | nil => rfl
  | cons c s ih => rw [classifyFrom, List.map_cons]; exact congrArg _ (ih _)

theorem map_fst_classify (s : Text) : (classify s).map Prod.fst = s := map_fst_classifyFrom .code s

theorem length_classify (s : Text) : (classify s).length = s.length := by
  rw [classify, classifyFrom_eq_trace, List.length_map, length_trace]

/-! ### Looking ahead -/

/-- A character that the lexer does not look ahead for. -/
def Plain (next : Option Char) : Prop := next ≠ some '/' ∧ next ≠ some '*'

instance (next : Option Char) : Decidable (Plain next) :=
  inferInstanceAs (Decidable (next ≠ some '/' ∧ next ≠ some '*'))

/-- A text that is read the same whether `next` or nothing follows it. -/
def Apart (s : Text) (next : Option Char) : Prop := Plain next ∨ Plain s.getLast?

theorem plain_none : Plain none := by simp [Plain]

theorem plain_of_isBlank {c : Char} (h : isBlank c = true) : Plain (some c) := by
  constructor <;> (intro he; rw [Option.some.injEq] at he; subst he; exact absurd h (by decide))

theorem plain_head?_of_blank {w : Text} (hw : Blank w) : Plain (w.head?.or none) := by
  cases w with
  | nil => exact plain_none
  | cons c w => exact plain_of_isBlank (hw c List.mem_cons_self)

theorem step_eq_of_plain_next {next : Option Char} (h : Plain next) (m : Mode) (c : Char) :
    m.step c next = m.step c none := by
  cases m <;> simp [Mode.step, h.1, h.2]

theorem step_eq_of_plain {c : Char} (h : Plain (some c)) (m : Mode) (next : Option Char) :
    m.step c next = m.step c none := by
  have h1 : c ≠ '/' := fun he => h.1 (congrArg some he)
  have h2 : c ≠ '*' := fun he => h.2 (congrArg some he)
  cases m <;> simp [Mode.step, h1, h2]

/-- The one place where a text looks at what follows it is its last character. -/
theorem trace_eq_of_apart {s : Text} {next : Option Char} (h : Apart s next) (m : Mode) :
    trace m next s = trace m none s ∧ modeAfter m next s = modeAfter m none s := by
  induction s generalizing m with
  | nil => exact ⟨rfl, rfl⟩
  | cons c s ih =>
    have hstep : m.step c (s.head?.or next) = m.step c (s.head?.or none) := by
      cases s with
      | cons d s => rfl
      | nil =>
        rcases h with h | h
        · exact step_eq_of_plain_next h m c
        · exact step_eq_of_plain h m next
    have hs : Apart s next := by
      cases s with
      | nil => exact Or.inr plain_none
      | cons d s => exact h.imp_right fun h => by rwa [List.getLast?_cons_cons] at h
    rw [trace, trace, modeAfter, modeAfter, hstep]
    exact ⟨congrArg _ (ih hs _).1, (ih hs _).2⟩

theorem essence_eq_of_apart {s : Text} {next : Option Char} (h : Apart s next) (m : Mode) :
    essence m next s = essence m none s := by
  rw [essence, (trace_eq_of_apart h m).1, essence]

/-- Two parts that are read apart. -/
theorem modeAfter_append_apart {s t : Text} (h : Apart s t.head?) (m : Mode) :
    modeAfter m none (s ++ t) = modeAfter (modeAfter m none s) none t := by
  rw [modeAfter_append, Option.or_none, (trace_eq_of_apart h m).2]

theorem essence_append_apart {s t : Text} (h : Apart s t.head?) (m : Mode) :
    essence m none (s ++ t) = essence m none s ++ essence (modeAfter m none s) none t := by
  rw [essence_append, Option.or_none, essence_eq_of_apart h, (trace_eq_of_apart h m).2]

/-- A text that is read from code to code, the same whether `next` or nothing follows it. -/
def Sealed (s : Text) (next : Option Char) : Prop :=
  modeAfter .code next s = .code ∧ modeAfter .code none s = .code ∧
    trace .code next s = trace .code none s

theorem sealed_of_apart {s : Text} {next : Option Char} (hm : modeAfter .code none s = .code)
    (ha : Apart s next) : Sealed s next := by
  obtain ⟨htrace, hmode⟩ := trace_eq_of_apart ha .code
  exact ⟨hmode.trans hm, hm, htrace⟩

/-- What follows a text read from code to code is read from code. -/
theorem Sealed.read_append {s t : Text} (h : Sealed s t.head?) :
    modeAfter .code none (s ++ t) = modeAfter .code none t ∧
      essence .code none (s ++ t) = essence .code none s ++ essence .code none t := by
  obtain ⟨hmode, _, htrace⟩ := h
  rw [modeAfter_append, essence_append, Option.or_none, hmode, essence, htrace]
  exact ⟨rfl, rfl⟩

/-- Two parts that can be read apart have their kinds one after the other. -/
theorem classify_append {u v : Text} (h : Sealed u v.head?) :
    classify (u ++ v) = classify u ++ classify v := by
  obtain ⟨hmode, _, htrace⟩ := h
  rw [classify, classify, classify, classifyFrom_eq_trace, classifyFrom_eq_trace,
    classifyFrom_eq_trace, trace_append, Option.or_none, hmode, htrace, List.map_append]

/-! ### Modes -/

/-- After a character of the code the lexer is in code. -/
theorem mode_eq_code_of_kind {m : Mode} {c : Char} {next : Option Char}
    (h : (m.step c next).1 = .code) : (m.step c next).2 = .code := by
  revert h
  fun_cases Mode.step m c next <;> simp

/-- Within a line, the code is read from code alone. -/
theorem eq_code_of_kind {m : Mode} {c : Char} {next : Option Char}
    (h : (m.step c next).1 = .code) (hc : c ≠ '\n') : m = .code := by
  revert h
  fun_cases Mode.step m c next <;> simp_all

/-- A mode that the lexer can be in before `next`: a literal is inside quotes, and a delimiter of two
    characters is read to its end. -/
structure Mode.Meets (m : Mode) (next : Option Char) : Prop where
  quoted : ∀ {q escaped}, m = .literal q escaped → q = '"' ∨ q = '\''
  opening : m = .commentStart → next = some '*'
  closing : m = .commentEnd → next = some '/'

theorem Mode.Meets.step {m : Mode} {next : Option Char} (h : m.Meets next) (c : Char)
    (next' : Option Char) : (m.step c next').2.Meets next' := by
  have hq := @h.quoted
  fun_cases Mode.step m c next' <;> constructor <;> simp_all

theorem Mode.Meets.modeAfter {m : Mode} {next : Option Char} {s : Text}
    (h : m.Meets (s.head?.or next)) : (modeAfter m next s).Meets next := by
  induction s generalizing m with
  | nil => exact h
  | cons c s ih => exact ih (h.step c _)

/-! ### Blanks around a text -/

/-- A mode in which blanks have no effect, line feeds included. -/
def Mode.Rests (m : Mode) : Prop := m = .code ∨ m = .blockComment

theorem rests_code : Mode.Rests .code := Or.inl rfl

theorem Mode.Rests.meets {m : Mode} (h : m.Rests) (next : Option Char) : m.Meets next := by
  rcases h with rfl | rfl <;> constructor <;> simp

theorem ne_of_isBlank {c d : Char} (hc : isBlank c = true) (hd : isBlank d = false) : c ≠ d := by
  rintro rfl
  rw [hc] at hd
  exact absurd hd (by decide)

theorem essential_blank {c : Char} {m : Mode} {kind : CharKind} (hc : isBlank c = true)
    (hk : kind ≠ .literal) : essential (c, m, kind) = none := by
  rw [essential_of_ne hk, if_pos hc]

/-- A blank keeps the lexer where it rests and is not essential there. -/
theorem step_blank {m : Mode} (hm : m.Rests) {c : Char} (hc : isBlank c = true)
    (next : Option Char) :
    (m.step c next).2 = m ∧ essential (c, m, (m.step c next).1) = none := by
  have h1 : c ≠ '"' := ne_of_isBlank hc (by decide)
  have h2 : c ≠ '\'' := ne_of_isBlank hc (by decide)
  have h3 : c ≠ '/' := ne_of_isBlank hc (by decide)
  have h4 : c ≠ '*' := ne_of_isBlank hc (by decide)
  rcases hm with rfl | rfl
  · have hstep : Mode.step .code c next = (.code, .code) := by simp [Mode.step, h1, h2, h3]
    rw [hstep]
    exact ⟨rfl, essential_blank hc (by simp)⟩
  · have hstep : Mode.step .blockComment c next = (.comment, .blockComment) := by
      simp [Mode.step, h4]
    rw [hstep]
    exact ⟨rfl, essential_blank hc (by simp)⟩

theorem read_blank {m : Mode} (hm : m.Rests) {w : Text} (hw : Blank w) (next : Option Char) :
    modeAfter m next w = m ∧ essence m next w = [] := by
  induction w with
  | nil => exact ⟨rfl, rfl⟩
  | cons c w ih =>
    obtain ⟨hmode, hess⟩ := step_blank hm (hw c List.mem_cons_self) (w.head?.or next)
    obtain ⟨ihm, ihe⟩ := ih fun d hd => hw d (List.mem_cons_of_mem _ hd)
    rw [modeAfter, essence_cons, hmode, hess, ihm, ihe]
    exact ⟨rfl, rfl⟩

/-- A blank other than a line feed keeps the lexer inside or outside a literal. -/
theorem step_blank_end {m : Mode} (hm : m.Meets none) {c : Char} (hc : isBlank c = true)
    (hf : c ≠ '\n') (next : Option Char) :
    (m.inLiteral = true → (m.step c next).2.inLiteral = true) ∧
      (m.inLiteral = false →
        (m.step c next).2 = m ∧ essential (c, m, (m.step c next).1) = none) := by
  have h1 : c ≠ '"' := ne_of_isBlank hc (by decide)
  have h2 : c ≠ '\'' := ne_of_isBlank hc (by decide)
  have h3 : c ≠ '\\' := ne_of_isBlank hc (by decide)
  cases m with
  | code => exact ⟨by simp [Mode.inLiteral], fun _ => step_blank (Or.inl rfl) hc next⟩
  | literal q escaped =>
    refine ⟨fun _ => ?_, by simp [Mode.inLiteral]⟩
    have hq : c ≠ q := by rcases hm.quoted rfl with rfl | rfl <;> assumption
    cases escaped <;> simp [Mode.step, Mode.inLiteral, hq, hf, h3]
  | lineComment =>
    refine ⟨by simp [Mode.inLiteral], fun _ => ?_⟩
    have hstep : Mode.step .lineComment c next = (.comment, .lineComment) := by
      simp [Mode.step, hf]
    rw [hstep]
    exact ⟨rfl, essential_blank hc (by simp)⟩
  | commentStart => exact absurd (hm.opening rfl) (by simp)
  | blockComment =>
    exact ⟨by simp [Mode.inLiteral], fun _ => step_blank (Or.inr rfl) hc next⟩
  | commentEnd => exact absurd (hm.closing rfl) (by simp)

/-- Blanks at the end of a line have no effect outside literals, and do not end one. -/
theorem read_blank_end {m : Mode} (hm : m.Meets none) {w : Text} (hw : Blank w) (hf : '\n' ∉ w) :
    (m.inLiteral = true → (modeAfter m none w).inLiteral = true) ∧
      (m.inLiteral = false → modeAfter m none w = m ∧ essence m none w = []) := by
  induction w generalizing m with
  | nil => exact ⟨id, fun _ => ⟨rfl, rfl⟩⟩
  | cons c w ih =>
    obtain ⟨hc, hw⟩ := List.forall_mem_cons.mp hw
    have hfc : c ≠ '\n' := fun h => hf (h ▸ List.mem_cons_self)
    have hfw : '\n' ∉ w := fun h => hf (List.mem_cons_of_mem _ h)
    have hplain : Plain (w.head?.or none) := plain_head?_of_blank hw
    rw [modeAfter, essence_cons, step_eq_of_plain_next hplain]
    obtain ⟨hin, hout⟩ := step_blank_end hm hc hfc none
    have hm' := hm.step c none
    refine ⟨fun h => (ih hm' hw hfw).1 (hin h), fun h => ?_⟩
    rw [(hout h).1, (hout h).2]
    exact (ih hm hw hfw).2 h

/-- Blanks before a text have no effect where the lexer rests. -/
theorem read_blank_append {m : Mode} (hm : m.Rests) {w : Text} (hw : Blank w) (s : Text) :
    modeAfter m none (w ++ s) = modeAfter m none s ∧
      essence m none (w ++ s) = essence m none s := by
  rw [modeAfter_append, essence_append, (read_blank hm hw _).1, (read_blank hm hw _).2]
  exact ⟨rfl, rfl⟩

/-- Blanks after a line that ends outside a literal have no effect. -/
theorem read_append_blank {m : Mode} (hm : m.Rests) {s w : Text} (hw : Blank w) (hf : '\n' ∉ w)
    (hl : (modeAfter m none (s ++ w)).inLiteral = false) :
    modeAfter m none (s ++ w) = modeAfter m none s ∧
      essence m none (s ++ w) = essence m none s := by
  have hapart : Apart s w.head? := Or.inl (by simpa using plain_head?_of_blank hw)
  rw [modeAfter_append_apart hapart] at hl ⊢
  rw [essence_append_apart hapart]
  obtain ⟨hin, hout⟩ := read_blank_end (hm.meets _).modeAfter hw hf (m := modeAfter m none s)
  cases hs : (modeAfter m none s).inLiteral with
  | true => rw [hin hs] at hl; exact absurd hl (by simp)
  | false => rw [(hout hs).1, (hout hs).2, List.append_nil]; exact ⟨rfl, rfl⟩

/-- Trimming the end of a line that ends outside a literal keeps what it is read as. -/
theorem read_trimRight {m : Mode} (hm : m.Rests) {s : Text} (hf : '\n' ∉ s)
    (hl : (modeAfter m none s).inLiteral = false) :
    modeAfter m none s.trimRight = modeAfter m none s ∧
      essence m none s.trimRight = essence m none s := by
  obtain ⟨w, hw, hs⟩ := exists_blank_trimRight s
  have hf' : '\n' ∉ w := fun h => hf (by rw [hs]; simp [h])
  rw [hs] at hl
  obtain ⟨hmode, hess⟩ := read_append_blank hm hw hf' hl
  rw [← hs] at hmode hess
  exact ⟨hmode.symm, hess.symm⟩

/-- Trimming a line that ends outside a literal keeps what it is read as. -/
theorem read_trim {m : Mode} (hm : m.Rests) {s : Text} (hf : '\n' ∉ s)
    (hl : (modeAfter m none s).inLiteral = false) :
    modeAfter m none s.trim = modeAfter m none s ∧ essence m none s.trim = essence m none s := by
  obtain ⟨w, hw, hs⟩ := exists_blank_trimLeft s
  obtain ⟨hmode, hess⟩ := read_blank_append hm hw s.trimLeft
  rw [← hs] at hmode hess
  rw [hmode] at hl
  have hf' : '\n' ∉ s.trimLeft := fun h => hf (by rw [hs]; simp [h])
  obtain ⟨hmode', hess'⟩ := read_trimRight hm hf' hl
  exact ⟨hmode'.trans hmode.symm, hess'.trans hess.symm⟩

end JspLayout.Java
