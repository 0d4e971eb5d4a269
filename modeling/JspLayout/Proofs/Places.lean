import JspLayout.Proofs.Kinds

/-! Where a scan stands inside a fragment.

    Between two characters of a fragment the scan knows how many parentheses and braces of
    initializers are open and whether a brace would start an initializer. A *place* is that knowledge
    alone. It moves with the kinds of the characters that are not blank, and a cut is made where it
    cannot move on. -/

namespace JspLayout.Java

open Text

/-! ### Places -/

/-- How far brackets are open between two characters of a fragment. -/
structure Place where
  /-- Open parentheses. -/
  parens : Nat := 0
  /-- Open braces of an initializer. -/
  inline : Nat := 0
  /-- Whether an opening brace here starts an initializer. -/
  fills : Bool := false
  deriving DecidableEq

namespace Place

/-- The brackets that are open after the code character `c`, if no cut is made at it. -/
def bracket? (p : Place) (c : Char) : Option Place :=
  if c = '(' then some { p with parens := p.parens + 1 }
  else if c = ')' then some { p with parens := p.parens - 1 }
  else if p.parens = 0 ∧ c = '{' then
    if p.inline ≠ 0 ∨ p.fills then some { p with inline := p.inline + 1 } else none
  else if p.parens = 0 ∧ c = '}' then
    if p.inline ≠ 0 then some { p with inline := p.inline - 1 } else none
  else if c = ';' ∧ p.parens = 0 ∧ p.inline = 0 then none
  else some p

/-- Whether a brace after `c` starts an initializer. -/
def fillsAfter (p : Place) (c : Char) : Bool :=
  if isBlank c then p.fills else c == '=' || c == ',' || c == ']'

/-- The place after a character, if no cut is made at it. -/
def read? (p : Place) (x : Char × CharKind) : Option Place :=
  (if x.2 = .code then p.bracket? x.1 else some p).map fun q => { q with fills := p.fillsAfter x.1 }

/-- The place after characters, if no cut is made at any of them. -/
def walk? (p : Place) (l : List (Char × CharKind)) : Option Place := l.foldlM read? p

variable {p q : Place}

@[simp] theorem walk?_nil (p : Place) : p.walk? [] = some p := rfl

theorem walk?_cons (p : Place) (x : Char × CharKind) (l : List (Char × CharKind)) :
    p.walk? (x :: l) = (p.read? x).bind fun q => q.walk? l := List.foldlM_cons ..

theorem walk?_append (p : Place) (l l' : List (Char × CharKind)) :
    p.walk? (l ++ l') = (p.walk? l).bind fun q => q.walk? l' := List.foldlM_append ..

/-- A blank leaves the place as it is. -/
theorem read?_blank {x : Char × CharKind} (h : isBlank x.1 = true) (p : Place) :
    p.read? x = some p := by
  have hne : ∀ d : Char, isBlank d = false → x.1 ≠ d := fun d hd => ne_of_isBlank h hd
  have hb : p.bracket? x.1 = some p := by
    simp [bracket?, hne '(' (by decide), hne ')' (by decide), hne '{' (by decide),
      hne '}' (by decide), hne ';' (by decide)]
  rw [read?, hb, ite_self, Option.map_some, fillsAfter, if_pos h]

theorem walk?_filter_blank (l : List (Char × CharKind)) (p : Place) :
    p.walk? (l.filter fun x => !isBlank x.1) = p.walk? l := by
  induction l generalizing p with
  | nil => rfl
  | cons x l ih =>
    by_cases h : isBlank x.1 = true
    · rw [List.filter_cons_of_neg (by simp [h]), walk?_cons, read?_blank h, Option.bind_some, ih]
    · rw [List.filter_cons_of_pos (by simp [h]), walk?_cons, walk?_cons]
      simp only [ih]

/-- No cut is made in what is not code. -/
theorem read?_of_ne_code {x : Char × CharKind} (h : x.2 ≠ .code) (p : Place) :
    p.read? x = some { p with fills := p.fillsAfter x.1 } := by
  rw [read?, if_neg h]
  rfl

theorem walk?_of_ne_code {l : List (Char × CharKind)} (h : ∀ x ∈ l, x.2 ≠ .code) (p : Place) :
    ∃ q, p.walk? l = some q := by
  induction l generalizing p with
  | nil => exact ⟨p, rfl⟩
  | cons x l ih =>
    obtain ⟨hx, hl⟩ := List.forall_mem_cons.mp h
    rw [walk?_cons, read?_of_ne_code hx, Option.bind_some]
    exact ih hl _

/-- Where a cut is made: after a semicolon, or at a brace that belongs to no initializer. -/
theorem read?_eq_none {c : Char} (h : p.read? (c, .code) = none) :
    p.parens = 0 ∧ p.inline = 0 ∧ (c = ';' ∨ (c = '{' ∧ p.fills = false) ∨ c = '}') := by
  rw [read?, if_pos rfl, Option.map_eq_none_iff, bracket?] at h
  split at h
  · simp at h
  split at h
  · simp at h
  split at h
  · next hc =>
    split at h
    · simp at h
    · next hi => simp_all
  split at h
  · next hc =>
    split at h
    · simp at h
    · next hi => simp_all
  split at h
  · next hc => simp_all
  · simp at h

end Place

namespace Scan

/-- The place where a scan is. -/
def place (st : Scan) : Place := ⟨st.parens, st.inline, st.opensInitializer⟩

variable {st : Scan} {c : Char}

theorem opensInitializer_push (st : Scan) (c : Char) :
    (st.push c).opensInitializer = st.place.fillsAfter c := by
  rw [Place.fillsAfter, opensInitializer, push]
  by_cases h : isBlank c = true
  · rw [if_pos h, List.dropWhile_cons_of_pos h]
    rfl
  · rw [if_neg h, List.dropWhile_cons_of_neg h]

/-- What a code character does, by the brackets that are open: without a cut it goes to the fragment in
    progress, and a cut is made before it, after it or both. -/
theorem code_eq (st : Scan) (c : Char) (s : Text) : code true st c s =
    match st.place.bracket? c with
    | some q => { st with parens := q.parens, inline := q.inline }.push c
    | none =>
      if c = '}' then
        if gluesToClose s.trimLeft then st.flush.push c else (st.flush.push c).flush
      else (st.push c).flush := by
  rw [code, Place.bracket?]
  by_cases h₁ : c = '('
  · simp [h₁, place]
  by_cases h₂ : c = ')'
  · simp [h₂, place]
  by_cases h₃ : st.parens = 0 ∧ c = '{'
  · by_cases hi : st.inline ≠ 0 ∨ st.opensInitializer = true
    · simp [h₃, hi, place]
    · simp [h₃, hi, place]
  by_cases h₄ : st.parens = 0 ∧ c = '}'
  · by_cases hi : st.inline = 0
    · simp [h₄, hi, place]
    · simp [h₄, hi, place]
  by_cases h₅ : c = ';' ∧ st.parens = 0 ∧ st.inline = 0
  · simp [h₅, place]
  · simp only [h₁, h₂, h₃, h₄, h₅, place, if_false, true_and]

/-- A code character at which no cut is made. -/
theorem code_of_read? {p : Place} (h : st.place.read? (c, .code) = some p) (s : Text) :
    (code true st c s).text = st.text ++ [c] ∧ (code true st c s).done = st.done ∧
      (code true st c s).mode = st.mode ∧ (code true st c s).place = p := by
  have hfills := opensInitializer_push st c
  rw [Place.read?, if_pos rfl, Option.map_eq_some_iff] at h
  obtain ⟨q, hq, rfl⟩ := h
  rw [code_eq, hq]
  refine ⟨text_push st c, rfl, rfl, ?_⟩
  rw [place, ← hfills]
  rfl

/-- The finished fragments, and the one in progress unless it is blank. -/
theorem fragments_eq (st : Scan) :
    st.fragments = st.done.reverse ++ if st.text.trim = [] then [] else [st.text.trim] := by
  rw [fragments, flush, ← text]
  simp only
  split <;> simp

/-- A character that is not code. -/
theorem place_push (st : Scan) {x : Char × CharKind} (h : x.2 ≠ .code) :
    st.place.read? x = some (st.push x.1).place := by
  rw [Place.read?_of_ne_code h, ← opensInitializer_push]
  rfl

/-- A rest that is read without a cut goes to the fragment in progress, its comment included. -/
theorem run_open : ∀ {s : Text} (st : Scan), '\n' ∉ s → st.done = [] →
    (st.place.walk? (classifyFrom st.mode s)).isSome = true →
      (run true st s).1 = if (st.text ++ s).trim = [] then [] else [(st.text ++ s).trim]
  | [], st, _, hdone, _ => by
    rw [run, fragments_eq, hdone, List.append_nil]
    rfl
  | c :: s, st, hf, hdone, hwalk => by
    rw [List.mem_cons, not_or] at hf
    obtain ⟨hfc, hfs⟩ := hf
    have hattach : (st.attach (c :: s)).fragments =
        if (st.text ++ c :: s).trim = [] then [] else [(st.text ++ c :: s).trim] := by
      have htext : (st.attach (c :: s)).text = st.text ++ c :: s := by
        rw [attach, hdone]
        simp [text]
      have hnone : (st.attach (c :: s)).done = [] := by rw [attach, hdone]
      rw [fragments_eq, htext, hnone]
      rfl
    rw [run]
    split
    · exact hattach
    next hline =>
    split
    · exact hattach
    rw [classifyFrom] at hwalk
    rw [Scan.step_eq (Ne.symm hfc) hline]
    generalize st.mode.step c s.head? = x at hwalk
    obtain ⟨kind, mode⟩ := x
    rw [Place.walk?_cons] at hwalk
    have hassoc : st.text ++ c :: s = (st.text ++ [c]) ++ s := by simp
    by_cases hkind : kind = .code
    · subst hkind
      cases hp : st.place.read? (c, .code) with
      | none => rw [hp] at hwalk; simp at hwalk
      | some p =>
        rw [hp] at hwalk
        have hp' : ({ st with mode } : Scan).place.read? (c, .code) = some p := hp
        obtain ⟨htext, hdone', hmode, hplace⟩ := code_of_read? hp' s
        have ih := run_open (code true { st with mode } c s) hfs (hdone'.trans hdone)
          (by rw [hplace, hmode]; exact hwalk)
        rw [htext] at ih
        rw [hassoc]
        exact ih
    · have hpush := place_push { st with mode } (x := (c, kind)) hkind
      have hst : st.place = ({ st with mode } : Scan).place := rfl
      rw [hst, hpush] at hwalk
      have ih := run_open (({ st with mode } : Scan).push c) hfs hdone hwalk
      rw [text_push] at ih
      rw [hassoc]
      cases kind with
      | code => exact absurd rfl hkind
      | literal => exact ih
      | comment => exact ih

/-- A part that is read without a cut and ends in code goes to the fragment in progress. -/
theorem run_walk : ∀ {b s : Text} (st : Scan) {p : Place}, '\n' ∉ b →
    modeAfter st.mode s.head? b = .code →
      st.place.walk? ((trace st.mode s.head? b).map fun x => (x.1, x.2.2)) = some p →
        ∃ st' : Scan, run true st (b ++ s) = run true st' s ∧ st'.text = st.text ++ b ∧
          st'.done = st.done ∧ st'.mode = .code ∧ st'.place = p
  | [], s, st, p, _, hmode, hwalk => by
    exact ⟨st, rfl, (List.append_nil _).symm, rfl, hmode, Option.some.inj hwalk⟩
  | c :: b, s, st, p, hf, hmode, hwalk => by
    rw [List.mem_cons, not_or] at hf
    obtain ⟨hfc, hfb⟩ := hf
    have hnext : b.head?.or s.head? = (b ++ s).head? := (List.head?_append).symm
    rw [modeAfter, hnext] at hmode
    rw [trace, hnext, List.map_cons, Place.walk?_cons] at hwalk
    -- a comment that runs to the end of the line would not leave the lexer in code
    have hline : ¬(st.mode = .code ∧ c = '/' ∧ (b ++ s).head? = some '/') := by
      rintro ⟨hm, rfl, hs⟩
      rw [hm, hs] at hmode
      have hstay : modeAfter .lineComment s.head? b = .lineComment := modeAfter_lineComment hfb
      exact absurd (hstay.symm.trans hmode) (by simp)
    have hblock : ¬(st.mode = .code ∧ c = '/' ∧ (b ++ s).head? = some '*' ∧
        closesComment (c :: (b ++ s)) = false) := by
      rintro ⟨hm, rfl, hs, hopen⟩
      rw [hm, hs] at hmode
      cases b with
      | nil => exact absurd hmode (by simp [Mode.step, modeAfter])
      | cons d b =>
        have hnot : holds ['*', '/'] (b ++ s) = false := hopen
        have hstay := modeAfter_blockComment_append hnot
        exact absurd (hstay.symm.trans hmode) (by simp)
    rw [List.cons_append, run, if_neg hline, if_neg hblock, Scan.step_eq (Ne.symm hfc) hline]
    generalize st.mode.step c (b ++ s).head? = x at hmode hwalk
    obtain ⟨kind, mode⟩ := x
    obtain ⟨q, hq, hrest⟩ := Option.bind_eq_some_iff.mp hwalk
    have hassoc : st.text ++ c :: b = (st.text ++ [c]) ++ b := by simp
    rw [hassoc]
    by_cases hkind : kind = .code
    · subst hkind
      have hq' : ({ st with mode } : Scan).place.read? (c, .code) = some q := hq
      obtain ⟨htext, hdone, hmode', hplace⟩ := code_of_read? hq' (b ++ s)
      have ih := run_walk (s := s) (code true { st with mode } c (b ++ s)) hfb
        (by rw [hmode']; exact hmode) (by rw [hplace, hmode']; exact hrest)
      rw [htext, hdone] at ih
      exact ih
    · have hpush := place_push { st with mode } (x := (c, kind)) hkind
      have hplace : (({ st with mode } : Scan).push c).place = q :=
        Option.some.inj (hpush.symm.trans hq)
      subst hplace
      have ih := run_walk (s := s) (({ st with mode } : Scan).push c) hfb hmode hrest
      rw [text_push] at ih
      cases kind with
      | code => exact absurd rfl hkind
      | literal => exact ih
      | comment => exact ih

end Scan

theorem walk?_solidKinds (p : Place) (s : Text) : p.walk? (solidKinds s) = p.walk? (classify s) :=
  Place.walk?_filter_blank _ _

end JspLayout.Java
