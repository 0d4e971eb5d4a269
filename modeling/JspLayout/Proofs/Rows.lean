import JspLayout.Proofs.Lexing
import JspLayout.Java.Indenter

/-! How a fragment becomes rows.

    A trailing comment, a control header and a label are each split off at a place where the lexer is
    in code. Each splitting function is described once by the two parts it makes, and laying out a
    fragment by the rows it can give; what the rows keep of the fragment follows from that alone. -/

namespace JspLayout.Java

open Text

/-- A literal is left for the code. -/
theorem mode_of_kind_literal {m : Mode} {c : Char} {next : Option Char}
    (h : (m.step c next).1 = .literal) :
    (m.step c next).2 = .code ∨ (m.step c next).2.inLiteral = true := by
  revert h
  fun_cases Mode.step m c next <;> simp [Mode.inLiteral]

theorem kind_of_inLiteral {m : Mode} {c : Char} {next : Option Char} (h : m.inLiteral = true) :
    (m.step c next).1 = .literal := by
  revert h
  fun_cases Mode.step m c next <;> simp [Mode.inLiteral]

/-- Outside comments, what follows a character matters only where it opens one. -/
theorem step_eq_of_kind {m : Mode} {c : Char} {next : Option Char}
    (h : (m.step c next).1 ≠ .comment) : m.step c next = m.step c none := by
  revert h
  fun_cases Mode.step m c next <;> simp_all [Mode.step]

/-- The kinds of a text around one of its characters. -/
theorem classify_append_cons (u v : Text) (c : Char) :
    classify (u ++ c :: v) =
      (trace .code (some c) u).map (fun x => (x.1, x.2.2)) ++
        (c, ((modeAfter .code (some c) u).step c v.head?).1) ::
          classifyFrom ((modeAfter .code (some c) u).step c v.head?).2 v := by
  rw [classify, classifyFrom_eq_trace, trace_append, List.map_append, classifyFrom_eq_trace]
  simp [trace]

/-- After a character of the code that is not looked ahead for, the text can be cut. -/
theorem cut_after_code {s : Text} {l₁ l₂ : List (Char × CharKind)} {c : Char}
    (h : classify s = l₁ ++ (c, .code) :: l₂) (hc : Plain (some c)) :
    ∃ u v, s = u ++ v ∧ u.length = l₁.length + 1 ∧ modeAfter .code none u = .code ∧
      Apart u v.head? := by
  have hs : s = l₁.map Prod.fst ++ c :: l₂.map Prod.fst := by
    rw [← map_fst_classify s, h]
    simp
  generalize hu : l₁.map Prod.fst = u at hs
  generalize l₂.map Prod.fst = v at hs
  have hlen : u.length = l₁.length := by rw [← hu, List.length_map]
  rw [hs, classify_append_cons] at h
  have hlen' : ((trace .code (some c) u).map fun x => (x.1, x.2.2)).length = l₁.length := by
    rw [List.length_map, length_trace, hlen]
  obtain ⟨_, htail⟩ := List.append_inj h hlen'
  rw [List.cons.injEq, Prod.mk.injEq] at htail
  have hmode := mode_eq_code_of_kind htail.1.2
  refine ⟨u ++ [c], v, by rw [hs]; simp, by simp [hlen], ?_, Or.inr (by simpa using hc)⟩
  rw [modeAfter_append, List.head?_cons, Option.some_or, modeAfter, List.head?_nil, Option.none_or,
    ← step_eq_of_plain hc _ v.head?]
  exact hmode

/-! ### Trailing comments -/

/-- Before a character that is not of a literal, the lexer is in code if the character before that
    one is of a literal or of the code; and the text before is read as if it stood alone. -/
theorem modeAfter_eq_code {u v : Text} {c : Char} {l₁ l₂ : List (Char × CharKind)} {kind : CharKind}
    (h : classify (u ++ c :: v) = l₁ ++ (c, kind) :: l₂) (hlen : u.length = l₁.length)
    (hkind : kind ≠ .literal) (hlast : ∀ x ∈ l₁.getLast?, x.2 ≠ .comment) :
    Sealed u (some c) := by
  rw [classify_append_cons] at h
  have hlen' : ((trace .code (some c) u).map fun x => (x.1, x.2.2)).length = l₁.length := by
    rw [List.length_map, length_trace, hlen]
  obtain ⟨hl₁, htail⟩ := List.append_inj h hlen'
  rw [List.cons.injEq, Prod.mk.injEq] at htail
  have hout : (modeAfter .code (some c) u).inLiteral ≠ true := fun hin =>
    hkind (htail.1.2 ▸ kind_of_inLiteral hin)
  rcases List.eq_nil_or_concat u with rfl | ⟨u', d, rfl⟩
  · exact ⟨rfl, rfl, rfl⟩
  · rw [List.concat_eq_append, trace_append, List.map_append, List.head?_cons, Option.some_or] at hl₁
    rw [List.concat_eq_append, modeAfter_append, List.head?_cons, Option.some_or] at hout
    rw [List.concat_eq_append, Sealed, modeAfter_append, modeAfter_append, trace_append,
      trace_append, List.head?_cons, Option.some_or, Option.some_or]
    generalize modeAfter .code (some d) u' = m at *
    have hd : (m.step d (some c)).1 ≠ .comment := by
      refine hlast (d, (m.step d (some c)).1) ?_
      rw [← hl₁]
      simp [trace]
    have hmode : (m.step d (some c)).2 = .code := by
      cases hk : (m.step d (some c)).1 with
      | code => exact mode_eq_code_of_kind hk
      | literal => exact (mode_of_kind_literal hk).resolve_right hout
      | comment => exact absurd hk hd
    have hnone := step_eq_of_kind hd
    simp only [modeAfter, trace, List.head?_nil, Option.none_or, ← hnone, hmode, and_self]

/-- A fragment is its code, which does not end with what trails code, and what trails it. -/
theorem splitTrailingComment_parts (fragment : Text) : ∃ a b, fragment = a ++ b ∧
    splitTrailingComment fragment = (a.trimRight, b.trim) ∧ (b ≠ [] → Sealed a b.head?) ∧
      (∀ x ∈ (classify a).getLast?, trailsCode x = false) ∧
        ∀ x ∈ classify b, trailsCode x = true := by
  have hsplit : classify fragment =
      ((classify fragment).reverse.dropWhile trailsCode).reverse ++
        ((classify fragment).reverse.takeWhile trailsCode).reverse := by
    rw [← List.reverse_append, List.takeWhile_append_dropWhile, List.reverse_reverse]
  have htrails : ∀ x ∈ ((classify fragment).reverse.takeWhile trailsCode).reverse,
      trailsCode x = true := fun x hx => List.mem_takeWhile_imp (List.mem_reverse.mp hx)
  have hlast : ∀ x l, ((classify fragment).reverse.dropWhile trailsCode).reverse = l ++ [x] →
      trailsCode x = false := by
    intro x l hl
    have hrev : (classify fragment).reverse.dropWhile trailsCode = x :: l.reverse := by
      rw [← List.reverse_inj, hl]
      simp
    have := List.head?_dropWhile_not trailsCode (classify fragment).reverse
    simpa [hrev] using this
  have hcode : splitTrailingComment fragment =
      (trimRight (((classify fragment).reverse.dropWhile trailsCode).reverse.map Prod.fst),
        trim (((classify fragment).reverse.takeWhile trailsCode).reverse.map Prod.fst)) := by
    rw [splitTrailingComment]
    simp only [List.map_reverse]
  generalize ((classify fragment).reverse.dropWhile trailsCode).reverse = l₁ at hsplit hlast hcode
  generalize ((classify fragment).reverse.takeWhile trailsCode).reverse = l₂ at hsplit htrails hcode
  have htext : fragment = l₁.map Prod.fst ++ l₂.map Prod.fst := by
    rw [← map_fst_classify fragment, hsplit, List.map_append]
  have hseal : l₂.map Prod.fst ≠ [] → Sealed (l₁.map Prod.fst) (l₂.map Prod.fst).head? := by
    intro hb
    cases l₂ with
    | nil => exact absurd rfl hb
    | cons x l₂ =>
      obtain ⟨c, kind⟩ := x
      rw [htext] at hsplit
      refine modeAfter_eq_code hsplit (by simp) ?_ ?_
      · rintro rfl
        exact absurd (htrails _ List.mem_cons_self) (by simp [trailsCode])
      · intro x hx
        obtain ⟨l, rfl⟩ := List.getLast?_eq_some_iff.mp hx
        have := hlast x l rfl
        obtain ⟨d, kind'⟩ := x
        rintro rfl
        exact absurd this (by simp [trailsCode])
  obtain ⟨hcode', hcomment⟩ : l₁ = classify (l₁.map Prod.fst) ∧ l₂ = classify (l₂.map Prod.fst) := by
    by_cases hb : l₂.map Prod.fst = []
    · obtain rfl : l₂ = [] := List.map_eq_nil_iff.mp hb
      rw [List.append_nil] at hsplit
      rw [List.map_nil, List.append_nil] at htext
      rw [htext] at hsplit
      exact ⟨hsplit.symm, rfl⟩
    · rw [htext, classify_append (hseal hb)] at hsplit
      obtain ⟨h₁, h₂⟩ := List.append_inj hsplit (by simp [length_classify])
      exact ⟨h₁.symm, h₂.symm⟩
  refine ⟨_, _, htext, hcode, hseal, ?_, ?_⟩
  · rw [← hcode']
    intro x hx
    obtain ⟨l, hl⟩ := List.getLast?_eq_some_iff.mp hx
    exact hlast x l hl
  · rw [← hcomment]
    exact htrails

/-- A fragment is its code and what trails it, and each of the two can be read on its own. -/
theorem splitTrailingComment_spec (fragment : Text) : ∃ a b, fragment = a ++ b ∧
    splitTrailingComment fragment = (a.trimRight, b.trim) ∧
      (b ≠ [] → Sealed a b.head?) := by
  obtain ⟨a, b, hparts, hsplit, hseal, _⟩ := splitTrailingComment_parts fragment
  exact ⟨a, b, hparts, hsplit, hseal⟩

/-! ### Headers and labels -/

/-- The code cut in two where the lexer is in code, with no blanks at the cut and the end. -/
def Halves (code head tail : Text) : Prop :=
  ∃ u v, code = u ++ v ∧ (head = u.trim ∨ head = u.trimRight) ∧ tail = v.trim ∧
    modeAfter .code none u = .code ∧ Apart u v.head?

/-- A text that neither opens a literal nor a comment. -/
def Unquoted (s : Text) : Prop := ∀ c ∈ s, c ≠ '"' ∧ c ≠ '\'' ∧ c ≠ '/'

instance (s : Text) : Decidable (Unquoted s) :=
  List.decidableBAll (fun c => c ≠ '"' ∧ c ≠ '\'' ∧ c ≠ '/') s

theorem read_unquoted {s : Text} (h : Unquoted s) (next : Option Char) :
    modeAfter .code next s = .code := by
  induction s with
  | nil => rfl
  | cons c s ih =>
    obtain ⟨h1, h2, h3⟩ := h c List.mem_cons_self
    have hstep : Mode.step .code c (s.head?.or next) = (.code, .code) := by
      simp [Mode.step, h1, h2, h3]
    rw [modeAfter, hstep]
    exact ih fun d hd => h d (List.mem_cons_of_mem _ hd)

theorem unquoted_of_blank {w : Text} (h : Blank w) : Unquoted w := fun c hc =>
  ⟨ne_of_isBlank (h c hc) (by decide), ne_of_isBlank (h c hc) (by decide),
    ne_of_isBlank (h c hc) (by decide)⟩

theorem Unquoted.append {s t : Text} (hs : Unquoted s) (ht : Unquoted t) : Unquoted (s ++ t) :=
  List.forall_mem_append.mpr ⟨hs, ht⟩

theorem eq_append_of_afterWord? {word s rest : Text} (h : afterWord? word s = some rest) :
    s = word ++ rest :=
  eq_append_of_after? (Option.filter_eq_some_iff.mp h).1

theorem controlWords_unquoted :
    ∀ p ∈ controlWords, Unquoted p.1 ∧ p.1 ≠ [] ∧ Plain p.1.getLast? := by
  decide

/-- A control word opens neither a literal nor a comment. -/
theorem controlWord?_spec {s rest : Text} {needsCondition : Bool}
    (h : controlWord? s = some (needsCondition, rest)) :
    ∃ word, s = word ++ rest ∧ Unquoted word ∧ word ≠ [] ∧ Plain word.getLast? := by
  rw [controlWord?, Option.orElse_eq_orElse, Option.orElse_eq_or] at h
  rcases Option.or_eq_some_iff.mp h with h | ⟨_, h⟩
  · obtain ⟨rest', helse, he⟩ := Option.map_eq_some_iff.mp h
    obtain rfl : rest' = rest := congrArg Prod.snd he
    rw [afterElseIf?, Option.bind_eq_bind, Option.bind_eq_some_iff] at helse
    obtain ⟨s', hs', hif⟩ := helse
    split at hif
    · obtain ⟨w, hw, hs''⟩ := exists_blank_trimLeft s'
      refine ⟨"else".toList ++ (w ++ "if".toList), ?_, ?_, by simp, ?_⟩
      · rw [eq_append_of_after? hs', hs'', eq_append_of_afterWord? hif]
        simp
      · exact Unquoted.append (by decide) ((unquoted_of_blank hw).append (by decide))
      · rw [List.getLast?_append_of_ne_nil _ (by simp), List.getLast?_append_of_ne_nil _ (by simp)]
        decide
    · exact absurd hif (by simp)
  · obtain ⟨⟨word, needs⟩, hmem, hfound⟩ := List.exists_of_findSome?_eq_some h
    obtain ⟨rest', hword, he⟩ := Option.map_eq_some_iff.mp hfound
    obtain rfl : rest' = rest := congrArg Prod.snd he
    exact ⟨word, eq_append_of_afterWord? hword, controlWords_unquoted _ hmem⟩

/-- The parenthesis found is one of the code. -/
theorem afterParens?_spec : ∀ {depth : Nat} {l tail : List (Char × CharKind)},
    afterParens? depth l = some tail → ∃ l₁, l = l₁ ++ (')', .code) :: tail
  | _, [], _, h => by simp [afterParens?] at h
  | depth, (c, kind) :: l, tail, h => by
    have step : ∀ {depth'}, afterParens? depth' l = some tail →
        ∃ l₁, (c, kind) :: l = l₁ ++ (')', .code) :: tail := by
      intro depth' h
      obtain ⟨l₁, rfl⟩ := afterParens?_spec h
      exact ⟨(c, kind) :: l₁, rfl⟩
    rw [afterParens?] at h
    split at h
    · exact step h
    · split at h
      · next hc =>
        split at h
        · rw [Option.some.injEq] at h
          exact ⟨[], by rw [hc.1, hc.2, h]; rfl⟩
        · exact step h
      · exact step h

/-- The colon found is one of the code. -/
theorem labelLength?_spec : ∀ {before : Option Char} {l : List (Char × CharKind)} {n : Nat},
    labelLength? before l = some n → ∃ l₁ l₂, l = l₁ ++ (':', .code) :: l₂ ∧ n = l₁.length + 1
  | _, [], _, h => by simp [labelLength?] at h
  | before, (c, kind) :: l, n, h => by
    rw [labelLength?] at h
    split at h
    · next hc =>
      rw [Option.some.injEq] at h
      exact ⟨[], l, by rw [hc.1, hc.2.1]; rfl, h.symm⟩
    · obtain ⟨k, hk, rfl⟩ := Option.map_eq_some_iff.mp h
      obtain ⟨l₁, l₂, rfl, rfl⟩ := labelLength?_spec hk
      exact ⟨(c, kind) :: l₁, l₂, rfl, rfl⟩

theorem halves_splitCaseLabel {code head tail : Text}
    (h : splitCaseLabel code = some (head, tail)) : Halves code head tail := by
  rw [splitCaseLabel] at h
  split at h
  · obtain ⟨n, hn, he⟩ := Option.map_eq_some_iff.mp h
    rw [Prod.mk.injEq] at he
    obtain ⟨l₁, l₂, hl, rfl⟩ := labelLength?_spec hn
    obtain ⟨u, v, rfl, hlen, hm, ha⟩ := cut_after_code hl (by decide)
    rw [← hlen, List.take_left, List.drop_left] at he
    exact ⟨u, v, rfl, Or.inl he.1.symm, he.2.symm, hm, ha⟩
  · exact absurd h (by simp)

theorem halves_splitTrimmed {code u v head tail : Text} {n : Nat} (hcode : code = u ++ v)
    (hn : n = u.length) (hm : modeAfter .code none u = .code) (ha : Apart u v.head?)
    (h : splitTrimmed n code = (head, tail)) : Halves code head tail := by
  rw [splitTrimmed, hcode, hn, List.take_left, List.drop_left, Prod.mk.injEq] at h
  exact ⟨u, v, hcode, Or.inr h.1.symm, h.2.symm, hm, ha⟩

/-- What a control word is looked for in: the code after a closing brace. -/
def afterBrace (code : Text) : Text :=
  match code with
  | '}' :: rest => trimLeft rest
  | _ => code

theorem afterBrace_spec (code : Text) : ∃ brace, code = brace ++ afterBrace code ∧
    Unquoted brace := by
  unfold afterBrace
  split
  · next rest =>
    obtain ⟨w, hw, hs⟩ := exists_blank_trimLeft rest
    refine ⟨'}' :: w, by rw [List.cons_append, ← hs], ?_⟩
    exact Unquoted.append (s := ['}']) (by decide) (unquoted_of_blank hw)
  · exact ⟨[], rfl, by simp [Unquoted]⟩

theorem splitControlHeader_eq (code : Text) : splitControlHeader code =
    (controlWord? (afterBrace code)).bind fun (needsCondition, rest) =>
      if rest.trimLeft.head? = some '(' then
        (afterParens? 0 ((classify code).drop (code.length - rest.trimLeft.length))).map fun tail =>
          splitTrimmed (code.length - tail.length) code
      else if needsCondition then none
      else some (splitTrimmed (code.length - rest.length) code) := by
  unfold splitControlHeader
  refine congrArg (Option.bind (controlWord? (afterBrace code))) (funext fun x => ?_)
  simp only [Option.bind_eq_bind, Option.pure_def, Option.map_eq_bind, Function.comp_def]

/-- The header ends with its control word or with the parenthesis that closes its condition. -/
theorem halves_splitControlHeader {code head tail : Text}
    (h : splitControlHeader code = some (head, tail)) : Halves code head tail := by
  obtain ⟨brace, hcode, hbrace⟩ := afterBrace_spec code
  rw [splitControlHeader_eq, Option.bind_eq_some_iff] at h
  obtain ⟨⟨needsCondition, rest⟩, hword, h⟩ := h
  simp only at h
  split at h
  · obtain ⟨l, hl, he⟩ := Option.map_eq_some_iff.mp h
    obtain ⟨l₁, hl₁⟩ := afterParens?_spec hl
    have hclass : classify code = ((classify code).take (code.length - rest.trimLeft.length) ++ l₁) ++
        (')', .code) :: l := by
      rw [List.append_assoc, ← hl₁, List.take_append_drop]
    obtain ⟨u, v, hu, hlen, hm, ha⟩ := cut_after_code hclass (by decide)
    refine halves_splitTrimmed hu ?_ hm ha he
    have := congrArg List.length hclass
    rw [length_classify] at this
    simp only [List.length_append, List.length_cons] at this hlen
    omega
  · split at h
    · exact absurd h (by simp)
    · obtain ⟨word, hrest, hunq, hne, hlast⟩ := controlWord?_spec hword
      have hparts : code = (brace ++ word) ++ rest := by rw [hcode, hrest, List.append_assoc]
      refine halves_splitTrimmed hparts ?_ (read_unquoted (hbrace.append hunq) none) (Or.inr ?_)
        (Option.some.inj h)
      · have := congrArg List.length hparts
        rw [List.length_append] at this
        omega
      · rwa [List.getLast?_append_of_ne_nil _ hne]

/-! ### Closing braces -/

/-- One blank after a closing brace in place of those that were there. -/
theorem spaceAfterClose_spec (code : Text) : spaceAfterClose code = code ∨
    ∃ w r, Blank w ∧ code = '}' :: (w ++ r) ∧ spaceAfterClose code = '}' :: ' ' :: r := by
  unfold spaceAfterClose
  split
  · next rest =>
    split
    · obtain ⟨w, hw, hs⟩ := exists_blank_trimLeft rest
      exact Or.inr ⟨w, _, hw, by rw [← hs], rfl⟩
    · exact Or.inl rfl
  · exact Or.inl rfl

/-! ### Rows -/

/-- The rows that code can be laid out in: one row, or two cut where the lexer is in code. -/
inductive Splits (code : Text) : List Row → Prop
  | whole (depth : Int) : Splits code [⟨depth, code⟩]
  | head (depth : Int) {head : Text} : Halves code head [] → Splits code [⟨depth, head⟩]
  | halves (depth depth' : Int) {head tail : Text} : Halves code head tail →
      Splits code [⟨depth, head⟩, ⟨depth', tail⟩]

namespace Indenter

theorem splits_labelRows {code head tail : Text} (h : Halves code head tail) (depth : Int) :
    Splits code (labelRows depth head tail) := by
  unfold labelRows
  split
  · next htail => exact .head depth (htail ▸ h)
  · exact .halves depth (depth + 1) h

theorem splits_layStatement (st : Indenter) (carried : Int) (code : Text) :
    Splits code (st.layStatement carried code).1 := by
  simp only [layStatement]
  split
  · next head tail h =>
    split
    · exact .whole _
    · split
      · exact .whole _
      · split at h
        · exact absurd h (by simp)
        · exact .halves _ _ (halves_splitControlHeader h)
  · exact .whole _

/-- The code of a fragment as it is laid out. -/
def laidCode (code : Text) : Text := if code.head? = some '}' then spaceAfterClose code else code

/-- A fragment is laid out as a comment alone, or as rows of its code with the comment after the
    last one. -/
theorem lay_cases (st : Indenter) (fragment : Text) :
    ((splitTrailingComment fragment).1 = [] ∧
      ∃ depth, (st.lay fragment).1 = [⟨depth, (splitTrailingComment fragment).2⟩]) ∨
    ∃ rows, Splits (laidCode (splitTrailingComment fragment).1) rows ∧
      (st.lay fragment).1 = withComment (splitTrailingComment fragment).2 rows := by
  rw [lay]
  obtain ⟨code, comment⟩ := splitTrailingComment fragment
  simp only
  split
  · next h => exact Or.inl ⟨h, _, rfl⟩
  · refine Or.inr ?_
    rw [← laidCode]
    generalize laidCode code = code'
    split
    · next head tail h => exact ⟨_, splits_labelRows (halves_splitCaseLabel h) _, rfl⟩
    · exact ⟨_, splits_layStatement _ _ _, rfl⟩

end Indenter

end JspLayout.Java
