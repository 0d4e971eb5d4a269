import JspLayout.Proofs.Fragments
import JspLayout.Proofs.Occurrence
import JspLayout.Proofs.Reading
import JspLayout.Proofs.Reformat
import JspLayout.Proofs.Rows

/-! Laying out Java keeps what its characters are.

    Rows, fragments and lines are each read as what they were made from. Two places look at less than
    the whole text: a continuation is joined to a line that is judged on its own, and a line inside a
    block comment is taken to end it at the first closing delimiter. Main statement: where neither
    goes wrong, every character that is not blank keeps its kind and every literal its characters. -/

namespace JspLayout.Java

open Text

/-! ### Rows -/

theorem Halves.readsAs {code head tail : Text} (h : Halves code head tail) (hf : '\n' ∉ code) :
    ReadsAs .code [code] [head, tail] ∧ modeAfter .code none head = .code ∧
      ((modeAfter .code none code).inLiteral = false →
        modeAfter .code none tail = modeAfter .code none code) := by
  obtain ⟨u, v, rfl, hhead, rfl, hm, ha⟩ := h
  rw [List.mem_append, not_or] at hf
  have hseal : Sealed u v.head? := sealed_of_apart hm ha
  have hout : (modeAfter .code none u).inLiteral = false := by rw [hm]; rfl
  refine ⟨(readsAs_break hseal).trans ?_, ?_, fun hl => ?_⟩
  · refine ReadsAs.cons ?_ fun h => readsAs_trim (h.rests rests_code) hf.2
    rcases hhead with rfl | rfl
    · exact readsAs_trim rests_code hf.1
    · exact readsAs_trimRight rests_code hf.1
  · rcases hhead with rfl | rfl
    · exact (read_trim rests_code hf.1 hout).1.trans hm
    · exact (read_trimRight rests_code hf.1 hout).1.trans hm
  · rw [hseal.read_append.1] at hl ⊢
    exact (read_trim rests_code hf.2 hl).1

theorem Splits.readsAs {code : Text} {rows : List Row} (h : Splits code rows) (hf : '\n' ∉ code) :
    ReadsAs .code [code] (rows.map Row.text) := by
  cases h with
  | whole depth => exact ReadsAs.refl _ _
  | head depth h =>
    exact (h.readsAs hf).1.trans (ReadsAs.cons (ReadsAs.refl _ _) fun h =>
      readsAs_nil (h.rests rests_code) blank_nil)
  | halves depth depth' h => exact (h.readsAs hf).1

namespace Indenter

/-- A row that ends in code takes the comment after it. -/
theorem readsAs_withComment_singleton {m : Mode} (comment : Text) (row : Row)
    (h : modeAfter m none row.text = .code) :
    ReadsAs m [row.text, comment] ((withComment comment [row]).map Row.text) := by
  rw [withComment]
  split
  · next hc =>
    subst hc
    refine ReadsAs.cons (ReadsAs.refl _ _) fun hr => ?_
    obtain ⟨_, _, rfl⟩ := reads_singleton.mp hr
    rw [h]
    exact readsAs_nil rests_code blank_nil
  · exact readsAs_join fun _ => by rw [h]; exact rests_code

theorem withComment_nil : ∀ rows : List Row, withComment [] rows = rows
  | [] => rfl
  | [_] => rfl
  | row :: row' :: rows => congrArg (row :: ·) (withComment_nil (row' :: rows))

theorem readsAs_withComment {code comment : Text} {rows : List Row} (h : Splits code rows)
    (hf : '\n' ∉ code) (hend : modeAfter .code none code = .code) :
    ReadsAs .code [code, comment] ((withComment comment rows).map Row.text) := by
  have hparts : ReadsAs .code [code, comment] (rows.map Row.text ++ [comment]) :=
    ReadsAs.append (h.readsAs hf) fun _ => ReadsAs.refl _ _
  refine hparts.trans ?_
  cases h with
  | whole depth => exact readsAs_withComment_singleton comment ⟨depth, code⟩ hend
  | head depth h => exact readsAs_withComment_singleton comment ⟨depth, _⟩ (h.readsAs hf).2.1
  | @halves depth depth' head tail h =>
    obtain ⟨_, hhead, htail⟩ := h.readsAs hf
    refine ReadsAs.append (a := [head]) (ReadsAs.refl _ _) fun hr => ?_
    obtain ⟨_, _, rfl⟩ := reads_singleton.mp hr
    rw [hhead]
    refine readsAs_withComment_singleton comment ⟨depth', tail⟩ ?_
    exact (htail (by rw [hend]; rfl)).trans hend

theorem read_laidCode (code : Text) : modeAfter .code none (laidCode code) = modeAfter .code none code ∧
    essence .code none (laidCode code) = essence .code none code := by
  unfold laidCode
  split
  · rcases spaceAfterClose_spec code with h | ⟨w, r, hw, hcode, hspaced⟩
    · rw [h]
      exact ⟨rfl, rfl⟩
    · have hbrace : ∀ s : Text, Sealed ['}'] s.head? := fun s =>
        sealed_of_apart rfl (Or.inr (by simp [Plain]))
      have hmove : ∀ {w : Text}, Blank w →
          modeAfter .code none ('}' :: (w ++ r)) = modeAfter .code none r ∧
            essence .code none ('}' :: (w ++ r)) = essence .code none ['}'] ++ essence .code none r := by
        intro w hw
        obtain ⟨hmode, hess⟩ := (hbrace (w ++ r)).read_append
        obtain ⟨hmode', hess'⟩ := read_blank_append rests_code hw r
        exact ⟨hmode.trans hmode', hess.trans (congrArg _ hess')⟩
      have hone : Blank [' '] := Blank.cons (by decide) blank_nil
      rw [hspaced, hcode, (hmove hw).1, (hmove hw).2]
      exact hmove hone
  · exact ⟨rfl, rfl⟩

theorem not_mem_laidCode {code : Text} (hf : '\n' ∉ code) : '\n' ∉ laidCode code := by
  unfold laidCode
  split
  · rcases spaceAfterClose_spec code with h | ⟨w, r, _, hcode, hspaced⟩
    · rwa [h]
    · rw [hcode] at hf
      rw [hspaced]
      simp_all
  · exact hf

/-- The rows of a fragment are read as the fragment. -/
theorem readsAs_lay (st : Indenter) {fragment : Text} (hf : '\n' ∉ fragment) :
    ReadsAs .code [fragment] ((st.lay fragment).1.map Row.text) := by
  obtain ⟨a, b, rfl, hsplit, hseal⟩ := splitTrailingComment_spec fragment
  rw [List.mem_append, not_or] at hf
  have hcases := lay_cases st (a ++ b)
  rw [hsplit] at hcases
  dsimp only at hcases
  have hfa : '\n' ∉ laidCode a.trimRight :=
    not_mem_laidCode fun h => hf.1 ((trimRight_isPrefix a).subset h)
  have hlaid : ReadsAs .code [a.trimRight] [laidCode a.trimRight] :=
    readsAs_of_read_eq fun _ => read_laidCode a.trimRight
  by_cases hb : b = []
  · subst hb
    rw [List.append_nil] at hcases ⊢
    refine (readsAs_trimRight rests_code hf.1).trans ?_
    rcases hcases with ⟨hcode, depth, hrows⟩ | ⟨rows, hsplits, hrows⟩
    · rw [hrows, hcode]
      exact ReadsAs.refl _ _
    · rw [hrows, show withComment (trim []) rows = rows from withComment_nil rows]
      exact hlaid.trans (hsplits.readsAs hfa)
  · obtain hseal := hseal hb
    have hend : modeAfter .code none a.trimRight = .code :=
      (read_trimRight rests_code hf.1 (by rw [hseal.2.1]; rfl)).1.trans hseal.2.1
    have hparts : ReadsAs .code [a ++ b] [a.trimRight, b.trim] :=
      (readsAs_break hseal).trans (ReadsAs.cons (readsAs_trimRight rests_code hf.1)
        fun h => readsAs_trim (h.rests rests_code) hf.2)
    refine hparts.trans ?_
    rcases hcases with ⟨hcode, depth, hrows⟩ | ⟨rows, hsplits, hrows⟩
    · rw [hrows, hcode]
      exact ReadsAs.append (a := [[]]) (readsAs_nil rests_code blank_nil) fun _ => ReadsAs.refl _ _
    · rw [hrows]
      refine ReadsAs.trans (ReadsAs.cons hlaid fun _ => ReadsAs.refl _ _) ?_
      exact readsAs_withComment hsplits hfa ((read_laidCode _).1.trans hend)

/-! ### Lines of code -/

theorem readsAs_layAll {s : Text} {fs : List Text} (h : Cuts s fs) (hf : '\n' ∉ s) (st : Indenter) :
    ReadsAs .code [s] ((st.layAll fs).1.map Row.text) := by
  have hone : ∀ (st : Indenter) (f : Text), (st.layAll [f]).1 = (st.lay f).1 := by
    intro st f
    simp [layAll]
  induction h generalizing st with
  | blank hw => exact readsAs_nil rests_code hw
  | @last u hu =>
    rw [hone]
    exact (readsAs_trim rests_code hf).trans
      (readsAs_lay st fun h => hf ((trim_isInfix u).subset h))
  | @comment u c hu hm ha =>
    rw [List.mem_append, not_or] at hf
    have hout : (modeAfter .code none u).inLiteral = false := by rw [hm]; rfl
    have hend := (read_trim rests_code hf.1 hout).1.trans hm
    rw [hone]
    have htrim : ReadsAs .code [u, c] [u.trim, c] :=
      ReadsAs.cons (readsAs_trim rests_code hf.1) fun _ => ReadsAs.refl _ _
    have hjoin : ReadsAs .code [u.trim, c] [u.trim ++ ' ' :: c] :=
      readsAs_join fun _ => by rw [hend]; exact rests_code
    refine (readsAs_break (sealed_of_apart hm ha)).trans (htrim.trans (hjoin.trans ?_))
    refine readsAs_lay st fun h => ?_
    rcases List.mem_append.mp h with h | h
    · exact hf.1 ((trim_isInfix u).subset h)
    · simp [hf.2] at h
  | @cut u s fs hu hm ha hs ih =>
    rw [List.mem_append, not_or] at hf
    refine (readsAs_break (sealed_of_apart hm ha)).trans ?_
    rw [layAll, List.map_append]
    refine ReadsAs.append (a := [u]) ((readsAs_trim rests_code hf.1).trans
      (readsAs_lay st fun h => hf.1 ((trim_isInfix u).subset h))) fun hr => ?_
    obtain ⟨_, _, rfl⟩ := reads_singleton.mp hr
    rw [hm]
    exact ih hf.2 _

end Indenter

/-! ### Block comments -/

theorem modeAfter_lineComment {s : Text} {next : Option Char} (hf : '\n' ∉ s) :
    modeAfter .lineComment next s = .lineComment := by
  induction s with
  | nil => rfl
  | cons c s ih =>
    rw [List.mem_cons, not_or] at hf
    rw [modeAfter]
    simpa [Mode.step, Ne.symm hf.1] using ih hf.2

/-- A block comment goes on where its closing delimiter does not occur. -/
theorem modeAfter_blockComment_append {s t : Text} (h : holds ['*', '/'] (s ++ t) = false) :
    modeAfter .blockComment t.head? s = .blockComment := by
  induction s with
  | nil => rfl
  | cons c s ih =>
    rw [← Bool.not_eq_true, holds_iff_isInfix, List.cons_append, List.infix_cons_iff, not_or,
      ← holds_iff_isInfix, Bool.not_eq_true] at h
    have hstep : ¬(c = '*' ∧ (s.head?.or t.head?) = some '/') := by
      rintro ⟨rfl, hs⟩
      rw [← List.head?_append] at hs
      obtain ⟨r, hr⟩ := List.head?_eq_some_iff.mp hs
      exact h.1 ⟨r, by rw [hr]; rfl⟩
    rw [modeAfter, Mode.step, if_neg hstep]
    exact ih h.2

theorem modeAfter_blockComment {s : Text} (h : holds ['*', '/'] s = false) :
    modeAfter .blockComment none s = .blockComment :=
  modeAfter_blockComment_append (t := []) (by rwa [List.append_nil])

/-- A block comment that is open in mode `m` is closed in what is left of the line. -/
def CommentCloses (s : Text) : Mode → Prop
  | .code => True
  | .literal _ _ => True
  | .lineComment => False
  | .commentStart => ∃ t, s = '*' :: t ∧ holds ['*', '/'] t = true
  | .blockComment => holds ['*', '/'] s = true
  | .commentEnd => True

theorem CommentCloses.step {m : Mode} {c : Char} {s : Text} (h : CommentCloses (c :: s) m)
    (hline : ¬(m = .code ∧ c = '/' ∧ s.head? = some '/'))
    (hblock : ¬(m = .code ∧ c = '/' ∧ s.head? = some '*' ∧ Scan.closesComment (c :: s) = false)) :
    CommentCloses s (m.step c s.head?).2 := by
  cases m with
  | code =>
    rw [Mode.step]
    split
    · trivial
    split
    · next hc => exact absurd ⟨rfl, hc⟩ hline
    split
    · next hc =>
      obtain ⟨t, rfl⟩ := List.head?_eq_some_iff.mp hc.2
      exact ⟨t, rfl, by simpa [hc.1, Scan.closesComment] using hblock⟩
    · trivial
  | literal q escaped =>
    cases escaped <;> rw [Mode.step]
    · split
      · trivial
      · split <;> trivial
    · trivial
  | lineComment => exact h.elim
  | commentStart =>
    obtain ⟨t, ht, hh⟩ := h
    rw [List.cons.injEq] at ht
    exact ht.2 ▸ hh
  | blockComment =>
    rw [Mode.step]
    split
    · trivial
    · next hc =>
      rcases List.infix_cons_iff.mp (holds_iff_isInfix.mp h) with ⟨t, ht⟩ | h
      · rw [List.cons_append, List.cons.injEq] at ht
        exact absurd ⟨ht.1.symm, by simp [← ht.2]⟩ hc
      · exact holds_iff_isInfix.mpr h
  | commentEnd => trivial

namespace Scan

theorem mode_code (splitBraces : Bool) (st : Scan) (c : Char) (s : Text) :
    (code splitBraces st c s).mode = st.mode := by
  obtain ⟨st', _, _, hmode, hcases⟩ := code_cases splitBraces st c s
  rcases hcases with h | ⟨_, h | h | h⟩ <;> rw [h] <;> exact hmode

/-- The scan says that a block comment is left open exactly where the lexer ends inside one. -/
theorem run_opens_iff (splitBraces : Bool) : ∀ {s : Text} {st : Scan}, '\n' ∉ s →
    CommentCloses s st.mode →
      ((run splitBraces st s).2 = true ↔ modeAfter st.mode none s = .blockComment)
  | [], st, _, h => by
    have hne : st.mode ≠ .blockComment := by
      intro hm
      rw [hm] at h
      exact absurd (holds_iff_isInfix.mp h) (by simp)
    simpa [run, modeAfter] using hne
  | c :: s, st, hf, h => by
    have hfc : c ≠ '\n' := fun h => hf (h ▸ List.mem_cons_self)
    have hfs : '\n' ∉ s := fun h => hf (List.mem_cons_of_mem _ h)
    rw [run]
    split
    · next hc =>
      rw [hc.1, modeAfter, hc.2.1, hc.2.2]
      simpa [Mode.step] using (modeAfter_lineComment hfs).trans_ne (by simp)
    split
    · next hc =>
      obtain ⟨t, rfl⟩ := List.head?_eq_some_iff.mp hc.2.2.1
      rw [hc.1, hc.2.1, modeAfter, modeAfter]
      simpa [Mode.step] using modeAfter_blockComment hc.2.2.2
    next hline hblock =>
    have hstep := h.step hline hblock
    rw [Scan.step_eq hfc hline, modeAfter, Option.or_none]
    split
    · next mode heq =>
      rw [heq] at hstep ⊢
      have hcode : CommentCloses s (code splitBraces { st with mode } c s).mode := by
        rwa [mode_code]
      exact (run_opens_iff splitBraces hfs hcode).trans (by rw [mode_code])
    · next kind mode hkind heq =>
      rw [heq] at hstep ⊢
      have hpush : CommentCloses s ({ st with mode }.push c).mode := hstep
      exact run_opens_iff splitBraces hfs hpush

end Scan

theorem scan_opens_iff {line : Text} (hf : '\n' ∉ line) (splitBraces : Bool) :
    (scan line splitBraces).2 = true ↔ modeAfter .code none line = .blockComment :=
  Scan.run_opens_iff splitBraces hf trivial

/-! ### Lines -/

/-- Every line inside a block comment that holds the closing delimiter leaves the comment, and no
    other is open at its end. -/
def Settles (m : Mode) : List Text → Prop
  | [] => True
  | l :: ls =>
    (m = .blockComment → holds ['*', '/'] l = true → modeAfter m none l ≠ .blockComment) ∧
      Settles (modeAfter m none l).nextLine ls

/-- No line is joined to one that ends inside a line comment, read with the lines before it. -/
def JoinsApart (before : List Text) : List Text → Prop
  | [] => True
  | l :: ls =>
    (joinLine before l ≠ l :: before →
      modeAfter .code none (unlines (before.dropWhile blank).reverse) ≠ .lineComment) ∧
        JoinsApart (joinLine before l) ls

instance decidableSettles : ∀ (m : Mode) (ls : List Text), Decidable (Settles m ls)
  | _, [] => isTrue trivial
  | m, l :: ls =>
    have := decidableSettles (modeAfter m none l).nextLine ls
    inferInstanceAs (Decidable ((m = .blockComment → holds ['*', '/'] l = true →
      modeAfter m none l ≠ .blockComment) ∧ Settles (modeAfter m none l).nextLine ls))

instance decidableJoinsApart : ∀ before ls : List Text, Decidable (JoinsApart before ls)
  | _, [] => isTrue trivial
  | before, l :: ls =>
    have := decidableJoinsApart (joinLine before l) ls
    inferInstanceAs (Decidable ((joinLine before l ≠ l :: before →
      modeAfter .code none (unlines (before.dropWhile blank).reverse) ≠ .lineComment) ∧
        JoinsApart (joinLine before l) ls))

theorem nextLine_eq_blockComment_iff {m : Mode} (h : m.Meets none) :
    m.nextLine = .blockComment ↔ m = .blockComment := by
  cases m with
  | literal q escaped => cases escaped <;> simp [Mode.nextLine, Mode.step]
  | commentStart => exact absurd (h.opening rfl) (by simp)
  | _ => simp [Mode.nextLine, Mode.step]

namespace Indenter

/-- The rows of a line are read as the line. -/
theorem readsAs_layLine {st : Indenter} {m : Mode} (hm : m.Rests)
    (hflag : st.inComment = true ↔ m = .blockComment) {line : Text} (hf : '\n' ∉ line) :
    ReadsAs m [line] ((st.layLine line).1.map Row.text) := by
  refine (readsAs_trim hm hf).trans ?_
  simp only [layLine]
  split
  · next h =>
    rw [h]
    exact ReadsAs.refl _ _
  split
  · simp only [commentRow, List.map_cons, List.map_nil]
    split
    · exact readsAs_blank_append hm (w := [' ']) (Blank.cons (by decide) blank_nil) _
    · exact ReadsAs.refl _ _
  · next h =>
    have hcode : m = .code := hm.resolve_right fun hb => h (hflag.mpr hb)
    have hf' : '\n' ∉ line.trim := fun h => hf ((trim_isInfix line).subset h)
    rw [hcode]
    exact readsAs_layAll (cuts_scan hf' true) hf' st

/-- The indenter knows whether the next line starts inside a block comment. -/
theorem inComment_layLine_iff {st : Indenter} {m : Mode} (hm : m.Rests)
    (hflag : st.inComment = true ↔ m = .blockComment) {line : Text} (hf : '\n' ∉ line)
    (hl : (modeAfter m none line).inLiteral = false)
    (hsettles : m = .blockComment → holds ['*', '/'] line = true →
      modeAfter m none line ≠ .blockComment) :
    (st.layLine line).2.inComment = true ↔ (modeAfter m none line).nextLine = .blockComment := by
  rw [nextLine_eq_blockComment_iff (hm.meets _).modeAfter]
  have hmode := (read_trim hm hf hl).1
  simp only [layLine]
  split
  · next h =>
    rw [← hmode, h]
    exact hflag
  split
  · next h =>
    obtain rfl : m = .blockComment := hflag.mp h
    rw [Bool.not_eq_true']
    constructor
    · intro hnot
      rw [← hmode]
      exact modeAfter_blockComment hnot
    · intro hin
      rw [← Bool.not_eq_true]
      intro hholds
      have hpart := (holds_iff_isInfix.mp hholds).trans (trim_isInfix line)
      exact hsettles rfl (holds_iff_isInfix.mpr hpart) hin
  · next h =>
    have hcode : m = .code := hm.resolve_right fun hb => h (hflag.mpr hb)
    have hf' : '\n' ∉ line.trim := fun h => hf ((trim_isInfix line).subset h)
    rw [← hmode, hcode]
    exact scan_opens_iff hf' true

theorem readsAs_layLines : ∀ {lines : List Text} {st : Indenter} {m : Mode}, m.Rests →
    (st.inComment = true ↔ m = .blockComment) → (∀ l ∈ lines, '\n' ∉ l) → Settles m lines →
      ReadsAs m lines ((st.layLines lines).1.map Row.text)
  | [], _, _, _, _, _, _ => ReadsAs.refl _ _
  | line :: rest, st, m, hm, hflag, hf, hsettles => by
    obtain ⟨hfl, hfr⟩ := List.forall_mem_cons.mp hf
    rw [layLines, List.map_append]
    refine ReadsAs.append (a := [line]) (readsAs_layLine hm hflag hfl) fun hr => ?_
    have hm' := hr.rests hm
    obtain ⟨hl, _, rfl⟩ := reads_singleton.mp hr
    exact readsAs_layLines hm' (inComment_layLine_iff hm hflag hfl hl hsettles.1) hfr hsettles.2

end Indenter

/-! ### Continuations -/

theorem readsAs_blank_lines {ls : List Text} {m : Mode} (hm : m.Rests) (h : ∀ l ∈ ls, Blank l) :
    ReadsAs m ls [] := by
  induction ls with
  | nil => exact ReadsAs.refl _ _
  | cons l ls ih =>
    obtain ⟨hl, hls⟩ := List.forall_mem_cons.mp h
    refine ReadsAs.append (a := [l]) (readsAs_nil hm hl) fun hr => ?_
    obtain ⟨_, _, rfl⟩ := reads_singleton.mp hr
    rw [(read_blank hm hl none).1, hm.nextLine_eq]
    exact ih hls

/-- A line that does not end in a line comment can take the next one after it. -/
theorem readsAs_continue {m : Mode} (hm : m.Rests) {target line : Text} (hft : '\n' ∉ target)
    (hfl : '\n' ∉ line) (h : modeAfter m none target ≠ .lineComment) :
    ReadsAs m [target, line] [target.trimRight ++ ' ' :: line.trim] := by
  have hrests : (modeAfter m none target).inLiteral = false → (modeAfter m none target).Rests := by
    intro hl
    have hmeets : (modeAfter m none target).Meets none := (hm.meets _).modeAfter
    cases hmode : modeAfter m none target with
    | code => exact Or.inl rfl
    | literal q escaped => rw [hmode] at hl; exact absurd hl (by simp [Mode.inLiteral])
    | lineComment => exact absurd hmode h
    | commentStart => rw [hmode] at hmeets; exact absurd (hmeets.opening rfl) (by simp)
    | blockComment => exact Or.inr rfl
    | commentEnd => rw [hmode] at hmeets; exact absurd (hmeets.closing rfl) (by simp)
  intro e m' hr
  obtain ⟨_, _, _, _, hr₁, _⟩ := Reads.of_append (a := [target]) hr
  have hl := (reads_singleton.mp hr₁).1
  have htrim := (read_trimRight hm hft hl).1
  refine ReadsAs.trans (ReadsAs.cons (readsAs_trimRight hm hft) fun hr =>
    readsAs_trim (hr.rests hm) hfl) (readsAs_join fun _ => ?_) e m' hr
  rw [htrim]
  exact hrests hl

theorem readsAs_joinLine {before : List Text} {line : Text} (hf : ∀ l ∈ line :: before, '\n' ∉ l)
    (h : joinLine before line ≠ line :: before →
      modeAfter .code none (unlines (before.dropWhile blank).reverse) ≠ .lineComment) :
    ReadsAs .code (line :: before).reverse (joinLine before line).reverse := by
  by_cases hkeep : joinLine before line = line :: before
  · rw [hkeep]
    exact ReadsAs.refl _ _
  have hend := h hkeep
  obtain ⟨target, earlier, hdrop, hjoin⟩ := (joinLine_cases before line).resolve_left hkeep
  obtain ⟨hfl, hfb⟩ := List.forall_mem_cons.mp hf
  obtain ⟨blanks, hblank, hbefore⟩ : ∃ bs : List Text, (∀ l ∈ bs.reverse, Blank l) ∧
      before = bs ++ target :: earlier := by
    refine ⟨before.takeWhile blank, fun l hl => ?_, ?_⟩
    · exact (blank_iff l).mp (List.mem_takeWhile_imp (List.mem_reverse.mp hl))
    · rw [← hdrop, List.takeWhile_append_dropWhile]
  have hft : '\n' ∉ target := hfb target (by rw [hbefore]; simp)
  have hlines : (line :: before).reverse =
      earlier.reverse ++ (target :: (blanks.reverse ++ [line])) := by
    rw [hbefore]
    simp
  rw [hdrop, List.reverse_cons] at hend
  rw [hlines, hjoin, List.reverse_cons]
  refine ReadsAs.append (ReadsAs.refl _ _) fun hr => ?_
  rw [hr.modeAfter_unlines] at hend
  have hm := hr.rests rests_code
  refine ReadsAs.trans ?_ (readsAs_continue hm hft hfl hend)
  refine ReadsAs.cons (ReadsAs.refl _ _) fun hr => ?_
  exact ReadsAs.append (readsAs_blank_lines (hr.rests hm) hblank) fun _ => ReadsAs.refl _ _

theorem no_feed_joinLine {before : List Text} {line : Text} (hf : ∀ l ∈ line :: before, '\n' ∉ l) :
    ∀ l ∈ joinLine before line, '\n' ∉ l := by
  rcases joinLine_cases before line with h | ⟨target, earlier, hdrop, h⟩
  · rwa [h]
  · obtain ⟨hfl, hfb⟩ := List.forall_mem_cons.mp hf
    have hsub : ∀ l ∈ target :: earlier, '\n' ∉ l := fun l hl =>
      hfb l ((List.dropWhile_sublist _).subset (hdrop ▸ hl))
    rw [h]
    refine List.forall_mem_cons.mpr ⟨?_, fun l hl => hsub l (List.mem_cons_of_mem _ hl)⟩
    rw [List.mem_append, not_or, List.mem_cons, not_or]
    refine ⟨fun h => hsub target List.mem_cons_self ((trimRight_isPrefix target).subset h), by simp, ?_⟩
    exact fun h => hfl ((trim_isInfix line).subset h)

theorem joinLine_ne_nil (before : List Text) (line : Text) : joinLine before line ≠ [] := by
  rcases joinLine_cases before line with h | ⟨target, earlier, _, h⟩ <;> rw [h] <;> simp

/-- Joining lines keeps what they are read as, and gives lines. -/
theorem readsAs_foldl_joinLine : ∀ {lines before : List Text}, (∀ l ∈ lines, '\n' ∉ l) →
    (∀ l ∈ before, '\n' ∉ l) → before ++ lines ≠ [] → JoinsApart before lines →
      ReadsAs .code (before.reverse ++ lines) (lines.foldl joinLine before).reverse ∧
        Text.lines (unlines (lines.foldl joinLine before).reverse) =
          (lines.foldl joinLine before).reverse
  | [], before, _, hfb, hne, _ => by
    rw [List.append_nil] at hne
    refine ⟨by rw [List.append_nil]; exact ReadsAs.refl _ _, lines_unlines (by simpa using hne) ?_⟩
    exact fun l hl => hfb l (List.mem_reverse.mp hl)
  | line :: rest, before, hfl, hfb, _, hjoins => by
    obtain ⟨hline, hrest⟩ := List.forall_mem_cons.mp hfl
    have hf : ∀ l ∈ line :: before, '\n' ∉ l := List.forall_mem_cons.mpr ⟨hline, hfb⟩
    obtain ⟨hreads, hlines⟩ := readsAs_foldl_joinLine hrest (no_feed_joinLine hf)
      (List.append_ne_nil_of_left_ne_nil (joinLine_ne_nil before line) rest) hjoins.2
    refine ⟨ReadsAs.trans ?_ hreads, hlines⟩
    have hmove : before.reverse ++ line :: rest = (line :: before).reverse ++ rest := by simp
    rw [hmove]
    exact ReadsAs.append (readsAs_joinLine hf hjoins.1) fun _ => ReadsAs.refl _ _

/-! ### The whole layout -/

theorem readsAs_render {unit : Text} (h : Blank unit) : ∀ {rows : List Row} {m : Mode}, m.Rests →
    ReadsAs m (rows.map Row.text) (rows.map (Row.render unit))
  | [], _, _ => ReadsAs.refl _ _
  | row :: rows, m, hm => by
    refine ReadsAs.cons ?_ fun hr => readsAs_render h (hr.rests hm)
    exact readsAs_blank_append hm (blank_times h _) row.text

/-- Where every literal is closed on its line, no continuation is joined to a line comment and no
    block comment is opened again on the line that closes one, the layout of Java keeps the kind of
    every character that is not blank and every character of every literal. -/
theorem kinds_reformat (code : Text) (width : Int) (useTabs : Bool)
    (hclosed : closesLiterals .code code = true) (hjoins : JoinsApart [] code.lines)
    (hsettles : Settles .code (joinContinuations code).lines) :
    solidKinds (reformat code width useTabs) = solidKinds code ∧
      literals (reformat code width useTabs) = literals code := by
  obtain ⟨e, m', hcode⟩ := exists_reads_lines hclosed
  have hf := lines_no_feed code
  obtain ⟨hjoin, hlines⟩ :=
    readsAs_foldl_joinLine hf (by simp) (by simpa using lines_ne_nil code) hjoins
  rw [← joinContinuations] at hlines
  rw [← hlines] at hjoin
  have hlay : ReadsAs .code (joinContinuations code).lines ((layout code).map Row.text) :=
    Indenter.readsAs_layLines rests_code (by simp) (lines_no_feed _) hsettles
  have hrows : ReadsAs .code _ ((layout code).map (Row.render _)) :=
    readsAs_render (blank_indentUnit width useTabs) rests_code
  have hout := (hjoin.trans (hlay.trans hrows)) e m' hcode
  refine kinds_eq_of_essence_eq ?_
  rw [reformat, reformatWith, hout.essence_unlines, ← hcode.essence_unlines, unlines_lines]

/-- A literal with a comment delimiter, a block comment over two lines and a continuation after it. -/
theorem kinds_reformat_if_else :
    let code : Text := "if (a) \x7b s = \"\x7b // \"; /* \x7d *\n */ \x7d\n\nelse // it's\n  f('\x7d');".toList
    closesLiterals .code code = true ∧ JoinsApart [] code.lines ∧
      Settles .code (joinContinuations code).lines ∧
        solidKinds (reformat code 2 false) = solidKinds code ∧
          literals (reformat code 2 false) = literals code := by
  intro code
  have hclosed : closesLiterals .code code = true := by decide +kernel
  have hjoins : JoinsApart [] code.lines := by decide +kernel
  have hsettles : Settles .code (joinContinuations code).lines := by decide +kernel
  exact ⟨hclosed, hjoins, hsettles, kinds_reformat code 2 false hclosed hjoins hsettles⟩

/-- Neither condition can be dropped. The brace that the `else` is joined to is inside a line comment
    that only the lines before it show, so the `else` becomes comment; and after a block comment that
    is opened where another ends, a literal is cut at its semicolon. -/
theorem kinds_lost_by_join_and_reopened_comment :
    let joined : Text := "/*\n'*/ // '\x7d\nelse x();".toList
    let reopened : Text := "/*\n*/ /*\n\"*/ \"; x\";".toList
    (closesLiterals .code joined = true ∧ Settles .code (joinContinuations joined).lines ∧
        ¬JoinsApart [] joined.lines ∧ solidKinds (reformat joined 4 false) ≠ solidKinds joined) ∧
      closesLiterals .code reopened = true ∧ JoinsApart [] reopened.lines ∧
        ¬Settles .code (joinContinuations reopened).lines ∧
          literals (reformat reopened 4 false) ≠ literals reopened := by
  decide +kernel

end JspLayout.Java
