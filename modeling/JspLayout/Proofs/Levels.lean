import JspLayout.Proofs.Braces
import JspLayout.Proofs.Kinds

/-! The level after the last line.

    The indenter moves its level fragment by fragment, once for a leading closing brace and once for the
    other braces, and never below zero; a line inside a block comment it passes over whole. Main
    statement: where the code closes no brace that is not open, and no line that is passed over has more
    braces of one kind than of the other, the level after the last line is the number of braces that the
    code leaves open. -/

namespace JspLayout.Java

open Text

/-! ### Fragments -/

namespace Indenter

variable {st : Indenter}

/-- A fragment moves the level by its braces where these close nothing that is not open. -/
theorem Steady.level_lay (h : Steady st) {f : Text} (hf : Covers st.level (codeOf f).solid) :
    (st.lay f).2.level = st.level + surplus (codeOf f).solid := by
  rw [← solid_codeOf_codePart] at hf ⊢
  obtain ⟨pending, offsets, hnext, -, -⟩ := h.lay_next f
  have hend := hf.surplus_nonneg
  have hgain : gain f = surplus (codeOf (codePart f)).solid + if leads f then 1 else 0 := by
    rw [gain, surplus_solid, surplus_codeOf]
  have hlead : leads f = true → 1 ≤ st.level := by
    intro hlead
    obtain ⟨t, ht⟩ := List.head?_eq_some_iff.mp (of_decide_eq_true hlead)
    rw [covers_solid, ht, show '}' :: t = ['}'] ++ t from rfl, codeOf_append_unquoted (by decide),
      List.singleton_append, covers_cons] at hf
    have hclose : surplus ['}'] = -1 := by decide
    have := hf.2.nonneg
    omega
  rw [hnext]
  simp only [levelAfter, kept, hgain]
  have hlevel := h.level
  split
  · next hl =>
    have := hlead hl
    omega
  · omega

/-- Fragments in turn move the level by their braces. -/
theorem level_layAll : ∀ {fs : List Text} {st : Indenter}, Steady st →
    Covers st.level (fs.flatMap fun f => (codeOf f).solid) →
      (st.layAll fs).2.level = st.level + surplus (fs.flatMap fun f => (codeOf f).solid)
  | [], st, _, _ => (Int.add_zero st.level).symm
  | f :: fs, st, h, hc => by
    rw [List.flatMap_cons, covers_append] at hc
    have hf := h.level_lay hc.1
    have ih := level_layAll (h.lay f) (hf ▸ hc.2)
    rw [List.flatMap_cons, surplus_append, layAll]
    simp only
    omega

end Indenter

/-! ### Lines -/

/-- The code of a text that is read from mode `m`. -/
def codeFrom (m : Mode) (s : Text) : Text := codeAmong (classifyFrom m s)

/-- Every line that starts inside a block comment closes as many braces as it opens. -/
def SkipsEven (m : Mode) : List Text → Prop
  | [] => True
  | l :: ls =>
    (m = .blockComment → surplus (codeFrom m l) = 0) ∧ SkipsEven (modeAfter m none l).nextLine ls

instance decidableSkipsEven : ∀ (m : Mode) (ls : List Text), Decidable (SkipsEven m ls)
  | _, [] => isTrue trivial
  | m, l :: ls =>
    have := decidableSkipsEven (modeAfter m none l).nextLine ls
    inferInstanceAs (Decidable ((m = .blockComment → surplus (codeFrom m l) = 0) ∧
      SkipsEven (modeAfter m none l).nextLine ls))

/-- The code in what a layout keeps of a text. -/
def codeIn (e : List (Char × CharKind × Bool)) : Text :=
  codeAmong ((e.filter fun x => !isBlank x.1).map fun x => (x.1, x.2.1))

theorem codeIn_append (e e' : List (Char × CharKind × Bool)) :
    codeIn (e ++ e') = codeIn e ++ codeIn e' := by
  rw [codeIn, List.filter_append, List.map_append, codeAmong_append]
  rfl

theorem codeIn_essence (m : Mode) (s : Text) :
    codeIn (essence m none s) = (codeFrom m s).solid := by
  rw [codeFrom, solid_codeAmong, filter_classifyFrom_eq_essence]
  rfl

namespace Indenter

variable {st : Indenter}

/-- A line moves the level by its braces, if it is not passed over or its braces make no difference. -/
theorem Steady.level_layLine (h : Steady st) {m : Mode} (hm : m.Rests)
    (hflag : st.inComment = true ↔ m = .blockComment) {line : Text} (hf : '\n' ∉ line)
    (heven : m = .blockComment → surplus (codeFrom m line) = 0)
    (hc : Covers st.level (codeIn (essence m none line))) :
    (st.layLine line).2.level = st.level + surplus (codeIn (essence m none line)) := by
  simp only [Indenter.layLine]
  split
  · next hnil =>
    rw [(read_blank hm ((trim_eq_nil_iff line).mp hnil) none).2]
    exact (Int.add_zero st.level).symm
  split
  · next hin =>
    rw [codeIn_essence, surplus_solid, heven (hflag.mp hin)]
    exact (Int.add_zero st.level).symm
  · next hin =>
    obtain rfl : m = .code := hm.resolve_right fun hb => hin (hflag.mpr hb)
    have hf' : '\n' ∉ line.trim := fun h => hf ((trim_isInfix line).subset h)
    have hcode : codeIn (essence .code none line) =
        (scan line.trim true).1.flatMap fun f => (codeOf f).solid := by
      rw [codeIn_essence, ← (cuts_scan hf' true).solid_codeOf_eq hf', solid_codeOf, solidKinds_trim,
        ← solid_codeOf]
      rfl
    rw [hcode] at hc ⊢
    exact level_layAll h hc

/-- Lines that are read as `e` move the level by the braces in it. -/
theorem level_layLines {lines : List Text} {m m' : Mode} {e : List (Char × CharKind × Bool)}
    (hreads : Reads m lines e m') : ∀ {st : Indenter}, Steady st → m.Rests →
      (st.inComment = true ↔ m = .blockComment) → (∀ l ∈ lines, '\n' ∉ l) → Settles m lines →
        SkipsEven m lines → Covers st.level (codeIn e) →
          (st.layLines lines).2.level = st.level + surplus (codeIn e) := by
  induction hreads with
  | nil m =>
    intro st _ _ _ _ _ _ _
    exact (Int.add_zero st.level).symm
  | @cons m m' line rest e hl _ ih =>
    intro st h hm hflag hf hsettles heven hc
    obtain ⟨hfl, hfr⟩ := List.forall_mem_cons.mp hf
    rw [codeIn_append, covers_append] at hc
    have hline := h.level_layLine hm hflag hfl heven.1 hc.1
    have hrest := ih (h.layLine line) (rests_nextLine (hm.meets _).modeAfter hl)
      (inComment_layLine_iff hm hflag hfl hl hsettles.1) hfr hsettles.2 heven.2 (hline ▸ hc.2)
    rw [codeIn_append, surplus_append, layLines]
    simp only
    omega

end Indenter

/-! ### The whole code -/

/-- The level of the indenter after the last line of the code. -/
def finalLevel (code : Text) : Int := (Indenter.layLines {} (joinContinuations code).lines).2.level

/-- Where every literal is closed on its line and the code closes no brace that is not open, the level
    after the last line is the number of braces left open; as long as no continuation is joined to a line
    comment, no block comment is opened again on the line that closes one, and no line that starts inside
    a block comment has more braces of one kind than of the other. -/
theorem finalLevel_eq (code : Text) (hclosed : closesLiterals .code code = true)
    (hnested : Nested (codeOf code)) (hjoins : JoinsApart [] code.lines)
    (hsettles : Settles .code (joinContinuations code).lines)
    (heven : SkipsEven .code (joinContinuations code).lines) :
    finalLevel code = (countBraces code).1 - (countBraces code).2 := by
  obtain ⟨e, m', hcode⟩ := exists_reads_lines hclosed
  obtain ⟨hjoin, hlines⟩ := readsAs_foldl_joinLine (lines_no_feed code) (by simp)
    (by simpa using lines_ne_nil code) hjoins
  rw [← joinContinuations] at hlines
  rw [← hlines] at hjoin
  have he : codeIn e = (codeOf code).solid := by
    rw [← hcode.essence_unlines, unlines_lines, codeIn_essence]
    rfl
  have hcovers : Covers 0 (codeIn e) := by
    rw [he, covers_solid]
    exact nested_iff_covers.mp hnested
  have hlevel := Indenter.level_layLines (hjoin e m' hcode) Indenter.steady_start rests_code (by simp)
    (lines_no_feed _) hsettles heven hcovers
  rw [finalLevel, hlevel, he, surplus_solid, surplus_codeOf]
  exact Int.zero_add _

/-- Braces in literals and in comments, a `switch`, a comment over two lines after which one block is
    closed and another one opened, and a header without braces. -/
theorem finalLevel_eq_switch :
    let code : Text :=
      "switch (a) \x7b case '\x7d': // \x7d\n/* \x7b\n */ \x7d if (b) \x7b for (;;)\nx(\"\x7d\");".toList
    closesLiterals .code code = true ∧ Nested (codeOf code) ∧ JoinsApart [] code.lines ∧
      Settles .code (joinContinuations code).lines ∧ SkipsEven .code (joinContinuations code).lines ∧
        finalLevel code = 1 := by
  intro code
  have hclosed : closesLiterals .code code = true := by decide +kernel
  have hnested : Nested (codeOf code) := by decide +kernel
  have hjoins : JoinsApart [] code.lines := by decide +kernel
  have hsettles : Settles .code (joinContinuations code).lines := by decide +kernel
  have heven : SkipsEven .code (joinContinuations code).lines := by decide +kernel
  exact ⟨hclosed, hnested, hjoins, hsettles, heven,
    (finalLevel_eq code hclosed hnested hjoins hsettles heven).trans (by decide +kernel)⟩

/-- No condition can be left out: a block opened on the line that closes a comment is not counted, a
    comment opened again on such a line has its braces counted, and a brace joined to a line comment is
    lost. -/
theorem finalLevel_ne_of_skipped :
    let opened : Text := "/* a\n*/ if (x) \x7b\ny();".toList
    let reopened : Text := "/*\n*/ /*\n\x7b\n*/ x();".toList
    let joined : Text := "/*\n'*/ // '\x7d\nelse \x7b\nx();".toList
    (closesLiterals .code opened = true ∧ Nested (codeOf opened) ∧ JoinsApart [] opened.lines ∧
        Settles .code (joinContinuations opened).lines ∧
          countBraces opened = (1, 0) ∧ finalLevel opened = 0) ∧
      (closesLiterals .code reopened = true ∧ Nested (codeOf reopened) ∧ JoinsApart [] reopened.lines ∧
        SkipsEven .code (joinContinuations reopened).lines ∧
          countBraces reopened = (0, 0) ∧ finalLevel reopened = 1) ∧
      closesLiterals .code joined = true ∧ Nested (codeOf joined) ∧
        Settles .code (joinContinuations joined).lines ∧
          SkipsEven .code (joinContinuations joined).lines ∧
            countBraces joined = (1, 0) ∧ finalLevel joined = 0 := by
  decide +kernel

end JspLayout.Java
