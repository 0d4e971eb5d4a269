import JspLayout.Proofs.Nesting
import JspLayout.Proofs.Pieces

/-! The code and the comment of a row.

    A comment after the code of a fragment is split off and put back after the code, one blank apart.
    Main statements: a row is split into the code and the comment that it is made of, and it is read as
    the fragment. -/

namespace JspLayout.Java

open Text

/-! ### Code and comment -/

/-- Two parts of which the second trails the code are split where the second begins. -/
theorem splitTrailingComment_append {u v : Text} (hseal : v ≠ [] → Sealed u v.head?)
    (hu : ∀ x ∈ (classify u).getLast?, trailsCode x = false)
    (hv : ∀ x ∈ classify v, trailsCode x = true) :
    splitTrailingComment (u ++ v) = (u.trimRight, v.trim) := by
  have hclass : classify (u ++ v) = classify u ++ classify v := by
    by_cases hnil : v = []
    · rw [hnil, List.append_nil]
      exact (List.append_nil _).symm
    · exact classify_append (hseal hnil)
  have hv' : ∀ x ∈ (classify v).reverse, trailsCode x = true := fun x hx =>
    hv x (List.mem_reverse.mp hx)
  have hdrop : (classify u).reverse.dropWhile trailsCode = (classify u).reverse ∧
      (classify u).reverse.takeWhile trailsCode = [] := by
    cases hrev : (classify u).reverse with
    | nil => exact ⟨rfl, rfl⟩
    | cons x l =>
      have hx : trailsCode x = false := hu x (by rw [← List.head?_reverse, hrev]; rfl)
      simp [hx]
  rw [splitTrailingComment, hclass, List.reverse_append, List.dropWhile_append_of_pos hv',
    List.takeWhile_append_of_pos hv', hdrop.1, hdrop.2]
  simp [map_fst_classify]

/-- Code and a comment that are split apart again when they stand in one row. -/
structure Parted (code comment : Text) : Prop where
  tight : Tight code
  comment_tight : Tight comment
  last : ∀ x ∈ (solidKinds code).getLast?, x.2 ≠ .comment
  trails : ∀ x ∈ classify comment, trailsCode x = true
  closed : comment ≠ [] → modeAfter .code none code = .code

/-- The last character of a text without blanks at its end. -/
theorem getLast?_classify {s : Text} (h : ∀ c ∈ s.getLast?, isBlank c = false) :
    (classify s).getLast? = (solidKinds s).getLast? := by
  rcases List.eq_nil_or_concat (classify s) with hnil | ⟨l, x, hx⟩
  · rw [solidKinds, hnil]
    rfl
  · rw [List.concat_eq_append] at hx
    have hlast : s.getLast? = some x.1 := by
      rw [← map_fst_classify s, hx, List.map_append, List.map_singleton, List.getLast?_concat]
    have hsolid : isBlank x.1 = false := h x.1 hlast
    rw [solidKinds, hx, List.filter_append, List.filter_cons_of_pos (by simp [hsolid]),
      List.filter_nil, List.getLast?_concat, List.getLast?_concat]

theorem solidKinds_ne_nil {s : Text} (hne : s ≠ []) (htight : Tight s) : solidKinds s ≠ [] := by
  intro hnil
  obtain ⟨c, t, hc⟩ := List.exists_cons_of_ne_nil hne
  have hmem : c ∈ (classify s).map Prod.fst := by rw [map_fst_classify, hc]; simp
  obtain ⟨x, hx, rfl⟩ := List.mem_map.mp hmem
  have hsolid : isBlank x.1 = false := htight.1 x.1 (by rw [hc]; rfl)
  rw [solidKinds, List.filter_eq_nil_iff] at hnil
  exact hnil x hx (by simp [hsolid])

theorem trailsCode_of_solid {x : Char × CharKind} (hx : isBlank x.1 = false) :
    trailsCode x = false ↔ x.2 ≠ .comment := by
  obtain ⟨c, kind⟩ := x
  cases kind <;> simp_all [trailsCode]

theorem solid_of_mem_solidKinds {s : Text} {x : Char × CharKind} (h : x ∈ solidKinds s) :
    isBlank x.1 = false := by
  simpa using (List.mem_filter.mp h).2

theorem Parted.trails_last {code comment : Text} (h : Parted code comment) :
    ∀ x ∈ (classify code).getLast?, trailsCode x = false := by
  rw [getLast?_classify h.tight.2]
  exact fun x hx => (trailsCode_of_solid (solid_of_mem_solidKinds (List.mem_of_getLast? hx))).mpr
    (h.last x hx)

theorem trails_blank_append {w s : Text} (hw : Blank w) (hs : ∀ x ∈ classify s, trailsCode x = true) :
    ∀ x ∈ classify (w ++ s), trailsCode x = true := by
  rw [classify_append_unquoted (unquoted_of_blank hw)]
  refine List.forall_mem_append.mpr ⟨fun x hx => ?_, hs⟩
  obtain ⟨c, hc, rfl⟩ := List.mem_map.mp hx
  exact hw c hc

/-- A row is split into its code and its comment. -/
theorem Parted.split {code comment : Text} (h : Parted code comment) :
    splitTrailingComment (rowText code comment) = (code, comment) := by
  have hlast := h.trails_last
  have hcode := trimRight_of_last h.tight.2
  rw [rowText]
  split
  · next hnil =>
    have hsplit := splitTrailingComment_append (v := []) (by simp) hlast (by simp [classify, classifyFrom])
    rw [List.append_nil, hcode] at hsplit
    rw [hsplit, hnil]
    rfl
  · next hne =>
    have hseal : Sealed code (' ' :: comment).head? :=
      sealed_of_apart (h.closed hne) (Or.inl (by simp [Plain]))
    have hblank : Blank [' '] := Blank.cons (by decide) blank_nil
    have htrim : trim (' ' :: comment) = comment :=
      (trim_blank_append hblank comment).trans h.comment_tight.trim_eq
    rw [splitTrailingComment_append (fun _ => hseal) hlast (trails_blank_append hblank h.trails),
      hcode, htrim]

theorem Parted.solidKinds_row {code comment : Text} (h : Parted code comment) :
    solidKinds (rowText code comment) = solidKinds code ++ solidKinds comment := by
  rw [rowText]
  split
  · next hnil =>
    rw [hnil]
    exact (List.append_nil _).symm
  · next hne =>
    have hblank : Blank [' '] := Blank.cons (by decide) blank_nil
    rw [solidKinds_append (v := ' ' :: comment)
      (sealed_of_apart (h.closed hne) (Or.inl (by simp [Plain])))]
    exact congrArg _ (solidKinds_blank_append hblank comment)

theorem Parted.mode_row {code comment : Text} (h : Parted code comment) (hne : comment ≠ []) :
    modeAfter .code none (rowText code comment) = modeAfter .code none comment := by
  have hblank : Blank [' '] := Blank.cons (by decide) blank_nil
  have hseal : Sealed code (' ' :: comment).head? :=
    sealed_of_apart (h.closed hne) (Or.inl (by simp [Plain]))
  rw [rowText, if_neg hne, hseal.read_append.1]
  exact (read_blank_append rests_code hblank comment).1

/-- A literal that ends in code ends with its quote. -/
theorem solid_of_sealed {s : Text} (hf : '\n' ∉ s) (hmode : modeAfter .code none s = .code)
    (hlast : ∀ x ∈ (classify s).getLast?, trailsCode x = false) :
    ∀ c ∈ s.getLast?, isBlank c = false := by
  intro c hc
  obtain ⟨t, rfl⟩ := List.getLast?_eq_some_iff.mp hc
  have hmeets : (modeAfter .code (some c) t).Meets (some c) := (rests_code.meets _).modeAfter
  rw [classify_append_cons] at hlast
  rw [modeAfter_append, List.head?_cons, Option.some_or] at hmode
  have hfc : c ≠ '\n' := fun h => hf (by simp [h])
  generalize modeAfter .code (some c) t = m at *
  have hc' := hlast _ (by rw [classifyFrom, List.getLast?_concat]; rfl)
  simp only [modeAfter, List.head?_nil, Option.or_none] at hmode hc'
  generalize hstep : m.step c none = y at hmode hc'
  obtain ⟨kind, mode⟩ := y
  simp only at hmode hc'
  cases kind with
  | code => simpa [trailsCode] using hc'
  | comment => simp [trailsCode] at hc'
  | literal =>
    subst hmode
    cases m with
    | literal q escaped =>
      cases escaped with
      | true => simp [Mode.step] at hstep
      | false =>
        have hq : c = q := by
          by_contra hq
          by_cases hb : c = '\\' <;> simp [Mode.step, hq, hfc, hb] at hstep
        rcases hmeets.quoted rfl with h | h <;> rw [hq, h] <;> decide
    | code =>
      by_cases hq : c = '"' ∨ c = '\'' <;> simp [Mode.step, hq] at hstep
    | lineComment => simp [Mode.step, hfc] at hstep
    | commentStart => simp [Mode.step] at hstep
    | blockComment => simp [Mode.step] at hstep
    | commentEnd => simp [Mode.step] at hstep

/-- No word runs from code into what trails it. -/
theorem endsWord_of_trails {s : Text} (h : ∀ x ∈ classify s, trailsCode x = true) :
    endsWord s = true := by
  cases s with
  | nil => rfl
  | cons c s =>
    have hc : trailsCode (c, (Mode.step .code c s.head?).1) = true := h _ List.mem_cons_self
    have hword : isWord c = false := by
      by_cases hslash : c = '/'
      · rw [hslash]
        decide +kernel
      · refine isWord_of_isBlank ?_
        by_cases hquote : c = '"' ∨ c = '\''
        · simp [Mode.step, hquote, trailsCode] at hc
        · simpa [Mode.step, hquote, hslash, trailsCode] using hc
    simp [endsWord, hword]

/-- A fragment is its code, blanks and the comment after the code, and code and comment make a row. -/
theorem exists_parted {f : Text} (hf : '\n' ∉ f) (htight : Tight f) : ∃ w, Blank w ∧
    f = codePart f ++ (w ++ (splitTrailingComment f).2) ∧
      Parted (codePart f) (splitTrailingComment f).2 ∧
        WordsApart (codePart f) (w ++ (splitTrailingComment f).2) ∧
          (w ++ (splitTrailingComment f).2 ≠ [] →
            (splitTrailingComment f).2 ≠ [] ∧
              Sealed (codePart f) (w ++ (splitTrailingComment f).2).head?) := by
  obtain ⟨a, b, hab, hsplit, hseal, hlast, htrails⟩ := splitTrailingComment_parts f
  rw [codePart, hsplit]
  simp only
  rw [hab] at hf htight
  rw [List.mem_append, not_or] at hf
  have hsolid : ∀ c ∈ a.getLast?, isBlank c = false := by
    by_cases hb : b = []
    · rw [hb, List.append_nil] at htight
      exact htight.2
    · exact solid_of_sealed hf.1 (hseal hb).2.1 hlast
  obtain ⟨w, hw, hb⟩ := exists_blank_trim htight.last_of_append
  rw [trimRight_of_last hsolid]
  refine ⟨w, hw, by rw [← hb, hab], ?_, Or.inl (by rw [← hb]; exact endsWord_of_trails htrails), ?_⟩
  · refine ⟨⟨htight.head_of_append, hsolid⟩, tight_trim b, ?_, ?_, fun hne => ?_⟩
    · rw [getLast?_classify hsolid] at hlast
      exact fun x hx => (trailsCode_of_solid
        (solid_of_mem_solidKinds (List.mem_of_getLast? hx))).mp (hlast x hx)
    · rw [hb, classify_append (sealed_blank hw _)] at htrails
      exact fun x hx => htrails x (List.mem_append_right _ hx)
    · exact (hseal fun hnil => hne (by rw [hnil]; rfl)).2.1
  · rw [← hb]
    refine fun hne => ⟨fun hnil => hne ?_, hseal hne⟩
    exact eq_nil_of_blank ((trim_eq_nil_iff b).mp hnil) htight.last_of_append

/-- The row of a fragment is read as the fragment. -/
theorem read_row {f : Text} (hf : '\n' ∉ f) (htight : Tight f) :
    solidKinds (rowText (codePart f) (splitTrailingComment f).2) = solidKinds f ∧
      modeAfter .code none (rowText (codePart f) (splitTrailingComment f).2) =
        modeAfter .code none f := by
  obtain ⟨w, hw, hparts, hparted, _, hseal⟩ := exists_parted hf htight
  have hkinds := hparted.solidKinds_row
  have hmode := hparted.mode_row
  generalize (splitTrailingComment f).2 = comment at *
  by_cases hnil : w ++ comment = []
  · have hcomment : comment = [] := (List.append_eq_nil_iff.mp hnil).2
    rw [hnil, List.append_nil] at hparts
    rw [rowText, if_pos hcomment, ← hparts]
    exact ⟨rfl, rfl⟩
  · obtain ⟨hne, hseal⟩ := hseal hnil
    rw [hkinds, hmode hne]
    constructor
    · conv_rhs => rw [hparts]
      rw [solidKinds_append hseal, solidKinds_blank_append hw]
    · conv_rhs => rw [hparts]
      rw [hseal.read_append.1, (read_blank_append rests_code hw comment).1]

/-! ### Closing braces -/

theorem laidCode_cases (code : Text) : Indenter.laidCode code = code ∨
    ∃ w r : Text, Blank w ∧ code = '}' :: (w ++ r) ∧ Indenter.laidCode code = '}' :: ' ' :: r ∧
      (keyword? closingWords r).isSome = true ∧ r.trimLeft = r := by
  unfold Indenter.laidCode
  split
  · unfold spaceAfterClose
    split
    · next rest _ =>
      split
      · next hword =>
        obtain ⟨w, hw, hs⟩ := exists_blank_trimLeft rest
        exact Or.inr ⟨w, _, hw, by rw [← hs], rfl, hword, trimLeft_of_head (head_trimLeft rest)⟩
      · exact Or.inl rfl
    · exact Or.inl rfl
  · exact Or.inl rfl

theorem laidCode_laidCode (code : Text) :
    Indenter.laidCode (Indenter.laidCode code) = Indenter.laidCode code := by
  rcases laidCode_cases code with h | ⟨w, r, _, _, h, hword, hr⟩
  · rw [h, h]
  · have hspace : trimLeft (' ' :: r) = r := by
      rw [← List.singleton_append, trimLeft_blank_append (Blank.cons (by decide) blank_nil), hr]
    rw [h, Indenter.laidCode, List.head?_cons, if_pos rfl, spaceAfterClose]
    simp only [hspace, hword, if_true]

theorem solidKinds_laidCode (code : Text) : solidKinds (Indenter.laidCode code) = solidKinds code :=
  (kinds_eq_of_essence_eq (Indenter.read_laidCode code).2).1

theorem Parted.laid {code comment : Text} (h : Parted code comment) :
    Parted (Indenter.laidCode code) comment := by
  refine ⟨?_, h.comment_tight, by rw [solidKinds_laidCode]; exact h.last, h.trails, fun hne => ?_⟩
  · rcases laidCode_cases code with hsame | ⟨w, r, _, hcode, hlaid, hword, _⟩
    · rw [hsame]
      exact h.tight
    · have hr : r ≠ [] := by
        rintro rfl
        exact absurd hword (by decide)
      refine ⟨fun c hc => ?_, fun c hc => h.tight.2 c ?_⟩
      · rw [hlaid, List.head?_cons, Option.mem_some_iff] at hc
        exact hc ▸ by decide
      · rw [hlaid, show '}' :: ' ' :: r = ['}', ' '] ++ r from rfl,
          List.getLast?_append_of_ne_nil _ hr] at hc
        rw [hcode, ← List.cons_append, List.getLast?_append_of_ne_nil _ hr]
        exact hc
  · rw [(Indenter.read_laidCode code).1]
    exact h.closed hne

end JspLayout.Java
