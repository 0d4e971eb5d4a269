import JspLayout.Proofs.Headings

/-! The rows of a piece are pieces.

    A piece keeps its form when its comment is put back after its code, and a header or a label that
    opens no bracket can be taken off it. So each row of a fragment is one fragment when it is read as
    a line. -/

namespace JspLayout.Java

open Text

/-! ### The parts of a body -/

theorem Body.blank_append {w s : Text} (hw : Blank w) (h : Body s) : Body (w ++ s) := by
  cases h with
  | @whole _ q hreach => exact .whole (q := q) (by rwa [Reaches, solidKinds_blank_append hw])
  | @shut b e c q hreach hcode hnone hc he =>
    have hreach' : Reaches (w ++ b) q := by rwa [Reaches, solidKinds_blank_append hw]
    have hcode' : modeAfter .code none (w ++ b) = .code :=
      (read_blank_append rests_code hw b).1.trans hcode
    rw [← List.append_assoc]
    exact .shut hreach' hcode' hnone hc he

theorem Body.trimLeft {s : Text} (h : Body s) : Body s.trimLeft := by
  cases h with
  | @whole _ q hreach => exact .whole (q := q) (by rwa [Reaches, solidKinds_trimLeft])
  | @shut b e c q hreach hcode hnone hc he =>
    have hblank : isBlank c = false := by rcases finishes hnone hc with rfl | rfl <;> decide
    obtain ⟨w, hw, hb⟩ := exists_blank_trimLeft b
    have hleft : Text.trimLeft (b ++ c :: e) = b.trimLeft ++ c :: e := by
      by_cases hblank' : Blank b
      · rw [trimLeft_blank_append hblank', trimLeft_of_solid_head hblank, trimLeft_blank hblank']
        rfl
      · exact trimLeft_append hblank' _
    have hcode' : modeAfter .code none b.trimLeft = .code := by
      rw [← (read_blank_append rests_code hw b.trimLeft).1, ← hb, hcode]
    rw [hleft]
    exact .shut (by rwa [Reaches, solidKinds_trimLeft]) hcode' hnone hc he

/-- What follows a part that opens nothing is a body of its own. -/
theorem Body.split {u v : Text} (h : Body (u ++ v)) (hu : Reaches u {}) (hseal : Sealed u v.head?) :
    Body v := by
  generalize hs : u ++ v = s at h
  cases h with
  | @whole _ q hreach =>
    rw [← hs, Reaches, solidKinds_append hseal, Place.walk?_append, hu, Option.bind_some] at hreach
    exact .whole hreach
  | @shut b e c q hreach hcode hnone hc he =>
    have hplain : Plain (some c) := by rcases finishes hnone hc with rfl | rfl <;> decide
    rcases List.append_eq_append_iff.mp hs with ⟨a, rfl, rfl⟩ | ⟨a, rfl, ha⟩
    · have hseal' : Sealed u a.head? := by
        cases a with
        | nil => exact sealed_of_apart hseal.2.1 (Or.inl plain_none)
        | cons d a => exact hseal
      rw [Reaches, solidKinds_append hseal', Place.walk?_append, hu, Option.bind_some] at hreach
      rw [hseal'.read_append.1] at hcode
      exact .shut hreach hcode hnone hc he
    · -- the part would reach over the character that finishes the body
      cases a with
      | nil =>
        rw [List.append_nil] at hu hseal
        rw [List.nil_append] at ha
        have hq : q = {} := Option.some.inj (hreach.symm.trans hu)
        subst hq
        have hempty : Reaches [] {} := rfl
        have hbody : Body ([] ++ c :: e) := .shut hempty rfl hnone hc he
        rw [← ha]
        exact hbody
      | cons d a =>
        rw [List.cons_append, List.cons.injEq] at ha
        obtain ⟨rfl, _⟩ := ha
        have hapart : Sealed b (c :: a).head? := sealed_of_apart hcode (Or.inl hplain)
        have hkind : (solidKinds (c :: a)) = (c, .code) :: solidKinds a := by
          have hc' : Unquoted [c] ∧ isBlank c = false := by
            rcases finishes hnone hc with rfl | rfl <;> decide
          rw [solidKinds, classify_cons_unquoted hc'.1, List.filter_cons_of_pos (by simp [hc'.2])]
          rfl
        rw [Reaches, solidKinds_append hapart, Place.walk?_append, hreach, Option.bind_some, hkind,
          Place.walk?_cons, hnone] at hu
        exact absurd hu (by simp)

theorem solidKinds_brace (s : Text) : solidKinds ('}' :: s) = ('}', .code) :: solidKinds s := by
  rw [solidKinds, classify_cons_unquoted (by decide), List.filter_cons_of_pos (by decide)]
  rfl

theorem not_reaches_brace (s : Text) (q : Place) : ¬Reaches ('}' :: s) q := by
  have hnone : ({} : Place).read? ('}', .code) = none := by decide
  rw [Reaches, solidKinds_brace, Place.walk?_cons, hnone]
  simp

/-- A body does not begin with a closing brace. -/
theorem not_body_brace (s : Text) : ¬Body ('}' :: s) := by
  intro h
  generalize hs : '}' :: s = t at h
  cases h with
  | whole hreach => exact not_reaches_brace s _ (hs ▸ hreach)
  | @shut b e c q hreach hcode hnone hc he =>
    cases b with
    | nil =>
      rw [List.nil_append, List.cons.injEq] at hs
      exact hc hs.1.symm
    | cons d b =>
      rw [List.cons_append, List.cons.injEq] at hs
      exact not_reaches_brace b q (hs.1 ▸ hreach)

/-- A body that begins with an opening brace has nothing after it but a comment. -/
theorem Body.of_opening {s : Text} (h : Body ('{' :: s)) : Ending s := by
  generalize hs : '{' :: s = t at h
  have hnot : ∀ (b : Text) (q : Place), ¬Reaches ('{' :: b) q := by
    intro b q
    have hnone : ({} : Place).read? ('{', .code) = none := by decide
    have hkinds : solidKinds ('{' :: b) = ('{', .code) :: solidKinds b := by
      rw [solidKinds, classify_cons_unquoted (by decide), List.filter_cons_of_pos (by decide)]
      rfl
    rw [Reaches, hkinds, Place.walk?_cons, hnone]
    simp
  cases h with
  | whole hreach => exact absurd (hs ▸ hreach) (hnot s _)
  | @shut b e c q hreach hcode hnone hc he =>
    cases b with
    | nil =>
      rw [List.nil_append, List.cons.injEq] at hs
      exact hs.2 ▸ he
    | cons d b =>
      rw [List.cons_append, List.cons.injEq] at hs
      exact absurd (hs.1 ▸ hreach) (hnot b q)

/-! ### The rows of a piece are pieces -/

theorem RunsOn.trails {comment : Text} (h : RunsOn comment) (hf : '\n' ∉ comment) :
    ∀ x ∈ classify comment, trailsCode x = true := by
  intro x hx
  obtain ⟨c, kind⟩ := x
  obtain rfl : kind = .comment := h.kinds hf _ hx
  rfl

/-- What finishes a piece is the end of its code, and the comment after it is one of the row. -/
theorem exists_row_ending {u e : Text} {c : Char} (he : Ending e) (hc : Plain (some c) ∧ isBlank c = false)
    (hclass : (classify (u ++ [c])).getLast? = some (c, .code))
    (hmode : modeAfter .code none (u ++ [c]) = .code) (hf : '\n' ∉ e)
    (htight : ∀ d ∈ e.getLast?, isBlank d = false) :
    ∃ comment, splitTrailingComment ((u ++ [c]) ++ e) = (u ++ [c], comment) ∧
      rowText (u ++ [c]) comment = (u ++ [c]) ++ e := by
  have hlast : ∀ x ∈ (classify (u ++ [c])).getLast?, trailsCode x = false := by
    rw [hclass]
    intro x hx
    rw [Option.mem_some_iff] at hx
    subst hx
    exact (trailsCode_of_solid (x := (c, .code)) hc.2).mpr (by simp)
  have hseal : Sealed (u ++ [c]) e.head? := sealed_of_apart hmode (Or.inr (by simpa using hc.1))
  have hcode : trimRight (u ++ [c]) = u ++ [c] := trimRight_of_solid_last hc.2
  cases he with
  | none =>
    refine ⟨[], ?_, by rw [rowText, if_pos rfl, List.append_nil]⟩
    rw [splitTrailingComment_append (fun _ => hseal) hlast (by simp [classify, classifyFrom]), hcode]
    rfl
  | @comment k hruns =>
    rw [List.mem_cons, not_or] at hf
    have hk : k ≠ [] := by
      obtain ⟨t, rfl, _⟩ := hruns
      simp
    have htrim : trim (' ' :: k) = k := by
      rw [← List.singleton_append, trim_blank_append (Blank.cons (by decide) blank_nil)]
      refine Tight.trim_eq ⟨?_, fun d hd => htight d ?_⟩
      · obtain ⟨t, rfl, _⟩ := hruns
        rintro d ⟨⟩
        decide
      · rw [← List.singleton_append, List.getLast?_append_of_ne_nil _ hk]
        exact hd
    have htrails : ∀ x ∈ classify (' ' :: k), trailsCode x = true :=
      trails_blank_append (Blank.cons (by decide) blank_nil) (hruns.trails hf.2)
    refine ⟨k, ?_, by rw [rowText, if_neg hk]⟩
    rw [splitTrailingComment_append (fun _ => hseal) hlast htrails, hcode, htrim]

/-- The row of a fragment that is a body is a body. -/
theorem Body.row {f : Text} (h : Body f) (hf : '\n' ∉ f) (htight : Tight f) :
    Body (rowText (codePart f) (splitTrailingComment f).2) := by
  have hkinds := (read_row hf htight).1
  have hbody := h
  cases h with
  | @whole _ q hreach => exact .whole (q := q) (by rwa [Reaches, hkinds])
  | @shut b e c q hreach hcode hnone hc he =>
    have hc' : Plain (some c) ∧ isBlank c = false ∧ Unquoted [c] := by
      rcases finishes hnone hc with rfl | rfl <;> decide
    have hassoc : b ++ c :: e = (b ++ [c]) ++ e := by simp
    have hseal : Sealed b [c].head? := sealed_of_apart hcode (Or.inl hc'.1)
    rw [hassoc] at hf htight hbody ⊢
    rw [List.mem_append, not_or] at hf
    obtain ⟨comment, hsplit, hrow⟩ := exists_row_ending (u := b) he ⟨hc'.1, hc'.2.1⟩ (by
        rw [classify_append hseal, classify_cons_unquoted hc'.2.2]
        simp [classify, classifyFrom])
      (by rw [hseal.read_append.1, read_unquoted hc'.2.2]) hf.2 htight.last_of_append
    rw [codePart, hsplit]
    simp only [hrow]
    exact hbody

theorem gluesToClose_row {code comment : Text} (hne : code ≠ []) :
    gluesToClose (rowText code comment) = gluesToClose code := by
  rw [rowText]
  split
  · rfl
  · refine gluesToClose_append hne (Or.inl ?_)
    simp [endsWord, isWord_of_isBlank (c := ' ') (by decide)]

/-- What stays with a closing brace before it is code. -/
theorem codePart_of_glues {s : Text} (hf : '\n' ∉ s) (htight : Tight s)
    (hglues : gluesToClose s = true) : codePart s ≠ [] := by
  intro hnil
  obtain ⟨w, hw, hparts, hparted, _⟩ := exists_parted hf htight
  have htrails : ∀ x ∈ classify s, trailsCode x = true := by
    rw [hparts, hnil, List.nil_append]
    exact trails_blank_append hw hparted.trails
  cases s with
  | nil => simp [gluesToClose] at hglues
  | cons c s =>
    have hc : trailsCode (c, (Mode.step .code c s.head?).1) = true := htrails _ List.mem_cons_self
    have hblank : isBlank c = false := htight.1 c rfl
    have hslash : c = '/' := by
      by_contra hslash
      by_cases hquote : c = '"' ∨ c = '\'' <;>
        simp [Mode.step, hquote, hslash, trailsCode, hblank] at hc
    rw [hslash] at hglues
    simp [gluesToClose, keyword?, closingWords, afterWord?, after?] at hglues

theorem rowText_append (s code comment : Text) :
    rowText (s ++ code) comment = s ++ rowText code comment := by
  unfold rowText
  split
  · rfl
  · exact List.append_assoc ..

theorem head?_rowText {code : Text} (hne : code ≠ []) (comment : Text) :
    (rowText code comment).head? = code.head? := by
  obtain ⟨c, t, rfl⟩ := List.exists_cons_of_ne_nil hne
  rw [rowText]
  split <;> rfl

theorem trace_unquoted {s : Text} (h : Unquoted s) (next : Option Char) :
    trace .code next s = s.map fun c => (c, .code, .code) := by
  induction s with
  | nil => rfl
  | cons c s ih =>
    obtain ⟨⟨h1, h2, h3⟩, hs⟩ := List.forall_mem_cons.mp h
    have hstep : Mode.step .code c (s.head?.or next) = (.code, .code) := by
      simp [Mode.step, h1, h2, h3]
    rw [trace, hstep, List.map_cons, ← ih hs]

/-- What opens neither a literal nor a comment can stand before a text that is read on its own. -/
theorem sealed_unquoted_append_iff {u x : Text} {next : Option Char} (hx : Unquoted x) :
    Sealed (x ++ u) next ↔ Sealed u next := by
  rw [Sealed, Sealed, modeAfter_append, modeAfter_append, trace_append, trace_append,
    trace_unquoted hx, trace_unquoted hx, read_unquoted hx, read_unquoted hx, List.append_right_inj]

/-- The code of a fragment that begins with a closing brace is the brace and the code after it. -/
theorem splitTrailingComment_brace {w s : Text} (hw : Blank w) (hf : '\n' ∉ s) (htight : Tight s)
    (hcode : codePart s ≠ []) :
    splitTrailingComment ('}' :: (w ++ s)) =
      ('}' :: (w ++ codePart s), (splitTrailingComment s).2) := by
  obtain ⟨w', hw', hparts, hparted, _, hseal⟩ := exists_parted hf htight
  have hbrace : Unquoted ('}' :: w) := Unquoted.append (s := ['}']) (by decide) (unquoted_of_blank hw)
  have hassoc : '}' :: (w ++ s) =
      (('}' :: w) ++ codePart s) ++ (w' ++ (splitTrailingComment s).2) := by
    rw [List.append_assoc, ← hparts]
    rfl
  have hclass : (classify (('}' :: w) ++ codePart s)).getLast? = (classify (codePart s)).getLast? := by
    have hne : classify (codePart s) ≠ [] := fun hnil => hcode (by
      rw [← map_fst_classify (codePart s), hnil]
      rfl)
    rw [classify_append_unquoted hbrace, List.getLast?_append_of_ne_nil _ hne]
  have htrim : trimRight (('}' :: w) ++ codePart s) = ('}' :: w) ++ codePart s := by
    refine trimRight_of_last fun c hc => hparted.tight.2 c ?_
    rwa [List.getLast?_append_of_ne_nil _ hcode] at hc
  rw [hassoc, splitTrailingComment_append (fun hne => (sealed_unquoted_append_iff hbrace).mpr (hseal hne).2)
    (by rw [hclass]; exact hparted.trails_last) (trails_blank_append hw' hparted.trails), htrim,
    trim_blank_append hw', hparted.comment_tight.trim_eq]
  rfl

/-- The row of a piece is a piece. -/
theorem Piece.row {f : Text} (h : Piece f) (hf : '\n' ∉ f) (htight : Tight f)
    (hcode : codePart f ≠ []) :
    Piece (rowText (Indenter.laidCode (codePart f)) (splitTrailingComment f).2) := by
  cases h with
  | plain hbody =>
    have hhead : (codePart f).head? ≠ some '}' := by
      intro hbrace
      obtain ⟨w, _, hparts, _⟩ := exists_parted hf htight
      obtain ⟨t, ht⟩ := List.head?_eq_some_iff.mp hbrace
      rw [hparts, ht] at hbody
      exact not_body_brace _ hbody
    rw [Indenter.laidCode, if_neg hhead]
    exact .plain (hbody.row hf htight)
  | @glued s hglues hbody =>
    obtain ⟨w, hw, hs⟩ := exists_blank_trimLeft s
    have hf' : '\n' ∉ s.trimLeft := fun hm => hf (by rw [hs]; simp [hm])
    have htight' : Tight s.trimLeft := by
      refine ⟨head_trimLeft s, ?_⟩
      rw [hs, ← List.cons_append] at htight
      exact htight.last_of_append
    have hcode' := codePart_of_glues hf' htight' hglues
    have hrow := hbody.trimLeft.row hf' htight'
    obtain ⟨w', _, hparts, hparted, hapart, _⟩ := exists_parted hf' htight'
    have hglues' : gluesToClose (codePart s.trimLeft) = true := by
      rwa [← gluesToClose_append hcode' hapart, ← hparts]
    -- whatever the blanks are that come after the brace
    have hpiece : ∀ {x : Text}, Blank x →
        Piece ('}' :: (x ++ rowText (codePart s.trimLeft) (splitTrailingComment s.trimLeft).2)) := by
      intro x hx
      refine .glued ?_ (hrow.blank_append hx)
      rw [trimLeft_blank_append hx, trimLeft_of_head, gluesToClose_row hcode', hglues']
      rw [head?_rowText hcode']
      exact hparted.tight.1
    have hsplit := splitTrailingComment_brace hw hf' htight' hcode'
    rw [← hs] at hsplit
    rw [codePart, hsplit]
    rcases laidCode_cases ('}' :: (w ++ codePart s.trimLeft)) with hsame | ⟨x, r, hx, hr, hlaid, _, hleft⟩
    · rw [hsame, ← List.cons_append, rowText_append]
      exact hpiece hw
    · have hr' : r = codePart s.trimLeft := by
        rw [List.cons.injEq] at hr
        rw [← hleft, ← trimLeft_blank_append hx, ← hr.2, trimLeft_blank_append hw,
          trimLeft_of_head hparted.tight.1]
      have hspace : Blank [' '] := Blank.cons (by decide) blank_nil
      rw [hlaid, hr', show '}' :: ' ' :: codePart s.trimLeft = ['}', ' '] ++ codePart s.trimLeft from rfl,
        rowText_append]
      exact hpiece hspace
  | @lone e he =>
    have hclass : (classify ([] ++ ['}'])).getLast? = some ('}', .code) := by decide
    have htight' : Tight (['}'] ++ e) := htight
    rw [List.mem_cons, not_or] at hf
    obtain ⟨comment, hsplit, hrow⟩ := exists_row_ending (u := []) he (by decide) hclass rfl hf.2
      htight'.last_of_append
    have hsplit' : splitTrailingComment ('}' :: e) = (['}'], comment) := hsplit
    have hlaid : Indenter.laidCode ['}'] = ['}'] := by decide
    have hrow' : rowText ['}'] comment = '}' :: e := hrow
    rw [codePart, hsplit']
    simp only [hlaid, hrow']
    exact .lone he

/-! ### Rows of a fragment that is split -/

/-- A part that opens nothing and what follows it are pieces of their own. -/
theorem Piece.split {u v : Text} (h : Piece (u ++ v)) (hne : u ≠ []) (hu : Reaches u {})
    (hseal : Sealed u v.head?) : Piece u ∧ Body v := by
  have hbrace : ∀ s, u ++ v ≠ '}' :: s := by
    intro s hs
    obtain ⟨c, t, rfl⟩ := List.exists_cons_of_ne_nil hne
    rw [List.cons_append, List.cons.injEq] at hs
    exact not_reaches_brace t {} (hs.1 ▸ hu)
  generalize hs : u ++ v = s at h
  cases h with
  | plain hbody =>
    rw [← hs] at hbody
    exact ⟨.plain (.whole hu), hbody.split hu hseal⟩
  | glued => exact absurd hs (hbrace _)
  | lone => exact absurd hs (hbrace _)

/-- A header and what follows it are pieces of their own. -/
theorem Heading.split {head v : Text} (h : Heading head) (hp : Piece (head ++ v))
    (hapart : WordsApart head v) (hseal : Sealed head v.head?) : Piece head ∧ Body v := by
  obtain ⟨c, t, hbegins, hword⟩ := h.begins
  have hreach := h.reaches
  by_cases hhead : head.head? = some '}'
  · obtain ⟨rest, rfl⟩ := List.head?_eq_some_iff.mp hhead
    have hrest : Text.trimLeft rest = c :: t := hbegins
    have hreach' : Reaches rest {} := by rwa [Reaches, ← solidKinds_trimLeft]
    have hsolid : ¬Blank rest := fun hb => by
      rw [trimLeft_blank hb] at hrest
      exact absurd hrest (by simp)
    have hseal' : Sealed rest v.head? := (sealed_unquoted_append_iff (x := ['}']) (by decide)).mp hseal
    have hapart' : WordsApart rest v :=
      WordsApart.of_append (s := ['}']) hapart fun hnil => hsolid (hnil ▸ blank_nil)
    generalize hs : '}' :: rest ++ v = s at hp
    cases hp with
    | plain hbody =>
      rw [← hs] at hbody
      exact absurd hbody (not_body_brace _)
    | glued hglues hbody =>
      rw [List.cons_append, List.cons.injEq] at hs
      rw [← hs.2] at hglues hbody
      refine ⟨.glued ?_ (.whole hreach'), hbody.split hreach' hseal'⟩
      rwa [← gluesToClose_of_trim, ← gluesToClose_trim hsolid hapart']
    | lone he =>
      -- a comment does not begin with a word
      rw [List.cons_append, List.cons.injEq] at hs
      have hleft := trimLeft_append hsolid v
      rw [hs.2, hrest] at hleft
      cases he with
      | none => exact absurd hleft (by simp [trimLeft])
      | comment hruns =>
        obtain ⟨k, rfl, _⟩ := hruns
        rw [← List.singleton_append, trimLeft_blank_append (Blank.cons (by decide) blank_nil),
          trimLeft_of_solid_head (by decide), List.cons_append, List.cons.injEq] at hleft
        rw [← hleft.1] at hword
        exact absurd hword (by decide +kernel)
  · have hsame : afterBrace head = head := by
      unfold afterBrace
      split
      · exact absurd rfl hhead
      · rfl
    rw [hsame] at hbegins hreach
    exact hp.split (by rw [hbegins]; simp) hreach hseal

/-- A header that is split off keeps the one blank after its closing brace. -/
theorem Heading.laidCode {head v : Text} (h : Heading head) (hapart : WordsApart head v)
    (hlaid : Indenter.laidCode (head ++ v) = head ++ v) : Indenter.laidCode head = head := by
  by_cases hhead : head.head? = some '}'
  · obtain ⟨c, t, hbegins, _⟩ := h.begins
    obtain ⟨rest, rfl⟩ := List.head?_eq_some_iff.mp hhead
    have hrest : Text.trimLeft rest = c :: t := hbegins
    have hsolid : ¬Blank rest := fun hb => by
      rw [trimLeft_blank hb] at hrest
      exact absurd hrest (by simp)
    have hne : Text.trimLeft rest ≠ [] := by rw [hrest]; simp
    obtain ⟨w, _, hw⟩ := exists_blank_trimLeft rest
    have hapart' : WordsApart (Text.trimLeft rest) v := by
      rw [hw, ← List.cons_append] at hapart
      exact hapart.of_append hne
    have hlay : ∀ s : Text, Indenter.laidCode ('}' :: s) =
        if (keyword? closingWords (Text.trimLeft s)).isSome then '}' :: ' ' :: Text.trimLeft s
        else '}' :: s := fun s => rfl
    rw [List.cons_append, hlay, trimLeft_append hsolid,
      isSome_keyword?_append closingWords_words hne hapart'] at hlaid
    rw [hlay]
    split
    · next hword =>
      rw [if_pos hword, List.cons.injEq, ← List.cons_append] at hlaid
      rw [List.append_cancel_right hlaid.2]
    · rfl
  · exact if_neg hhead

/-- Code cut in two: the second part makes a row with the comment. -/
theorem Parted.cut {code comment head v : Text} (h : Parted code comment) (hcode : code = head ++ v)
    (hseal : Sealed head v.head?) (hne : v.trim ≠ []) :
    ∃ w, Blank w ∧ v = w ++ v.trim ∧ Parted v.trim comment ∧
      code.getLast? = v.trim.getLast? ∧
        rowText code comment = head ++ (w ++ rowText v.trim comment) := by
  have hright : ∀ c ∈ v.getLast?, isBlank c = false := by
    have htight := h.tight
    rw [hcode] at htight
    exact htight.last_of_append
  obtain ⟨w, hw, hv⟩ := exists_blank_trim hright
  have hkinds := solidKinds_ne_nil hne (tight_trim v)
  refine ⟨w, hw, hv, ⟨tight_trim v, h.comment_tight, ?_, h.trails, fun hc => ?_⟩, ?_, ?_⟩
  · have hlast := h.last
    rw [hcode, solidKinds_append hseal, ← solidKinds_trim v,
      List.getLast?_append_of_ne_nil _ hkinds] at hlast
    exact hlast
  · have hclosed := h.closed hc
    rw [hcode, hseal.read_append.1, hv, (read_blank_append rests_code hw _).1] at hclosed
    exact hclosed
  · have hparts : code = (head ++ w) ++ v.trim := by rw [List.append_assoc, ← hv, hcode]
    rw [hparts, List.getLast?_append_of_ne_nil _ hne]
  · rw [hcode, rowText_append]
    conv_lhs => rw [hv, rowText_append]

theorem Heading.parted {code comment head v : Text} (h : Heading head) (hp : Parted code comment)
    (hcode : code = head ++ v) : Parted head [] := by
  obtain ⟨c, hlast, _⟩ := h.last
  have htight := hp.tight
  rw [hcode] at htight
  refine ⟨⟨htight.head_of_append, h.solid_last⟩, by simp [Tight], ?_, by simp [classify, classifyFrom],
    by simp⟩
  rw [← getLast?_classify h.solid_last, hlast]
  rintro x ⟨⟩
  simp

theorem Labelling.getLast? {head : Text} (h : Labelling head) : head.getLast? = some ':' := by
  rw [← map_fst_classify head, List.getLast?_map, h.last]
  rfl

theorem Labelling.parted {code comment head v : Text} (h : Labelling head) (hp : Parted code comment)
    (hcode : code = head ++ v) : Parted head [] := by
  have hsolid : ∀ c ∈ head.getLast?, isBlank c = false := by
    rw [h.getLast?]
    rintro c ⟨⟩
    decide
  have htight := hp.tight
  rw [hcode] at htight
  refine ⟨⟨htight.head_of_append, hsolid⟩, by simp [Tight], ?_, by simp [classify, classifyFrom],
    by simp⟩
  rw [← getLast?_classify hsolid, h.last]
  rintro x ⟨⟩
  simp

/-! ### Rows that are read as lines -/

/-- A text that is one fragment when it is read as a line. -/
structure RowPiece (r : Text) : Prop where
  piece : Piece r
  feed : '\n' ∉ r
  tight : Tight r
  ne : r ≠ []

/-- The fragments of a trimmed line are pieces. -/
theorem rowPiece_of_mem_scan {line : Text} (hf : '\n' ∉ line) (htight : Tight line) :
    ∀ f ∈ (scan line true).1, RowPiece f := by
  intro f hmem
  obtain ⟨ht, hne, hpiece⟩ := (pieces_scan hf htight (unjoined_nil line)).1 f hmem
  exact ⟨hpiece, (cuts_scan hf true).no_feed hf f hmem, ht, hne⟩

theorem endsWithBrace_eq (s : Text) :
    endsWithBrace s = ((solidKinds s).getLast? == some ('}', .code)) := by
  rw [endsWithBrace, getLast?_classify (last_trimRight s), solidKinds_trimRight]

theorem tight_rowText {code comment : Text} (hcode : Tight code) (hcomment : Tight comment)
    (hne : code ≠ []) : Tight (rowText code comment) := by
  refine ⟨by rw [head?_rowText hne]; exact hcode.1, ?_⟩
  rw [rowText]
  split
  · exact hcode.2
  · next hc =>
    rw [List.append_cons, List.getLast?_append_of_ne_nil _ hc]
    exact hcomment.2

theorem isContinuation_brace (s : Text) : isContinuation ('}' :: s) = false := by
  simp [isContinuation, keyword?, continuationWords, afterWord?, after?]

theorem isContinuation_row {code : Text} (hne : code ≠ []) (comment : Text) :
    isContinuation (rowText code comment) = isContinuation code := by
  rw [rowText]
  split
  · rfl
  · refine isContinuation_append hne (Or.inl ?_)
    simp [endsWord, isWord_of_isBlank (c := ' ') (by decide)]

theorem laidCode_ne_nil {code : Text} (h : code ≠ []) : Indenter.laidCode code ≠ [] := by
  intro hnil
  have hhead := head?_laidCode code
  rw [hnil, List.head?_nil] at hhead
  exact h (List.head?_eq_none_iff.mp hhead.symm)

/-- The row of a fragment is one fragment again, is read as the fragment and begins like it. -/
theorem RowPiece.row {f : Text} (h : RowPiece f) (hcode : codePart f ≠ []) :
    RowPiece (rowText (Indenter.laidCode (codePart f)) (splitTrailingComment f).2) ∧
      solidKinds (rowText (Indenter.laidCode (codePart f)) (splitTrailingComment f).2) =
        solidKinds f ∧
      modeAfter .code none (rowText (Indenter.laidCode (codePart f)) (splitTrailingComment f).2) =
        modeAfter .code none f ∧
      (isContinuation (rowText (Indenter.laidCode (codePart f)) (splitTrailingComment f).2) = true →
        isContinuation f = true) := by
  obtain ⟨w, hw, hparts, hparted, hapart, _⟩ := exists_parted h.feed h.tight
  obtain ⟨hkinds, hmode⟩ := read_row h.feed h.tight
  have hpiece := h.piece.row h.feed h.tight hcode
  have hlaid := hparted.laid
  have hne := laidCode_ne_nil hcode
  have hfeed := h.feed
  generalize (splitTrailingComment f).2 = comment at *
  refine ⟨⟨hpiece, ?_, tight_rowText hlaid.tight hlaid.comment_tight hne, ?_⟩, ?_, ?_, ?_⟩
  · rw [hparts, List.mem_append, not_or, List.mem_append, not_or] at hfeed
    have hfeed' := Indenter.not_mem_laidCode hfeed.1
    rw [rowText]
    split
    · exact hfeed'
    · simp [hfeed', hfeed.2.2]
  · intro hnil
    have hhead := head?_rowText hne comment
    rw [hnil, List.head?_nil] at hhead
    exact hne (List.head?_eq_none_iff.mp hhead.symm)
  · rw [hlaid.solidKinds_row, solidKinds_laidCode, ← hparted.solidKinds_row, hkinds]
  · rw [← hmode]
    by_cases hc : comment = []
    · rw [rowText, rowText, if_pos hc, if_pos hc, (Indenter.read_laidCode _).1]
    · rw [hlaid.mode_row hc, hparted.mode_row hc]
  · intro hcont
    rw [isContinuation_row hne] at hcont
    rcases laidCode_cases (codePart f) with hsame | ⟨_, _, _, _, hspaced, _⟩
    · rwa [hparts, isContinuation_append hcode hapart, ← hsame]
    · rw [hspaced, isContinuation_brace] at hcont
      exact absurd hcont (by simp)

/-- Where a row is cut in two, the second part ends as the row does. -/
theorem read_cut {r head w row : Text} (hr : r = head ++ (w ++ row)) (hw : Blank w)
    (hseal : Sealed head (w ++ row).head?) (hrow : RowPiece row) :
    endsWithBrace row = endsWithBrace r ∧ modeAfter .code none row = modeAfter .code none r := by
  have hkinds := solidKinds_ne_nil hrow.ne hrow.tight
  constructor
  · rw [endsWithBrace_eq, endsWithBrace_eq, hr, solidKinds_append hseal, solidKinds_blank_append hw,
      List.getLast?_append_of_ne_nil _ hkinds]
  · rw [hr, hseal.read_append.1, (read_blank_append rests_code hw row).1]

theorem endsWord_congr {s t : Text} (h : s.head? = t.head?) : endsWord s = endsWord t := by
  cases s <;> cases t <;> simp_all [endsWord]

/-- What has to be known of a label or a header so that what it is split off from has two rows. -/
structure SplitsOff (head : Text) : Prop where
  parted : Parted head []
  ne : head ≠ []
  mode : modeAfter .code none head = .code
  open_end : endsWithBrace head = false
  pieces : ∀ {v : Text}, Piece (head ++ v) → WordsApart head v → Sealed head v.head? →
    Piece head ∧ Body v

theorem plain_of_isWord {c : Char} (h : isWord c = true) : Plain (some c) :=
  ⟨fun he => by
      rw [Option.some.injEq] at he
      exact absurd (he ▸ h) (by decide +kernel),
    fun he => by
      rw [Option.some.injEq] at he
      exact absurd (he ▸ h) (by decide +kernel)⟩

theorem Heading.sealed {head : Text} (h : Heading head) (next : Option Char) : Sealed head next := by
  obtain ⟨c, hlast, hc⟩ := h.getLast?
  refine sealed_of_apart h.mode (Or.inr ?_)
  rw [hlast]
  rcases hc with rfl | hword
  · decide
  · exact plain_of_isWord hword

theorem Heading.splitsOff {code comment head v : Text} (h : Heading head) (hp : Parted code comment)
    (hcode : code = head ++ v) : SplitsOff head := by
  have hparted := h.parted hp hcode
  obtain ⟨c, hlast, hc⟩ := h.last
  refine ⟨hparted, ?_, h.mode, ?_, h.split⟩
  · rintro rfl
    simp [classify, classifyFrom] at hlast
  · rw [endsWithBrace_eq, ← getLast?_classify hparted.tight.2, hlast]
    have hbrace : c ≠ '}' := by
      rintro rfl
      exact absurd hc (by decide +kernel)
    simp [hbrace]

namespace Labelling

variable {head : Text}

theorem sealed (h : Labelling head) (next : Option Char) : Sealed head next := by
  refine sealed_of_apart h.mode (Or.inr ?_)
  rw [h.getLast?]
  decide

theorem wordsApart (h : Labelling head) (v : Text) : WordsApart head v := by
  refine Or.inr fun c hc => ?_
  rw [h.getLast?, Option.mem_some_iff] at hc
  exact hc ▸ by decide +kernel

theorem splitsOff {code comment v : Text} (h : Labelling head) (hreach : Reaches head {})
    (hp : Parted code comment) (hcode : code = head ++ v) : SplitsOff head := by
  have hparted := h.parted hp hcode
  have hne : head ≠ [] := by
    intro hnil
    have hcolon := h.getLast?
    rw [hnil] at hcolon
    exact absurd hcolon (by simp)
  refine ⟨hparted, hne, h.mode, ?_, fun hpiece _ hseal => hpiece.split hne hreach hseal⟩
  rw [endsWithBrace_eq, ← getLast?_classify hparted.tight.2, h.last]
  decide

end Labelling

/-- The two rows of a fragment that is split. -/
structure Halved (f head tail row : Text) : Prop where
  row_eq : row = rowText tail (splitTrailingComment f).2
  parted : Parted tail (splitTrailingComment f).2
  first : RowPiece head
  second : RowPiece row
  last : (Indenter.laidCode (codePart f)).getLast? = tail.getLast?
  no_brace : tail.head? ≠ some '}'
  opening : tail.head? = some '{' → tail.getLast? = some '{'
  ends : endsWithBrace row = endsWithBrace f
  mode : modeAfter .code none row = modeAfter .code none f
  begins : isContinuation head = true → isContinuation f = true

theorem RowPiece.halved {f head v : Text} (h : RowPiece f) (hcode : codePart f ≠ [])
    (hparts : Indenter.laidCode (codePart f) = head ++ v) (hsplits : SplitsOff head)
    (hseal : Sealed head v.head?) (hapart : WordsApart head v) (hne : v.trim ≠ []) :
    Halved f head v.trim (rowText v.trim (splitTrailingComment f).2) := by
  obtain ⟨_, _, _, hparted, _⟩ := exists_parted h.feed h.tight
  obtain ⟨hrow, hkinds, hmode, hbegins⟩ := h.row hcode
  obtain ⟨w, hw, hv, hparted', hlast, hrows⟩ := hparted.laid.cut hparts hseal hne
  generalize hcomment : (splitTrailingComment f).2 = comment at *
  have hhead : (w ++ rowText v.trim comment).head? = v.head? := by
    conv_rhs => rw [hv]
    rw [List.head?_append, List.head?_append, head?_rowText hne]
  have hseal' : Sealed head (w ++ rowText v.trim comment).head? := by rwa [hhead]
  have hapart' : WordsApart head (w ++ rowText v.trim comment) :=
    hapart.imp_left fun hend => by rwa [endsWord_congr hhead]
  have hfeed := hrow.feed
  rw [hrows, List.mem_append, not_or, List.mem_append, not_or] at hfeed
  have hpiece := hrow.piece
  rw [hrows] at hpiece
  obtain ⟨hfirst, hbody⟩ := hsplits.pieces hpiece hapart' hseal'
  have hleft : trimLeft (w ++ rowText v.trim comment) = rowText v.trim comment := by
    rw [trimLeft_blank_append hw, trimLeft_of_head]
    rw [head?_rowText hne]
    exact hparted'.tight.1
  replace hbody := hbody.trimLeft
  rw [hleft] at hbody
  have htight := tight_rowText hparted'.tight hparted'.comment_tight hne
  have hsecond : RowPiece (rowText v.trim comment) := by
    refine ⟨.plain hbody, hfeed.2.2, htight, fun hnil => hne ?_⟩
    have hhead' := head?_rowText hne comment
    rw [hnil, List.head?_nil] at hhead'
    exact List.head?_eq_none_iff.mp hhead'.symm
  obtain ⟨hends, hmode'⟩ := read_cut hrows hw hseal' hsecond
  refine ⟨by rw [hcomment], by rwa [hcomment],
    ⟨hfirst, hfeed.1, hsplits.parted.tight, hsplits.ne⟩, hsecond, hlast, ?_, ?_, ?_,
    hmode'.trans hmode, fun hcont => hbegins ?_⟩
  · intro hbrace
    rw [← head?_rowText hne comment] at hbrace
    obtain ⟨t, ht⟩ := List.head?_eq_some_iff.mp hbrace
    exact not_body_brace t (ht ▸ hbody)
  · intro hopen
    rw [← head?_rowText hne comment] at hopen
    obtain ⟨t, ht⟩ := List.head?_eq_some_iff.mp hopen
    have hsplit := hparted'.split
    rw [ht] at hsplit htight hbody hfeed
    have htight' : Tight (['{'] ++ t) := htight
    have hclass : (classify ([] ++ ['{'])).getLast? = some ('{', .code) := by decide
    obtain ⟨k, hk, _⟩ := exists_row_ending (u := []) hbody.of_opening (by decide) hclass rfl
      (fun hm => hfeed.2.2 (List.mem_cons_of_mem _ hm)) htight'.last_of_append
    have hcode' : ['{'] = v.trim := congrArg Prod.fst (hk.symm.trans hsplit)
    rw [← hcode']
    rfl
  · rw [hends, endsWithBrace_eq, endsWithBrace_eq, hkinds]
  · rwa [hrows, isContinuation_append hsplits.ne hapart']

end JspLayout.Java
