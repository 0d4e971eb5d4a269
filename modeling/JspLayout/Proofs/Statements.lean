import JspLayout.Proofs.Braces
import JspLayout.Proofs.Pieces

/-! Where a line is cut into statements.

    The statements of a line can be told without a scan: the line is cut right after each semicolon of
    its code that no parenthesis is open around, and the pieces are trimmed. Only a comment that is all
    there is after the last cut goes to the statement before it. Main statement: these are the statements
    that the scan finds. The scan and the cuts meet in `piecesFrom`, which cuts characters with their
    kinds one at a time. -/

namespace JspLayout.Java

open Text

/-! ### Cuts by places -/

/-- The open parentheses after a character of the code; one that was not opened is not closed. -/
def depthAfter (depth : Nat) (c : Char) : Nat :=
  if c = '(' then depth + 1 else if c = ')' then depth - 1 else depth

/-- The parentheses that are open at a place of a line. -/
def depthAt (line : Text) (i : Nat) : Nat :=
  (codeAmong ((classify line).take i)).foldl depthAfter 0

/-- Whether a semicolon that no parenthesis is open around stands at a place of a line. -/
def endsAt (line : Text) (i : Nat) : Bool := (line)[i]? = some ';' ∧ depthAt line i = 0

/-- The places of the code at which a statement ends. -/
def statementEnds (line : Text) : List Nat := (codePositions line).filter (endsAt line)

/-- The text cut right after each of the places, which are counted from `start` on. -/
def cutAfter (start : Nat) : List Nat → Text → List Text
  | [], s => [s]
  | i :: is, s => s.take (i + 1 - start) :: cutAfter (i + 1) is (s.drop (i + 1 - start))

/-- The line cut after its statements. -/
def statementPieces (line : Text) : List Text := cutAfter 0 (statementEnds line) line

instance (comment : Text) : Decidable (RunsOn comment) :=
  decidable_of_iff (comment.head? = some '/' ∧ (comment.tail.head? = some '/' ∨
    comment.tail.head? = some '*' ∧ Scan.closesComment comment = false)) <| by
    cases comment <;> simp [RunsOn]

/-- The statements when `earlier` are those before the last piece. A piece that is a comment to the end of
    the line goes to the last of them. -/
def withLast (earlier : List Text) (last : Text) : List Text :=
  match earlier.getLast? with
  | none => trimmed [last]
  | some s =>
    if RunsOn last.trimLeft then earlier.dropLast ++ [s ++ ' ' :: last.trimLeft]
    else earlier ++ trimmed [last]

/-- The statements that the pieces of a line make up. -/
def statementsOf (pieces : List Text) : List Text :=
  withLast (trimmed pieces.dropLast) (pieces.getLastD [])

/-! ### Cuts by characters -/

/-- Whether a character ends a statement at the given depth. -/
def endsStatement (depth : Nat) (x : Char × CharKind) : Bool := x.2 = .code ∧ x.1 = ';' ∧ depth = 0

/-- A text put before the first piece. -/
def onFirst (t : Text) : List Text → List Text
  | [] => [t]
  | p :: ps => (t ++ p) :: ps

/-- The open parentheses after a character with its kind. -/
def depthPast (depth : Nat) (x : Char × CharKind) : Nat :=
  if x.2 = .code then depthAfter depth x.1 else depth

/-- Characters with their kinds, cut after each that ends a statement. -/
def piecesFrom (depth : Nat) : List (Char × CharKind) → List Text
  | [] => [[]]
  | x :: l =>
    if endsStatement depth x then [x.1] :: piecesFrom (depthPast depth x) l
    else onFirst [x.1] (piecesFrom (depthPast depth x) l)

theorem onFirst_ne_nil (t : Text) (ps : List Text) : onFirst t ps ≠ [] := by
  cases ps <;> simp [onFirst]

theorem piecesFrom_ne_nil (depth : Nat) (l : List (Char × CharKind)) : piecesFrom depth l ≠ [] := by
  cases l with
  | nil => simp [piecesFrom]
  | cons x l =>
    rw [piecesFrom]
    split
    · simp
    · exact onFirst_ne_nil _ _

@[simp] theorem onFirst_nil {ps : List Text} (h : ps ≠ []) : onFirst [] ps = ps := by
  cases ps with
  | nil => exact absurd rfl h
  | cons p ps => rfl

theorem onFirst_onFirst (t u : Text) (ps : List Text) :
    onFirst t (onFirst u ps) = onFirst (t ++ u) ps := by
  cases ps <;> simp [onFirst]

/-- Without code there is no cut. -/
theorem piecesFrom_of_ne_code {l : List (Char × CharKind)} (h : ∀ x ∈ l, x.2 ≠ .code) (depth : Nat) :
    piecesFrom depth l = [l.map Prod.fst] := by
  induction l with
  | nil => rfl
  | cons x l ih =>
    obtain ⟨hx, hl⟩ := List.forall_mem_cons.mp h
    have hends : endsStatement depth x = false := by simp [endsStatement, hx]
    rw [piecesFrom, hends, depthPast, if_neg hx, ih hl]
    rfl

/-! ### The places of the cuts -/

/-- The places of the code among characters with their kinds, counted from `start` on. -/
def codePlaces (start : Nat) (l : List (Char × CharKind)) : List Nat :=
  ((l.map Prod.snd).zipIdx start).filterMap fun x => if x.1 = .code then some x.2 else none

theorem codePlaces_cons (start : Nat) (x : Char × CharKind) (l : List (Char × CharKind)) :
    codePlaces start (x :: l) = (if x.2 = .code then [start] else []) ++ codePlaces (start + 1) l := by
  rw [codePlaces, List.map_cons, List.zipIdx_cons, List.filterMap_cons]
  by_cases h : x.2 = .code <;> simp [h, codePlaces]

theorem le_of_mem_codePlaces {start i : Nat} {l : List (Char × CharKind)}
    (h : i ∈ codePlaces start l) : start ≤ i := by
  obtain ⟨x, hx, hi⟩ := List.mem_filterMap.mp h
  obtain rfl : x.2 = i := by
    by_cases hcode : x.1 = .code <;> simp_all
  exact (List.mem_zipIdx hx).1

/-- A character before the first cut belongs to the first piece. -/
theorem cutAfter_cons {start : Nat} {is : List Nat} (h : ∀ i ∈ is, start + 1 ≤ i) (c : Char) (s : Text) :
    cutAfter start is (c :: s) = onFirst [c] (cutAfter (start + 1) is s) := by
  cases is with
  | nil => rfl
  | cons i is =>
    have hle := h i List.mem_cons_self
    obtain ⟨k, rfl⟩ := Nat.exists_eq_add_of_le hle
    have htake : start + 1 + k + 1 - start = k + 1 + 1 := by omega
    have htake' : start + 1 + k + 1 - (start + 1) = k + 1 := by omega
    rw [cutAfter, cutAfter, htake, htake']
    rfl

/-- Cutting at the places of the code that end a statement is cutting one character at a time. -/
theorem cutAfter_codePlaces {line : Text} : ∀ (l before : List (Char × CharKind)),
    classify line = before ++ l →
      cutAfter before.length ((codePlaces before.length l).filter (endsAt line)) (l.map Prod.fst) =
        piecesFrom ((codeAmong before).foldl depthAfter 0) l
  | [], _, _ => rfl
  | x :: l, before, h => by
    have hchar : (line)[before.length]? = some x.1 := by
      rw [← map_fst_classify line, h]
      simp
    have hdepth : depthAt line before.length = (codeAmong before).foldl depthAfter 0 := by
      rw [depthAt, h, List.take_left]
    have hpast : (codeAmong (before ++ [x])).foldl depthAfter 0 =
        depthPast ((codeAmong before).foldl depthAfter 0) x := by
      rw [codeAmong_append, List.foldl_append, depthPast]
      by_cases hx : x.2 = .code <;> simp [codeAmong, hx]
    have ih := cutAfter_codePlaces l (before ++ [x]) (by rw [h]; simp)
    rw [hpast, List.length_append, List.length_singleton] at ih
    rw [codePlaces_cons, List.filter_append, piecesFrom, List.map_cons]
    generalize (codeAmong before).foldl depthAfter 0 = depth at hdepth ih
    have hhere : (if x.2 = .code then [before.length] else []).filter (endsAt line) =
        if endsStatement depth x then [before.length] else [] := by
      by_cases hx : x.2 = .code <;> simp [hx, endsAt, endsStatement, hchar, hdepth, List.filter_cons]
    have hlater : ∀ i ∈ (codePlaces (before.length + 1) l).filter (endsAt line), before.length + 1 ≤ i :=
      fun i hi => le_of_mem_codePlaces (List.mem_filter.mp hi).1
    rw [hhere]
    split
    · rw [List.singleton_append, cutAfter, Nat.add_sub_cancel_left, ← ih]
      rfl
    · rw [List.nil_append, cutAfter_cons hlater, ih]

/-- The pieces of a line are its characters, cut after each that ends a statement. -/
theorem statementPieces_eq (line : Text) : statementPieces line = piecesFrom 0 (classify line) := by
  have h := cutAfter_codePlaces (classify line) [] rfl
  rwa [map_fst_classify] at h

/-! ### Comments to the end of the line -/

theorem RunsOn.trimLeft_eq {comment : Text} (h : RunsOn comment) : comment.trimLeft = comment := by
  obtain ⟨t, rfl, -⟩ := h
  exact trimLeft_of_solid_head (by decide)

/-- Once a comment that takes the rest of its line has begun, it is not closed in what is left. -/
theorem RunsOn.not_commentCloses {u v : Text} (h : RunsOn (u ++ v)) (hne : u ≠ []) (hf : '\n' ∉ u) :
    ¬CommentCloses v (modeAfter .code v.head? u) := by
  obtain ⟨t, ht, hruns⟩ := h
  obtain ⟨c, u, rfl⟩ := List.exists_cons_of_ne_nil hne
  rw [List.cons_append, List.cons.injEq] at ht
  obtain ⟨rfl, rfl⟩ := ht
  rw [List.mem_cons, not_or] at hf
  rw [modeAfter, ← List.head?_append]
  rcases hruns with hhead | ⟨hhead, hopen⟩ <;> rw [hhead]
  · change ¬CommentCloses v (modeAfter .lineComment v.head? u)
    rw [modeAfter_lineComment hf.2]
    exact id
  · cases u with
    | nil =>
      rintro ⟨r, rfl, hr⟩
      exact absurd hr (by simpa [Scan.closesComment] using hopen)
    | cons d u =>
      have hnot : holds ['*', '/'] (u ++ v) = false := hopen
      change ¬CommentCloses v (modeAfter .blockComment v.head? u)
      rw [modeAfter_blockComment_append hnot]
      intro hv
      have hlater : ['*', '/'] <:+: u ++ v :=
        (holds_iff_isInfix.mp hv).trans (List.suffix_append u v).isInfix
      rw [holds_iff_isInfix.mpr hlater] at hnot
      exact absurd hnot (by simp)

/-! ### The statements of a scan -/

theorem withLast_eq {earlier : List Text} {last : Text}
    (h : earlier ≠ [] → ¬RunsOn last.trimLeft) : withLast earlier last = earlier ++ trimmed [last] := by
  rw [withLast]
  split
  · next hnone => rw [List.getLast?_eq_none_iff.mp hnone, List.nil_append]
  · next s hsome => rw [if_neg (h (by rintro rfl; simp at hsome))]

theorem withLast_comment (earlier : List Text) (f : Text) {w comment : Text} (hw : Blank w)
    (h : RunsOn comment) :
    withLast (earlier ++ [f]) (w ++ comment) = earlier ++ [f ++ ' ' :: comment] := by
  rw [withLast, List.getLast?_concat, trimLeft_blank_append hw, h.trimLeft_eq, List.dropLast_concat]
  exact if_pos h

namespace Scan

variable {st : Scan} {s : Text}

theorem fragments_eq_trimmed (st : Scan) : st.fragments = st.done.reverse ++ trimmed [st.text] := by
  rw [fragments_eq, trimmed_singleton]

/-- A fragment in progress that is not blank does not begin with a comment to the end of the line. -/
theorem not_runsOn (htrack : st.Tracks s) (hcloses : CommentCloses s st.mode) (hf : '\n' ∉ st.text)
    (hsolid : ¬Blank st.text) : ¬RunsOn (st.text ++ s).trimLeft := by
  intro hruns
  obtain ⟨w, hw, htext⟩ := exists_blank_trimLeft st.text
  have hne : st.text.trimLeft ≠ [] := fun hnil => hsolid (by rw [htext, hnil, List.append_nil]; exact hw)
  have hmode : st.mode = modeAfter .code s.head? st.text.trimLeft := by
    rw [htrack]
    conv_lhs => rw [htext, modeAfter_append, (read_blank rests_code hw _).1]
  rw [trimLeft_append hsolid] at hruns
  have hf' : '\n' ∉ st.text.trimLeft := fun h => hf (by rw [htext]; exact List.mem_append_right _ h)
  exact hruns.not_commentCloses hne hf' (hmode ▸ hcloses)

/-- A comment goes to the fragment in progress, unless that is blank and another one is finished. -/
theorem attach_open (h : st.done = [] ∨ ¬Blank st.text) (comment : Text) :
    (st.attach comment).text = st.text ++ comment ∧ (st.attach comment).done = st.done := by
  unfold attach
  split
  · next last earlier hdone =>
    have hsolid : st.pending.blank ≠ true := by
      intro hblank
      refine h.resolve_left (by simp [hdone]) fun c hc => ?_
      exact (blank_iff _).mp hblank c (List.mem_reverse.mp hc)
    rw [if_neg hsolid]
    exact ⟨by simp [text], rfl⟩
  · exact ⟨by simp [text], rfl⟩

/-- A comment to the end of the line makes up the last piece with what is in progress. -/
theorem fragments_attach {comment : Text} (hruns : RunsOn comment)
    (hsolid : ¬Blank st.text → ¬RunsOn (st.text ++ comment).trimLeft) :
    (st.attach comment).fragments = withLast st.done.reverse (st.text ++ comment) := by
  by_cases hopen : st.done = [] ∨ ¬Blank st.text
  · obtain ⟨htext, hdone⟩ := attach_open hopen comment
    rw [fragments_eq_trimmed, htext, hdone, withLast_eq]
    intro hne
    exact hsolid (hopen.resolve_left (by simpa using hne))
  · rw [not_or, not_not] at hopen
    obtain ⟨f, earlier, hdone⟩ := List.exists_cons_of_ne_nil hopen.1
    rw [attach_blank hdone hopen.2, hdone, List.reverse_cons, withLast_comment _ _ hopen.2 hruns]

/-- What a character of the code does where braces do not split. -/
theorem code_false (hinline : st.inline = 0) (c : Char) (s : Text) : code false st c s =
    if endsStatement st.parens (c, .code) then (st.push c).flush
    else { st with parens := depthAfter st.parens c }.push c := by
  unfold code
  by_cases hopen : c = '('
  · simp [hopen, endsStatement, depthAfter]
  by_cases hclose : c = ')'
  · simp [hclose, endsStatement, depthAfter]
  by_cases hends : c = ';' ∧ st.parens = 0
  · simp [hends, hinline, endsStatement]
  · have hnot : ¬(c = ';' ∧ st.parens = 0 ∧ st.inline = 0) := fun h => hends ⟨h.1, h.2.1⟩
    simp [hopen, hclose, hends, hnot, endsStatement, depthAfter]

/-- The pieces of what a scan has still to read, what is in progress put before the first. -/
def pieces (st : Scan) (s : Text) : List Text :=
  onFirst st.text (piecesFrom st.parens (classifyFrom st.mode s))

/-- A character at which no statement ends goes to the piece in progress. -/
theorem pieces_push {st' : Scan} {c : Char} {kind : CharKind} {mode : Mode}
    (hstep : st.mode.step c s.head? = (kind, mode))
    (hends : endsStatement st.parens (c, kind) = false) (htext : st'.text = st.text ++ [c])
    (hparens : st'.parens = depthPast st.parens (c, kind)) (hmode : st'.mode = mode) :
    st.pieces (c :: s) = st'.pieces s := by
  rw [pieces, pieces, classifyFrom, hstep, htext, hparens, hmode, piecesFrom, hends]
  exact onFirst_onFirst _ _ _

/-- A character that ends a statement ends the piece in progress. -/
theorem pieces_flush {c : Char} (hmode : st.mode = .code)
    (hstep : st.mode.step c s.head? = (.code, .code))
    (hends : endsStatement st.parens (c, .code) = true) :
    st.pieces (c :: s) = (st.text ++ [c]) :: (st.push c).flush.pieces s := by
  have hsemi : c = ';' := by
    have : c = ';' ∧ st.parens = 0 := by simpa [endsStatement] using hends
    exact this.1
  have hdepth : depthPast st.parens (c, .code) = st.parens := by
    rw [depthPast, if_pos rfl, hsemi]
    rfl
  have hnext : (st.push c).flush.pieces s = piecesFrom st.parens (classifyFrom .code s) := by
    rw [← hmode]
    exact onFirst_nil (piecesFrom_ne_nil _ _)
  rw [hnext, pieces, classifyFrom, hstep, piecesFrom, if_pos hends, hdepth, onFirst]

/-- The statements that a scan has found, with those of the pieces of what it has still to read. -/
def statements (st : Scan) (s : Text) : List Text :=
  withLast (st.done.reverse ++ trimmed (st.pieces s).dropLast) ((st.pieces s).getLastD [])

theorem statements_push {st' : Scan} {c : Char} {kind : CharKind} {mode : Mode}
    (hstep : st.mode.step c s.head? = (kind, mode))
    (hends : endsStatement st.parens (c, kind) = false) (htext : st'.text = st.text ++ [c])
    (hparens : st'.parens = depthPast st.parens (c, kind)) (hmode : st'.mode = mode)
    (hdone : st'.done = st.done) : st.statements (c :: s) = st'.statements s := by
  rw [statements, statements, pieces_push hstep hends htext hparens hmode, hdone]

theorem statements_flush {c : Char} (hmode : st.mode = .code)
    (hstep : st.mode.step c s.head? = (.code, .code))
    (hends : endsStatement st.parens (c, .code) = true) :
    st.statements (c :: s) = (st.push c).flush.statements s := by
  have hdone : (st.push c).flush.done.reverse = st.done.reverse ++ trimmed [st.text ++ [c]] := by
    rw [← text_push]
    exact fragments_eq_trimmed (st.push c)
  rw [statements, statements, pieces_flush hmode hstep hends, hdone, List.append_assoc, ← trimmed_append]
  have hne : (st.push c).flush.pieces s ≠ [] := onFirst_ne_nil _ _
  obtain ⟨p, ps, hps⟩ := List.exists_cons_of_ne_nil hne
  rw [hps]
  rfl

/-- At the end of the line, the fragment in progress is the last piece. -/
theorem fragments_eq_statements (htrack : st.Tracks []) (hcloses : CommentCloses [] st.mode)
    (hf : '\n' ∉ st.text) : st.fragments = st.statements [] := by
  have hpieces : st.pieces [] = [st.text] := by simp [pieces, classifyFrom, piecesFrom, onFirst]
  have hlast : ¬RunsOn st.text.trimLeft := by
    by_cases hblank : Blank st.text
    · rw [trimLeft_blank hblank]
      simp [RunsOn]
    · have := not_runsOn htrack hcloses hf hblank
      rwa [List.append_nil] at this
  rw [statements, hpieces, fragments_eq_trimmed]
  exact (withLast_eq fun _ => hlast).symm.trans (by simp [trimmed])

/-- A comment to the end of the line is part of the last piece. -/
theorem attach_eq_statements (hmode : st.mode = .code) (htrack : st.Tracks s)
    (hcloses : CommentCloses s st.mode) (hf : '\n' ∉ st.text ++ s) (hruns : RunsOn s) :
    (st.attach s).fragments = st.statements s := by
  rw [List.mem_append, not_or] at hf
  have hkinds : ∀ x ∈ classify s, x.2 ≠ .code := fun x hx => by
    rw [hruns.kinds hf.2 x hx]
    simp
  have hpieces : st.pieces s = [st.text ++ s] := by
    rw [pieces, hmode, ← classify, piecesFrom_of_ne_code hkinds, map_fst_classify, onFirst]
  rw [statements, hpieces, fragments_attach hruns (not_runsOn htrack hcloses hf.1)]
  simp [trimmed]

/-- The rest of a line is cut into its pieces. -/
theorem run_false : ∀ {s : Text} {st : Scan}, '\n' ∉ st.text ++ s → st.Tracks s →
    CommentCloses s st.mode → st.inline = 0 → (run false st s).1 = st.statements s
  | [], st, hf, htrack, hcloses, _ =>
    fragments_eq_statements htrack hcloses (by rwa [List.append_nil] at hf)
  | c :: s, st, hf, htrack, hcloses, hinline => by
    have hnext : '\n' ∉ st.text ++ [c] ++ s := by rwa [List.append_assoc]
    have hc : c ≠ '\n' := by rintro rfl; simp at hf
    rw [run]
    split
    · next hc =>
      exact attach_eq_statements hc.1 htrack hcloses hf ⟨s, by rw [hc.2.1], Or.inl hc.2.2⟩
    split
    · next hc =>
      exact attach_eq_statements hc.1 htrack hcloses hf ⟨s, by rw [hc.2.1], Or.inr hc.2.2⟩
    next hline hblock =>
    have hcloses' := hcloses.step hline hblock
    rw [Scan.step_eq hc hline]
    split
    · next mode hstep =>
      have hcode : st.mode = .code := eq_code_of_kind (by rw [hstep]) hc
      obtain rfl : mode = .code := by
        have := mode_eq_code_of_kind (congrArg Prod.fst hstep)
        rwa [hstep] at this
      have hst : ({ st with mode := .code } : Scan) = st := by rw [← hcode]
      rw [hstep, ← hcode] at hcloses'
      obtain ⟨htrack', -⟩ := leads_code false hcode htrack (by rwa [hcode] at hstep)
      rw [hst]
      rw [code_false hinline] at htrack' ⊢
      split at htrack'
      · next hends =>
        have hrest : '\n' ∉ s := fun h => hf (by simp [h])
        rw [if_pos hends, statements_flush hcode hstep hends]
        exact run_false hrest htrack' hcloses' hinline
      · next hends =>
        have hparens : depthPast st.parens (c, .code) = depthAfter st.parens c := if_pos rfl
        have htext : ({ st with parens := depthAfter st.parens c }.push c).text = st.text ++ [c] :=
          text_push _ c
        rw [if_neg hends,
          statements_push hstep (Bool.eq_false_iff.mpr hends) htext hparens.symm hcode rfl]
        exact run_false (by rwa [htext]) htrack' hcloses' hinline
    · next kind mode hkind hstep =>
      have hends : endsStatement st.parens (c, kind) = false := by
        simpa [endsStatement] using fun h => absurd h hkind
      have hparens : depthPast st.parens (c, kind) = st.parens := if_neg hkind
      have htext : (({ st with mode } : Scan).push c).text = st.text ++ [c] := text_push _ c
      have htrack' : Tracks { st.push c with mode } s := tracks_push htrack (by rw [hstep])
      rw [hstep] at hcloses'
      rw [statements_push hstep hends htext hparens.symm rfl rfl]
      exact run_false (by rwa [htext]) htrack' hcloses' hinline

end Scan

/-- The statements of a line are its pieces between the semicolons of the code outside parentheses. -/
theorem splitStatements_eq {line : Text} (hf : '\n' ∉ line) :
    splitStatements line = statementsOf (statementPieces line) := by
  have hpieces : Scan.pieces {} line = statementPieces line := by
    rw [statementPieces_eq]
    exact onFirst_nil (piecesFrom_ne_nil _ _)
  have hrun : (Scan.run false {} line).1 = Scan.statements {} line := Scan.run_false hf rfl trivial rfl
  rw [splitStatements, scan, hrun, Scan.statements, hpieces]
  rfl

/-- Semicolons of a header, of a literal and of a comment end nothing, and the comment at the end stays
    with the statement before it. -/
theorem splitStatements_eq_header :
    let line : Text := "for (i = 0; i < n; i++) x(\";\"); /* ; */ y(); // z;".toList
    let found := ["for (i = 0; i < n; i++) x(\";\");".toList, "/* ; */ y(); // z;".toList]
    '\n' ∉ line ∧ splitStatements line = statementsOf (statementPieces line) ∧
      statementsOf (statementPieces line) = found := by
  intro line found
  have hf : '\n' ∉ line := by decide +kernel
  exact ⟨hf, splitStatements_eq hf, by decide +kernel⟩

end JspLayout.Java
