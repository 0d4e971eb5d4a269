import JspLayout.Proofs.Places
import JspLayout.Proofs.Words
import Mathlib.Data.List.Chain

/-! The pieces that a line is cut into.

    A piece is what the scan reads without a cut, or with the first cut after the character that
    finishes it; a closing brace may stand before it. Main statements: the fragments of a line are
    pieces, and scanning a fragment alone gives it back as one fragment. -/

namespace JspLayout.Java

open Text

/-! ### Pieces -/

/-- A text that the scan reads without a cut from the start of a fragment to the place `q`. -/
def Reaches (s : Text) (q : Place) : Prop := ({} : Place).walk? (solidKinds s) = some q

/-- A comment that takes the rest of its line. -/
def RunsOn (comment : Text) : Prop :=
  ∃ t, comment = '/' :: t ∧
    (t.head? = some '/' ∨ t.head? = some '*' ∧ Scan.closesComment comment = false)

/-- What may follow the character that finishes a fragment. -/
inductive Ending : Text → Prop
  | none : Ending []
  | comment {comment : Text} : RunsOn comment → Ending (' ' :: comment)

/-- A fragment, apart from a closing brace before it: no cut is made in it, or the first one after a
    character that finishes it. -/
inductive Body : Text → Prop
  | whole {s : Text} {q : Place} : Reaches s q → Body s
  | shut {s e : Text} {c : Char} {q : Place} : Reaches s q → modeAfter .code none s = .code →
      q.read? (c, .code) = none → c ≠ '}' → Ending e → Body (s ++ c :: e)

/-- A fragment. A closing brace that it begins with stands alone or is followed by what stays with
    it. -/
inductive Piece : Text → Prop
  | plain {s : Text} : Body s → Piece s
  | glued {s : Text} : gluesToClose s.trimLeft = true → Body s → Piece ('}' :: s)
  | lone {e : Text} : Ending e → Piece ('}' :: e)

/-- The characters that finish a fragment. -/
theorem finishes {q : Place} {c : Char} (h : q.read? (c, .code) = none) (hc : c ≠ '}') :
    c = ';' ∨ c = '{' := by
  obtain ⟨_, _, rfl | ⟨rfl, _⟩ | rfl⟩ := Place.read?_eq_none h
  · exact Or.inl rfl
  · exact Or.inr rfl
  · exact absurd rfl hc

namespace Scan

theorem attach_blank {st : Scan} {f : Text} {earlier : List Text} (hdone : st.done = f :: earlier)
    (hblank : Blank st.text) (comment : Text) :
    (st.attach comment).fragments = earlier.reverse ++ [f ++ ' ' :: comment] := by
  have hpending : st.pending.blank = true :=
    (blank_iff _).mpr fun c hc => hblank c (List.mem_reverse.mpr hc)
  rw [attach, hdone]
  simp only [hpending, if_true]
  rw [fragments_eq, List.reverse_cons]
  exact List.append_nil _

/-- A comment that takes the rest of the line ends the scan. -/
theorem run_runsOn {comment : Text} (h : RunsOn comment) {st : Scan} (hmode : st.mode = .code) :
    (run true st comment).1 = (st.attach comment).fragments := by
  obtain ⟨t, rfl, ht⟩ := h
  rw [run]
  split
  · rfl
  · next hline =>
    rcases ht with ht | ⟨ht, hopen⟩
    · exact absurd ⟨hmode, rfl, ht⟩ hline
    · rw [if_pos ⟨hmode, rfl, ht, hopen⟩]

/-- What follows the character that finishes a fragment stays with the fragment. -/
theorem run_ending {e f : Text} (he : Ending e) {st : Scan} (hmode : st.mode = .code)
    (hdone : st.done = [f]) (htext : st.text = []) : (run true st e).1 = [f ++ e] := by
  cases he with
  | none =>
    rw [run, fragments_eq, htext, hdone]
    simp [trim, trimLeft, trimRight, dropEndWhile]
  | @comment comment hruns =>
    have hspace : Blank [' '] := Blank.cons (by decide) blank_nil
    have hwalk : st.place.walk? ((trace st.mode comment.head? [' ']).map fun x => (x.1, x.2.2)) =
        some st.place := by
      have hblank : isBlank ' ' = true := by decide
      rw [hmode, trace, List.map_cons, Place.walk?_cons, Place.read?_blank hblank]
      rfl
    obtain ⟨st', hrun, htext', hdone', hmode', _⟩ := run_walk (s := comment) st (by decide)
      (by rw [hmode]; exact (read_blank rests_code hspace _).1) hwalk
    rw [htext, List.nil_append] at htext'
    rw [hdone] at hdone'
    have hrun' : run true st (' ' :: comment) = run true st' comment := hrun
    rw [hrun', run_runsOn hruns hmode', attach_blank hdone' (htext' ▸ hspace)]
    rfl

/-- What is read up to a character that finishes the fragment, and what may follow that character, is
    read as one fragment. -/
theorem run_shut {s e : Text} {c : Char} {q : Place} (hreach : Reaches s q)
    (hcode : modeAfter .code none s = .code) (hnone : q.read? (c, .code) = none) (hc : c ≠ '}')
    (he : Ending e) (hf : '\n' ∉ s) {st : Scan} (hmode : st.mode = .code) (hplace : st.place = {})
    (hdone : st.done = []) (hhead : ∀ d ∈ (st.text ++ (s ++ [c])).head?, isBlank d = false) :
    (run true st (s ++ c :: e)).1 = [st.text ++ (s ++ c :: e)] := by
  have hc' := finishes hnone hc
  have hplain : Plain (some c) := by rcases hc' with rfl | rfl <;> decide
  have hblank : isBlank c = false := by rcases hc' with rfl | rfl <;> decide
  obtain ⟨htrace, hmode'⟩ := trace_eq_of_apart (s := s) (Or.inl hplain) .code
  obtain ⟨st', hrun, htext', hdone', hmode'', hplace'⟩ := run_walk (s := c :: e) st (p := q) hf
    (by rw [hmode, List.head?_cons, hmode', hcode])
    (by
      rw [hplace, hmode, List.head?_cons, htrace, ← classifyFrom_eq_trace, ← classify,
        ← walk?_solidKinds]
      exact hreach)
  -- the character finishes the fragment
  have hstep : run true st' (c :: e) = run true (st'.push c).flush e := by
    have hquote : ∀ next, Scan.step .code c next = (.code, .code) := by
      intro next
      rcases hc' with rfl | rfl <;> simp [Scan.step]
    have hslash : c ≠ '/' := by rcases hc' with rfl | rfl <;> decide
    have hsame : ({ st' with mode := .code } : Scan) = st' := by rw [← hmode'']
    rw [run, if_neg (by tauto), if_neg (by tauto), hmode'', hquote]
    simp only [hsame]
    rw [Place.read?, if_pos rfl, Option.map_eq_none_iff] at hnone
    rw [code_eq, hplace', hnone]
    simp only [if_neg hc]
  have htext : st'.text ++ [c] = st.text ++ (s ++ [c]) := by rw [htext', List.append_assoc]
  have htrim : (st'.text ++ [c]).trim = st'.text ++ [c] := by
    refine Tight.trim_eq ⟨by rwa [htext], fun d hd => ?_⟩
    rw [List.getLast?_concat, Option.mem_some_iff] at hd
    exact hd ▸ hblank
  have hfinished : (st'.push c).flush.done = [st'.text ++ [c]] := by
    rw [flush, ← text, text_push, htrim]
    simp [push, hdone', hdone]
  have hmode₃ : (st'.push c).flush.mode = .code := hmode''
  rw [hrun, hstep, run_ending he hmode₃ hfinished rfl, htext]
  simp

/-- A body after what the fragment begins with is read as one fragment. -/
theorem run_body {s : Text} (h : Body s) (hf : '\n' ∉ s) {st : Scan} (hmode : st.mode = .code)
    (hplace : st.place = {}) (hdone : st.done = []) (htight : Tight (st.text ++ s))
    (hne : st.text ++ s ≠ []) : (run true st s).1 = [st.text ++ s] := by
  cases h with
  | whole hreach =>
    have hopen : (st.place.walk? (classifyFrom st.mode s)).isSome = true := by
      rw [hplace, hmode, ← classify, ← walk?_solidKinds, hreach]
      rfl
    rw [run_open st hf hdone hopen, htight.trim_eq, if_neg hne]
  | @shut b e c q hreach hcode hnone hc he =>
    rw [List.mem_append, not_or] at hf
    have hassoc : st.text ++ (b ++ c :: e) = (st.text ++ (b ++ [c])) ++ e := by simp
    rw [hassoc] at htight
    exact run_shut hreach hcode hnone hc he hf.1 hmode hplace hdone htight.head_of_append

end Scan

/-- A closing brace at the start of a line stays with what follows it, or is a fragment of its own. -/
theorem scan_brace (s : Text) : scan ('}' :: s) true = Scan.run true
    (if gluesToClose s.trimLeft then Scan.push {} '}' else (Scan.push {} '}').flush) s := by
  have hflush : ({} : Scan).flush = {} := rfl
  have hnone : ({} : Scan).place.bracket? '}' = none := by decide
  have hstep : Scan.step .code '}' s.head? = (.code, .code) := by simp [Scan.step]
  rw [scan, Scan.run, if_neg (by simp), if_neg (by simp), hstep]
  simp only [Scan.code_eq, hnone, hflush, if_true]

theorem Ending.gluesToClose {e : Text} (h : Ending e) : Java.gluesToClose e.trimLeft = false := by
  cases h with
  | none => rfl
  | comment hruns =>
    obtain ⟨t, rfl, _⟩ := hruns
    simp [trimLeft, Java.gluesToClose, keyword?, closingWords, isBlank, afterWord?, after?]

/-- A closing brace that nothing stays with is one fragment with what may follow. -/
theorem scan_lone {e : Text} (he : Ending e) : (scan ('}' :: e) true).1 = ['}' :: e] := by
  have hdone : (Scan.push {} '}').flush.done = [['}']] := by decide
  rw [scan_brace, if_neg (by simp [he.gluesToClose])]
  exact Scan.run_ending he rfl hdone rfl

/-- A piece is cut no further. -/
theorem scan_piece {f : Text} (h : Piece f) (hf : '\n' ∉ f) (htight : Tight f) (hne : f ≠ []) :
    (scan f true).1 = [f] := by
  cases h with
  | plain hbody => exact Scan.run_body hbody hf rfl rfl rfl htight hne
  | glued hglues hbody =>
    rw [List.mem_cons, not_or] at hf
    rw [scan_brace, if_pos hglues]
    exact Scan.run_body hbody hf.2 rfl (by decide) rfl htight hne
  | lone he => exact scan_lone he

theorem Ending.endsWord {e : Text} (h : Ending e) : Text.endsWord e = true := by
  cases h with
  | none => rfl
  | comment => simp [Text.endsWord, isWord_of_isBlank (c := ' ') (by decide)]

/-! ### The fragments of a line are pieces -/

/-- What may stand before the body of a fragment: nothing, or a closing brace that stays with it. -/
def Leader (lead s : Text) : Prop :=
  lead = [] ∨ lead = ['}'] ∧ gluesToClose s.trimLeft = true

theorem trim_cons_solid {c : Char} (hc : isBlank c = false) (s : Text) :
    trim (c :: s) = c :: s.trimRight := by
  obtain ⟨w, hw, hs⟩ := exists_blank_trimRight s
  have htight : Tight (c :: s.trimRight) := by
    refine ⟨fun d hd => ?_, fun d hd => ?_⟩
    · rw [List.head?_cons, Option.mem_some_iff] at hd
      exact hd ▸ hc
    · cases hr : s.trimRight with
      | nil =>
        rw [hr, List.getLast?_singleton, Option.mem_some_iff] at hd
        exact hd ▸ hc
      | cons x r =>
        refine last_trimRight s d ?_
        rw [hr] at hd ⊢
        rwa [List.getLast?_cons_cons] at hd
  have happ : c :: s = (c :: s.trimRight) ++ w := by rw [List.cons_append, ← hs]
  rw [happ, trim_append_blank hw, htight.trim_eq]

theorem trim_concat {c : Char} (hc : isBlank c = false) (s : Text) :
    trim (s ++ [c]) = s.trimLeft ++ [c] := by
  have hleft : trimLeft (s ++ [c]) = s.trimLeft ++ [c] := by
    by_cases hb : Blank s
    · rw [trimLeft_blank_append hb, trimLeft_blank hb, trimLeft_of_solid_head hc]
      rfl
    · exact trimLeft_append hb _
  rw [trim, hleft, trimRight_of_solid_last hc]

theorem Leader.piece {lead s : Text} (h : Leader lead s) {q : Place} (hs : Reaches s q) :
    Piece (lead ++ s).trim := by
  rcases h with rfl | ⟨rfl, hglues⟩
  · refine .plain (.whole (q := q) ?_)
    rwa [List.nil_append, Reaches, solidKinds_trim]
  · rw [List.singleton_append, trim_cons_solid (by decide)]
    refine .glued (by rwa [gluesToClose_trimRight]) (.whole (q := q) ?_)
    rwa [Reaches, solidKinds_trimRight]

/-- A fragment that its last character finishes, so that what may follow stays with it. -/
inductive Shut : Text → Prop
  | body {lead s : Text} {c : Char} {q : Place} : Leader lead (s ++ [c]) → Reaches s q →
      modeAfter .code none s = .code → q.read? (c, .code) = none → c ≠ '}' →
        Shut (lead ++ (s ++ [c]))
  | lone : Shut ['}']

theorem Shut.trim {f : Text} (h : Shut f) : Shut f.trim := by
  cases h with
  | lone => exact .lone
  | @body lead s c q hlead hreach hcode hnone hc =>
    have hblank : isBlank c = false := by rcases finishes hnone hc with rfl | rfl <;> decide
    rcases hlead with rfl | ⟨rfl, hglues⟩
    · have hread : modeAfter .code none s.trimLeft = .code := by
        obtain ⟨w, hw, hsw⟩ := exists_blank_trimLeft s
        rw [← (read_blank_append rests_code hw s.trimLeft).1, ← hsw, hcode]
      have hlead : Leader [] (s.trimLeft ++ [c]) := Or.inl rfl
      have hshut := Shut.body hlead (by rwa [Reaches, solidKinds_trimLeft]) hread hnone hc
      rwa [List.nil_append, trim_concat hblank]
    · rw [List.singleton_append, trim_cons_solid (by decide), trimRight_of_solid_last hblank]
      have hlead : Leader ['}'] (s ++ [c]) := Or.inr ⟨rfl, hglues⟩
      exact .body hlead hreach hcode hnone hc

/-- What may follow the character that finishes a fragment does not change what stands before it. -/
theorem Leader.append {lead s e : Text} {c : Char} (h : Leader lead (s ++ [c]))
    (hc : isBlank c = false) (he : Ending e) : Leader lead (s ++ c :: e) := by
  refine h.imp_right (And.imp_right fun hglues => ?_)
  have hsolid : ¬Blank (s ++ [c]) := fun hb => by
    rw [hb c (by simp)] at hc
    exact absurd hc (by simp)
  have hne : (s ++ [c]).trimLeft ≠ [] := by
    intro hnil
    rw [hnil] at hglues
    exact absurd hglues (by simp [gluesToClose])
  rw [List.append_cons, trimLeft_append hsolid, gluesToClose_append hne (Or.inl he.endsWord), hglues]

/-- What may follow a fragment that is finished makes one piece with it. -/
theorem Shut.piece {f e : Text} (h : Shut f) (he : Ending e) : Piece (f ++ e) := by
  cases h with
  | lone => exact .lone he
  | @body lead s c q hlead hreach hcode hnone hc =>
    have hblank : isBlank c = false := by rcases finishes hnone hc with rfl | rfl <;> decide
    have hbody : Body (s ++ c :: e) := .shut hreach hcode hnone hc he
    have hassoc : (lead ++ (s ++ [c])) ++ e = lead ++ (s ++ c :: e) := by simp
    rw [hassoc]
    rcases hlead.append hblank he with rfl | ⟨rfl, hglues⟩
    · exact .plain hbody
    · exact .glued hglues hbody

/-- What may follow a fragment that is finished is read as one fragment with it. -/
theorem Shut.scan {f e : Text} (h : Shut f) (hf : '\n' ∉ f)
    (hhead : ∀ c ∈ f.head?, isBlank c = false) (he : Ending e) :
    (Java.scan (f ++ e) true).1 = [f ++ e] := by
  cases h with
  | lone => exact scan_lone he
  | @body lead s c q hlead hreach hcode hnone hc =>
    have hblank : isBlank c = false := by rcases finishes hnone hc with rfl | rfl <;> decide
    rw [List.mem_append, not_or, List.mem_append, not_or] at hf
    have hassoc : (lead ++ (s ++ [c])) ++ e = lead ++ (s ++ c :: e) := by simp
    rw [hassoc]
    rcases hlead.append hblank he with rfl | ⟨rfl, hglues⟩
    · exact Scan.run_shut hreach hcode hnone hc he hf.2.1 rfl rfl rfl hhead
    · rw [List.singleton_append, scan_brace, if_pos hglues]
      exact Scan.run_shut hreach hcode hnone hc he hf.2.1 rfl (by decide) rfl hhead

theorem kinds_lineComment {s : Text} (hf : '\n' ∉ s) :
    ∀ x ∈ classifyFrom .lineComment s, x.2 = .comment := by
  induction s with
  | nil => simp [classifyFrom]
  | cons c s ih =>
    rw [List.mem_cons, not_or] at hf
    have hstep : Mode.step .lineComment c s.head? = (.comment, .lineComment) := by
      simp [Mode.step, Ne.symm hf.1]
    rw [classifyFrom, hstep]
    exact List.forall_mem_cons.mpr ⟨rfl, ih hf.2⟩

theorem kinds_blockComment {s : Text} (h : holds ['*', '/'] s = false) :
    ∀ x ∈ classifyFrom .blockComment s, x.2 = .comment := by
  induction s with
  | nil => simp [classifyFrom]
  | cons c s ih =>
    rw [← Bool.not_eq_true, holds_iff_isInfix, List.infix_cons_iff, not_or, ← holds_iff_isInfix,
      Bool.not_eq_true] at h
    have hnot : ¬(c = '*' ∧ s.head? = some '/') := by
      rintro ⟨rfl, hs⟩
      obtain ⟨t, rfl⟩ := List.head?_eq_some_iff.mp hs
      exact h.1 ⟨t, rfl⟩
    have hstep : Mode.step .blockComment c s.head? = (.comment, .blockComment) := by
      rw [Mode.step, if_neg hnot]
    rw [classifyFrom, hstep]
    exact List.forall_mem_cons.mpr ⟨rfl, ih h.2⟩

/-- All of a comment that takes the rest of its line is comment. -/
theorem RunsOn.kinds {comment : Text} (h : RunsOn comment) (hf : '\n' ∉ comment) :
    ∀ x ∈ classify comment, x.2 = .comment := by
  obtain ⟨t, rfl, ht⟩ := h
  rw [List.mem_cons, not_or] at hf
  rcases ht with ht | ⟨ht, hopen⟩
  · rw [classify, classifyFrom, ht]
    exact List.forall_mem_cons.mpr ⟨rfl, kinds_lineComment hf.2⟩
  · obtain ⟨r, rfl⟩ := List.head?_eq_some_iff.mp ht
    have hnot : holds ['*', '/'] r = false := hopen
    refine List.forall_mem_cons.mpr ⟨rfl, List.forall_mem_cons.mpr ⟨rfl, ?_⟩⟩
    exact kinds_blockComment hnot

theorem endsWord_of_stop {s : Text} (hs : s = [] ∨ s.head? = some '}') : endsWord s = true := by
  rcases hs with rfl | hs
  · rfl
  · obtain ⟨t, rfl⟩ := List.head?_eq_some_iff.mp hs
    have hbrace : isWord '}' = false := by decide +kernel
    simp [endsWord, hbrace]

theorem getLast?_of_endsWithBrace {s : Text} (h : endsWithBrace s = true) :
    s.trimRight.getLast? = some '}' := by
  have hlast : (classify s.trimRight).getLast? = some ('}', .code) := by simpa [endsWithBrace] using h
  rw [← map_fst_classify s.trimRight, List.getLast?_map, hlast]
  rfl

/-- A fragment as it is left in a line that ends with `last`: a piece without blanks around it, or one
    that its last character finishes, with the comment at the end of the line after it. -/
inductive Uncut (last : Option Char) : Text → Prop
  | tight {f : Text} : Tight f → f ≠ [] → Piece f → Uncut last f
  | commented {f k : Text} : Tight f → Shut f → RunsOn k → k.getLast? = last →
      Uncut last (f ++ ' ' :: k)

theorem Uncut.scan {last : Option Char} {f : Text} (h : Uncut last f) (hf : '\n' ∉ f) :
    (Java.scan f true).1 = [f] := by
  cases h with
  | tight htight hne hpiece => exact scan_piece hpiece hf htight hne
  | commented htight hshut hruns _ =>
    rw [List.mem_append, not_or] at hf
    exact hshut.scan hf.1 htight.1 (.comment hruns)

theorem Shut.ne_nil {f : Text} (h : Shut f) : f ≠ [] := by
  cases h <;> simp

/-- Where the line ends without a blank, so does every fragment. -/
theorem Uncut.tight_of_last {last : Option Char} {f : Text} (h : Uncut last f)
    (hlast : ∀ c ∈ last, isBlank c = false) : Tight f ∧ f ≠ [] ∧ Piece f := by
  cases h with
  | tight htight hne hpiece => exact ⟨htight, hne, hpiece⟩
  | @commented f k htight hshut hruns hk =>
    refine ⟨⟨?_, ?_⟩, by simp, hshut.piece (.comment hruns)⟩
    · obtain ⟨c, t, rfl⟩ := List.exists_cons_of_ne_nil hshut.ne_nil
      exact htight.1
    · obtain ⟨t, rfl, _⟩ := hruns
      rw [List.append_cons, List.getLast?_append_of_ne_nil _ (by simp), hk]
      exact hlast

/-- A fragment or line that is not joined to the one before it. -/
def Unjoined (before after : Text) : Prop :=
  endsWithBrace before = true → isContinuation after.trim = false

theorem unjoined_nil (s : Text) : Unjoined [] s := fun hbrace => absurd hbrace (by decide)

namespace Scan

variable {st : Scan} {c : Char} {s prev : Text}

/-- What holds of a scan before the rest `s` of a line that stands after `prev`. The finished fragments
    are pieces, and if nothing is in progress the last one was finished by its last character; none of
    them and nothing that follows would be joined to the one before; and what is in progress has been
    read without a cut. -/
structure Sound (prev : Text) (st : Scan) (s : Text) : Prop where
  done : ∀ f ∈ st.done, Tight f ∧ f ≠ [] ∧ Piece f
  last : Blank st.text → ∀ f ∈ st.done.head?, Shut f
  linked : (st.done ++ [prev]).IsChain fun f before => Unjoined before f
  next : ∀ f ∈ (st.done ++ [prev]).head?, endsWithBrace f = true →
    isContinuation (st.text ++ s).trimLeft = false
  body : ∃ lead g, st.text = lead ++ g ∧ Leader lead (g ++ s) ∧
    st.mode = modeAfter .code s.head? g ∧
      ({} : Place).walk? ((trace .code s.head? g).map fun x => (x.1, x.2.2)) = some st.place

/-- Finished fragments stand last one first. -/
theorem isChain_reverse_done {done : List Text}
    (h : (done ++ [prev]).IsChain fun f before => Unjoined before f) :
    (prev :: done.reverse).IsChain Unjoined := by
  have hreverse := List.isChain_reverse.mpr h
  rwa [List.reverse_append] at hreverse

theorem sound_start (h : Unjoined prev s) : Sound prev {} s := by
  refine ⟨by simp, by simp, .singleton _, ?_, [], [], rfl, Or.inl rfl, rfl, rfl⟩
  intro f hf hbrace
  rw [List.nil_append, List.head?_cons, Option.mem_some_iff] at hf
  subst hf
  exact (isContinuation_of_trim s).symm.trans (h hbrace)

/-- A character without a cut. -/
theorem Sound.push {st' : Scan} (h : st.Sound prev (c :: s)) (htext : st'.text = st.text ++ [c])
    (hdone : st'.done = st.done) (hmode : st'.mode = (st.mode.step c s.head?).2)
    (hplace : st.place.read? (c, (st.mode.step c s.head?).1) = some st'.place) :
    st'.Sound prev s := by
  obtain ⟨lead, g, hg, hlead, hm, hwalk⟩ := h.body
  rw [List.head?_cons] at hm hwalk
  refine ⟨hdone ▸ h.done, ?_, hdone ▸ h.linked, ?_, lead, g ++ [c], ?_, ?_, ?_, ?_⟩
  · intro hblank f hf
    rw [hdone] at hf
    refine h.last (fun d hd => hblank d ?_) f hf
    rw [htext]
    exact List.mem_append_left _ hd
  · rw [hdone, htext, List.append_assoc]
    exact h.next
  · rw [htext, hg, List.append_assoc]
  · rwa [List.append_assoc]
  · rw [hmode, hm, modeAfter_append]
    rfl
  · rw [trace_append, List.map_append, Place.walk?_append, List.head?_cons, Option.some_or, hwalk,
      ← hm]
    simp only [trace, List.head?_nil, Option.none_or, List.map_cons, List.map_nil, Option.bind_some,
      Place.walk?_cons, hplace]
    rfl

/-- A fragment that is finished next is not joined to the one before it. -/
theorem Sound.unjoined {t r : Text} (h : st.Sound prev s) (hparts : st.text ++ s = t ++ r)
    (ht : ¬Blank t) (hr : WordsApart t r) : ∀ f ∈ (st.done ++ [prev]).head?, Unjoined f t.trim := by
  intro f hf hbrace
  rw [(tight_trim t).trim_eq, ← isContinuation_trim ht hr, ← hparts]
  exact h.next f hf hbrace

/-- Before the end of the line or a closing brace, what is in progress is a piece. -/
theorem Sound.piece (h : st.Sound prev s) (hs : s = [] ∨ s.head? = some '}') :
    Piece st.text.trim := by
  obtain ⟨lead, g, hg, hlead, _, hwalk⟩ := h.body
  have hplain : Plain s.head? := by rcases hs with rfl | hs <;> simp [Plain, *]
  rw [(trace_eq_of_apart (Or.inl hplain) .code).1, ← classifyFrom_eq_trace, ← classify,
    ← walk?_solidKinds] at hwalk
  rw [hg]
  refine Leader.piece (hlead.imp_right (And.imp_right fun hglues => ?_)) hwalk
  by_cases hb : Blank g
  · -- nothing that stays with a closing brace follows
    rw [trimLeft_blank_append hb] at hglues
    rcases hs with rfl | hs
    · exact absurd hglues (by simp [trimLeft, gluesToClose])
    · obtain ⟨t, rfl⟩ := List.head?_eq_some_iff.mp hs
      exact absurd hglues (by
        simp [trimLeft, gluesToClose, keyword?, closingWords, isBlank, afterWord?, after?])
  · rwa [← gluesToClose_of_trim, ← gluesToClose_trim hb (Or.inl (endsWord_of_stop hs))]

/-- Finishing what is in progress at the end of the line or before a closing brace. -/
theorem Sound.flush (h : st.Sound prev s) (hs : s = [] ∨ s.head? = some '}') :
    (∀ f ∈ st.flush.done, Tight f ∧ f ≠ [] ∧ Piece f) ∧
      (st.flush.done ++ [prev]).IsChain fun f before => Unjoined before f := by
  by_cases hb : Blank st.text
  · have hdone : st.flush.done = st.done := by
      rw [Scan.flush, ← text, trim_blank hb]
      rfl
    rw [hdone]
    exact ⟨h.done, h.linked⟩
  · have hne : st.text.trim ≠ [] := fun hnil => hb ((trim_eq_nil_iff _).mp hnil)
    have hdone : st.flush.done = st.text.trim :: st.done := by
      rw [Scan.flush, ← text]
      exact if_neg hne
    rw [hdone]
    refine ⟨List.forall_mem_cons.mpr ⟨⟨tight_trim _, hne, h.piece hs⟩, h.done⟩,
      List.isChain_cons.mpr ⟨?_, h.linked⟩⟩
    exact h.unjoined rfl hb (Or.inl (endsWord_of_stop hs))

/-- After a cut nothing is open. -/
theorem sound_of_cut (st : Scan) (hdone : ∀ f ∈ st.done, Tight f ∧ f ≠ [] ∧ Piece f)
    (hlast : ∀ f ∈ st.done.head?, Shut f)
    (hlinked : (st.done ++ [prev]).IsChain fun f before => Unjoined before f)
    (hnext : ∀ f ∈ (st.done ++ [prev]).head?, endsWithBrace f = true →
      isContinuation s.trimLeft = false)
    (htext : st.text = []) (hmode : st.mode = .code) (hparens : st.parens = 0)
    (hinline : st.inline = 0) : st.Sound prev s := by
  have hpending : st.pending = [] := by simpa [text] using htext
  refine ⟨hdone, fun _ => hlast, hlinked, by rwa [htext], [], [], htext, Or.inl rfl, hmode, ?_⟩
  simp [trace, place, hparens, hinline, opensInitializer, hpending]

/-- A character that finishes the fragment in progress. -/
theorem Sound.shut (h : st.Sound prev (c :: s)) (hmode : st.mode = .code)
    (hnone : st.place.read? (c, .code) = none) (hc : c ≠ '}') : (st.push c).flush.Sound prev s := by
  obtain ⟨hparens, hinline, _⟩ := Place.read?_eq_none hnone
  obtain ⟨lead, g, hg, hlead, hm, hwalk⟩ := h.body
  have hc' := finishes hnone hc
  have hplain : Plain (some c) := by rcases hc' with rfl | rfl <;> decide
  have hblank : isBlank c = false := by rcases hc' with rfl | rfl <;> decide
  have hword : isWord c = false := by rcases hc' with rfl | rfl <;> decide +kernel
  have hnb : ∀ t : Text, ¬Blank (t ++ [c]) := fun t hb => by
    rw [hb c (by simp)] at hblank
    exact absurd hblank (by simp)
  have hapart : ∀ t r : Text, WordsApart (t ++ [c]) r := fun t r => Or.inr fun d hd => by
    rw [List.getLast?_concat, Option.mem_some_iff] at hd
    exact hd ▸ hword
  obtain ⟨htrace, hmode'⟩ := trace_eq_of_apart (s := g) (Or.inl hplain) .code
  rw [List.head?_cons, hmode'] at hm
  rw [List.head?_cons, htrace, ← classifyFrom_eq_trace, ← classify, ← walk?_solidKinds] at hwalk
  have hlead' : Leader lead (g ++ [c]) := by
    refine hlead.imp_right (And.imp_right fun hglues => ?_)
    rwa [List.append_cons, gluesToClose_trim (hnb g) (hapart g s),
      gluesToClose_of_trim] at hglues
  have hshut : Shut (st.text ++ [c]).trim := by
    rw [hg, List.append_assoc]
    exact (Shut.body hlead' hwalk (hm.symm.trans hmode) hnone hc).trim
  have hne : (st.text ++ [c]).trim ≠ [] := fun hnil => hnb _ ((trim_eq_nil_iff _).mp hnil)
  have hdone : (st.push c).flush.done = (st.text ++ [c]).trim :: st.done := by
    rw [Scan.flush, ← text, text_push]
    exact if_neg hne
  refine sound_of_cut (st.push c).flush ?_ ?_ ?_ ?_ rfl hmode hparens hinline
  · rw [hdone]
    exact List.forall_mem_cons.mpr ⟨⟨tight_trim _, hne, by simpa using hshut.piece .none⟩, h.done⟩
  · intro f hf
    rw [hdone, List.head?_cons, Option.mem_some_iff] at hf
    exact hf ▸ hshut
  · rw [hdone]
    exact List.isChain_cons.mpr ⟨h.unjoined (List.append_cons ..) (hnb _) (hapart _ _), h.linked⟩
  · intro f hf hbrace
    rw [hdone, List.cons_append, List.head?_cons, Option.mem_some_iff] at hf
    have hlast := getLast?_of_endsWithBrace hbrace
    rw [← hf, trim_concat hblank, trimRight_of_solid_last hblank, List.getLast?_concat,
      Option.some.injEq] at hlast
    exact absurd hlast hc

/-- A closing brace that belongs to no initializer. -/
theorem Sound.brace (h : st.Sound prev ('}' :: s)) (hmode : st.mode = .code)
    (hnone : st.place.read? ('}', .code) = none) :
    Sound prev
      (if gluesToClose s.trimLeft then st.flush.push '}' else (st.flush.push '}').flush) s := by
  obtain ⟨hparens, hinline, _⟩ := Place.read?_eq_none hnone
  obtain ⟨hdone, hlinked⟩ := h.flush (Or.inr rfl)
  have hbrace : ∀ r : Text, isContinuation (trimLeft ('}' :: r)) = false := by
    intro r
    simp [trimLeft, isBlank, isContinuation, keyword?, continuationWords, afterWord?, after?]
  split
  · next hglues =>
    refine ⟨hdone, fun hb => ?_, hlinked, fun f _ _ => hbrace s, ['}'], [], rfl,
      Or.inr ⟨rfl, hglues⟩, hmode, ?_⟩
    · exact absurd (hb '}' (by simp [Scan.push, text])) (by decide)
    · have hp : st.flush.parens = 0 := hparens
      have hi : st.flush.inline = 0 := hinline
      have hplace : (st.flush.push '}').place = {} := by
        rw [place, opensInitializer_push]
        simp [Scan.push, hp, hi, Place.fillsAfter, isBlank]
      rw [hplace]
      rfl
  · next hglues =>
    have hsolid : Solid ['}'] := by decide
    have hfinished : (st.flush.push '}').flush.done = ['}'] :: st.flush.done := by
      rw [Scan.flush, ← text, text_push]
      rfl
    refine sound_of_cut (st.flush.push '}').flush ?_ ?_ ?_ ?_ rfl hmode hparens hinline
    · rw [hfinished]
      exact List.forall_mem_cons.mpr ⟨⟨hsolid.tight, by simp, .lone .none⟩, hdone⟩
    · intro f hf
      rw [hfinished, List.head?_cons, Option.mem_some_iff] at hf
      exact hf ▸ .lone
    · rw [hfinished]
      exact List.isChain_cons.mpr ⟨fun f _ _ => hbrace [], hlinked⟩
    · intro f _ _
      rw [← Bool.not_eq_true]
      exact fun hcont => hglues (gluesToClose_of_isContinuation hcont)

/-- A comment that takes the rest of the line. -/
theorem Sound.attach (h : st.Sound prev s) (hmode : st.mode = .code) (hs : RunsOn s) (hf : '\n' ∉ s) :
    (∀ f ∈ (st.attach s).fragments, Uncut s.getLast? f) ∧
      (prev :: (st.attach s).fragments).IsChain Unjoined := by
  obtain ⟨lead, g, hg, hlead, hm, hwalk⟩ := h.body
  by_cases hlast : Blank st.text ∧ st.done ≠ []
  · -- the comment goes to the last fragment
    obtain ⟨hb, hdone⟩ := hlast
    obtain ⟨last, earlier, hdone⟩ := List.exists_cons_of_ne_nil hdone
    have hall := h.done
    have hlinked := h.linked
    rw [hdone] at hall hlinked
    obtain ⟨⟨htight, hlast, _⟩, hearlier⟩ := List.forall_mem_cons.mp hall
    obtain ⟨hrel, hchain⟩ := List.isChain_cons.mp hlinked
    have hsolid : ¬Blank last := fun hb => hlast (eq_nil_of_blank hb htight.2)
    rw [attach_blank hdone hb, ← List.reverse_cons]
    refine ⟨?_, isChain_reverse_done (List.isChain_cons.mpr ⟨?_, hchain⟩)⟩
    · intro f hf
      rcases List.mem_cons.mp (List.mem_reverse.mp hf) with rfl | hf
      · exact .commented htight (h.last hb last (by rw [hdone]; rfl)) hs rfl
      · exact .tight (hearlier f hf).1 (hearlier f hf).2.1 (hearlier f hf).2.2
    · intro before hbefore hbrace
      have hapart : WordsApart last (' ' :: s) := Or.inl (by
        simp [endsWord, show isWord ' ' = false from isWord_of_isBlank (by decide)])
      rw [isContinuation_of_trim, isContinuation_trim hsolid hapart]
      exact hrel before hbefore hbrace
  · -- the comment goes to the fragment in progress
    have hattach : st.attach s = { st with pending := s.reverse ++ st.pending } := by
      rw [Scan.attach]
      split
      · next last earlier hdone =>
        refine if_neg fun hb => hlast ⟨fun c hc => ?_, by simp [hdone]⟩
        exact (blank_iff _).mp hb c (List.mem_reverse.mp hc)
      · rfl
    have htext : ({ st with pending := s.reverse ++ st.pending } : Scan).text = st.text ++ s := by
      simp [text]
    have hsolid : ¬Blank (st.text ++ s) := by
      obtain ⟨t, rfl, _⟩ := hs
      exact fun hb => absurd (hb '/' (by simp)) (by decide)
    obtain ⟨q, hreach⟩ : ∃ q, Reaches (g ++ s) q := by
      have hcomment : ∀ x ∈ classifyFrom .code s, x.2 ≠ .code := fun x hx => by
        rw [hs.kinds hf x hx]
        simp
      obtain ⟨q, hq⟩ := Place.walk?_of_ne_code hcomment st.place
      refine ⟨q, ?_⟩
      rw [Reaches, walk?_solidKinds, classify, classifyFrom_eq_trace, trace_append, Option.or_none,
        ← hm, hmode, List.map_append, Place.walk?_append, hwalk, ← classifyFrom_eq_trace]
      exact hq
    have hpiece : Piece (st.text ++ s).trim := by
      rw [hg, List.append_assoc]
      exact hlead.piece hreach
    have hne : (st.text ++ s).trim ≠ [] := fun hnil => hsolid ((trim_eq_nil_iff _).mp hnil)
    rw [hattach, fragments_eq, htext, if_neg hne, ← List.reverse_cons]
    refine ⟨fun f hf => ?_, isChain_reverse_done (List.isChain_cons.mpr ⟨?_, h.linked⟩)⟩
    · rcases List.mem_cons.mp (List.mem_reverse.mp hf) with rfl | hf
      · exact .tight (tight_trim _) hne hpiece
      · exact .tight (h.done f hf).1 (h.done f hf).2.1 (h.done f hf).2.2
    · exact h.unjoined (List.append_nil _).symm hsolid (Or.inl rfl)

/-- The fragments of the rest of a line. -/
theorem Sound.run {last : Option Char} : ∀ {s : Text} {st : Scan}, '\n' ∉ s →
    (s ≠ [] → s.getLast? = last) → st.Sound prev s →
    (∀ f ∈ (run true st s).1, Uncut last f) ∧ (prev :: (run true st s).1).IsChain Unjoined
  | [], st, _, _, h => by
    obtain ⟨hdone, hlinked⟩ := h.flush (Or.inl rfl)
    rw [Scan.run]
    refine ⟨fun f hf => ?_, isChain_reverse_done hlinked⟩
    obtain ⟨htight, hne, hpiece⟩ := hdone f (List.mem_reverse.mp hf)
    exact .tight htight hne hpiece
  | c :: s, st, hf, hlast, h => by
    have hfeed := hf
    rw [List.mem_cons, not_or] at hf
    obtain ⟨hfc, hfs⟩ := hf
    have hlast' := hlast (List.cons_ne_nil c s)
    have hlasts : s ≠ [] → s.getLast? = last := by
      intro hs
      obtain ⟨d, t, rfl⟩ := List.exists_cons_of_ne_nil hs
      rwa [List.getLast?_cons_cons] at hlast'
    rw [Scan.run]
    split
    · next hc => exact hlast' ▸ h.attach hc.1 ⟨s, by rw [hc.2.1], Or.inl hc.2.2⟩ hfeed
    next hline =>
    split
    · next hc => exact hlast' ▸ h.attach hc.1 ⟨s, by rw [hc.2.1], Or.inr hc.2.2⟩ hfeed
    rw [Scan.step_eq (Ne.symm hfc) hline]
    split
    · next mode hstep =>
      have hcode : st.mode = .code := eq_code_of_kind (by rw [hstep]) (Ne.symm hfc)
      have hmode : mode = .code := by
        have := mode_eq_code_of_kind (congrArg Prod.fst hstep)
        rwa [hstep] at this
      have hst : ({ st with mode } : Scan) = st := by rw [hmode, ← hcode]
      rw [hst]
      refine Sound.run hfs hlasts ?_
      cases hread : st.place.read? (c, .code) with
      | some p =>
        obtain ⟨htext, hdone, hm, hplace⟩ := code_of_read? hread s
        refine h.push htext hdone ?_ ?_
        · rw [hm, hstep, hmode, hcode]
        · rw [hstep, hplace, hread]
      | none =>
        have hnone := hread
        rw [Place.read?, if_pos rfl, Option.map_eq_none_iff] at hnone
        rw [code_eq, hnone]
        by_cases hc : c = '}'
        · subst hc
          exact h.brace hcode hread
        · simp only [if_neg hc]
          exact h.shut hcode hread hc
    · next kind mode hkind hstep =>
      refine Sound.run hfs hlasts (h.push (text_push { st with mode } c) rfl (by rw [hstep]; rfl) ?_)
      rw [hstep]
      exact place_push { st with mode } hkind

end Scan

/-- The fragments of a line are pieces without blanks at their ends, and none of them would be joined to
    the one before it or to what the line itself would not be joined to. -/
theorem pieces_scan {prev line : Text} (hf : '\n' ∉ line) (htight : Tight line)
    (h : Unjoined prev line) :
    (∀ f ∈ (scan line true).1, Tight f ∧ f ≠ [] ∧ Piece f) ∧
      (prev :: (scan line true).1).IsChain Unjoined := by
  obtain ⟨huncut, hlinked⟩ := Scan.Sound.run hf (fun _ => rfl) (Scan.sound_start h)
  exact ⟨fun f hmem => (huncut f hmem).tight_of_last htight.2, hlinked⟩

/-- A fragment of a line is cut no further when it is read as a line of its own: nothing that decided
    where the line was cut, before the fragment or after it, is missed. -/
theorem splitFragments_of_mem {line f : Text} (hfeed : '\n' ∉ line) (h : f ∈ splitFragments line) :
    splitFragments f = [f] := by
  have huncut := (Scan.Sound.run hfeed (fun _ => rfl) (Scan.sound_start (unjoined_nil line))).1 f h
  exact huncut.scan ((cuts_scan hfeed true).no_feed hfeed f h)

/-- Closing braces with what stays with them, an initializer, a semicolon in parentheses and one in a
    literal, and a comment with blanks at the end of the line. -/
theorem splitFragments_of_mem_mixed :
    let line : Text := "\x7d else \x7b a = \x7b';'\x7d; for (;;) \x7b\x7d while (b); \x7d // c ".toList
    '\n' ∉ line ∧ splitFragments line = ["\x7d else \x7b", "a = \x7b';'\x7d;", "for (;;) \x7b",
        "\x7d while (b);", "\x7d // c "].map String.toList ∧
      splitFragments "\x7d while (b);".toList = ["\x7d while (b);".toList] ∧
      splitFragments "\x7d // c ".toList = ["\x7d // c ".toList] := by
  intro line
  have hfeed : '\n' ∉ line := by decide
  have hcut : splitFragments line = ["\x7d else \x7b", "a = \x7b';'\x7d;", "for (;;) \x7b",
      "\x7d while (b);", "\x7d // c "].map String.toList := by decide +kernel
  exact ⟨hfeed, hcut, splitFragments_of_mem hfeed (by rw [hcut]; decide),
    splitFragments_of_mem hfeed (by rw [hcut]; decide)⟩

end JspLayout.Java
