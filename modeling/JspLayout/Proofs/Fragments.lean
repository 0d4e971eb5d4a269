import JspLayout.Proofs.Lexing
import JspLayout.Java.Fragment

/-! How a line is cut into fragments.

    Cutting takes a line apart into pieces that end in code, trims each piece and drops those of
    blanks alone; a comment at the end of the line may be joined to the piece before it. `Cuts` says
    this of a line and its fragments without the state of the scan, and every fact about the
    fragments of a line follows from it. -/

namespace JspLayout.Java

open Text

/-- The fragments are the pieces of the line, trimmed. -/
inductive Cuts : Text → List Text → Prop
  | blank {w : Text} : Blank w → Cuts w []
  | last {u : Text} : ¬Blank u → Cuts u [u.trim]
  /-- A comment that stays on the line of the piece before it. -/
  | comment {u c : Text} : ¬Blank u → modeAfter .code none u = .code → Apart u c.head? →
      Cuts (u ++ c) [u.trim ++ ' ' :: c]
  | cut {u s : Text} {fs : List Text} : ¬Blank u → modeAfter .code none u = .code →
      Apart u s.head? → Cuts s fs → Cuts (u ++ s) (u.trim :: fs)

/-- Blanks before a line belong to its first piece. -/
theorem Cuts.blank_append {w s : Text} {fs : List Text} (hw : Blank w) (h : Cuts s fs) :
    Cuts (w ++ s) fs := by
  have hne : ∀ {u : Text}, ¬Blank u → ¬Blank (w ++ u) := fun hu h =>
    hu fun c hc => h c (List.mem_append_right _ hc)
  have hlast : ∀ {u : Text} {next : Option Char}, ¬Blank u → Apart u next → Apart (w ++ u) next := by
    intro u next hu ha
    cases u with
    | nil => exact absurd blank_nil hu
    | cons c u => rwa [Apart, List.getLast?_append_of_ne_nil _ (by simp)]
  cases h with
  | blank hs => exact .blank (hw.append hs)
  | last hu => rw [← trim_blank_append hw]; exact .last (hne hu)
  | comment hu hm ha =>
    rw [← List.append_assoc, ← trim_blank_append hw]
    exact .comment (hne hu) ((read_blank_append rests_code hw _).1.trans hm) (hlast hu ha)
  | cut hu hm ha hs =>
    rw [← List.append_assoc, ← trim_blank_append hw]
    exact .cut (hne hu) ((read_blank_append rests_code hw _).1.trans hm) (hlast hu ha) hs

theorem Cuts.no_feed {s : Text} {fs : List Text} (h : Cuts s fs) (hf : '\n' ∉ s) :
    ∀ f ∈ fs, '\n' ∉ f := by
  induction h with
  | blank _ => simp
  | @last u _ => simpa using fun h => hf ((trim_isInfix u).subset h)
  | @comment u c _ _ _ =>
    rw [List.mem_append, not_or] at hf
    have hu : '\n' ∉ u.trim := fun h => hf.1 ((trim_isInfix u).subset h)
    simp [hu, hf.2]
  | @cut u s fs _ _ _ _ ih =>
    rw [List.mem_append, not_or] at hf
    exact List.forall_mem_cons.mpr ⟨fun h => hf.1 ((trim_isInfix u).subset h), ih hf.2⟩

namespace Scan

/-- The fragment in progress. -/
def text (st : Scan) : Text := st.pending.reverse

/-- The last piece that is finished is `u`, blank when there is none, and the fragments before it
    are `earlier`, last one first. -/
def Holds (st : Scan) (u : Text) (earlier : List Text) : Prop :=
  (Blank u ∧ st.done = [] ∧ earlier = []) ∨ (¬Blank u ∧ st.done = u.trim :: earlier)

/-- The fragments `fs` are right for a line of which `s` is still to be read: with the last finished
    piece put before what is in progress, they are the cuts of it. -/
def Leads (st : Scan) (s : Text) (fs : List Text) : Prop :=
  ∀ u earlier, st.Holds u earlier → modeAfter .code none u = .code → Apart u (st.text ++ s).head? →
    ∃ gs, fs = earlier.reverse ++ gs ∧ Cuts (u ++ (st.text ++ s)) gs

theorem leads_push {st st' : Scan} {t s : Text} {fs : List Text} (htext : st'.text = st.text ++ t)
    (hdone : st'.done = st.done) (h : st'.Leads s fs) : st.Leads (t ++ s) fs := by
  intro u earlier hu hm ha
  have hassoc : st.text ++ (t ++ s) = st'.text ++ s := by rw [htext, List.append_assoc]
  rw [hassoc] at ha ⊢
  exact h u earlier (by rwa [Holds, hdone]) hm ha

/-- Blanks after a finished piece can be counted to it. -/
theorem holds_append_blank {st : Scan} {u w : Text} {earlier : List Text} (h : st.Holds u earlier)
    (hw : Blank w) : st.Holds (u ++ w) earlier := by
  rcases h with ⟨hu, hd, he⟩ | ⟨hu, hd⟩
  · exact Or.inl ⟨hu.append hw, hd, he⟩
  · refine Or.inr ⟨fun h => hu fun c hc => h c (List.mem_append_left _ hc), ?_⟩
    rw [hd, trim_append_blank hw]

theorem read_append_blank_code {u w : Text} {next : Option Char} (hw : Blank w)
    (hm : modeAfter .code none u = .code) (ha : Apart u (w.head?.or next)) :
    modeAfter .code none (u ++ w) = .code ∧ Apart (u ++ w) next := by
  cases w with
  | nil => simpa using ⟨hm, ha⟩
  | cons c w =>
    have ha' : Apart u (c :: w).head? := by simpa using ha
    refine ⟨?_, Or.inr ?_⟩
    · rw [modeAfter_append_apart ha', hm, (read_blank rests_code hw _).1]
    · rw [List.getLast?_append_of_ne_nil _ (by simp), List.getLast?_eq_some_getLast (by simp)]
      exact plain_of_isBlank (hw _ (List.getLast_mem _))

/-- A finished piece that is not blank goes before the cuts of what follows. -/
theorem Holds.cons {st : Scan} {u t : Text} {earlier gs : List Text} (h : st.Holds u earlier)
    (hm : modeAfter .code none u = .code) (ha : Apart u t.head?) (ht : Cuts t gs) :
    ∃ fs, st.done.reverse ++ gs = earlier.reverse ++ fs ∧ Cuts (u ++ t) fs := by
  rcases h with ⟨hu, hd, he⟩ | ⟨hu, hd⟩
  · exact ⟨gs, by rw [hd, he], ht.blank_append hu⟩
  · exact ⟨u.trim :: gs, by rw [hd]; simp, .cut hu hm ha ht⟩

/-- Finishing the fragment in progress where it ends in code. -/
theorem leads_flush {st : Scan} {s : Text} {fs : List Text}
    (hm : modeAfter .code none st.text = .code) (ha : Apart st.text s.head?)
    (h : st.flush.Leads s fs) : st.Leads s fs := by
  intro u earlier hu hum hua
  have htext : st.flush.text = [] := rfl
  by_cases hb : Blank st.text
  · have hdone : st.flush.done = st.done := by
      rw [flush, ← text, trim_blank hb]
      rfl
    rw [List.head?_append] at hua
    obtain ⟨hm', ha'⟩ := read_append_blank_code hb hum hua
    have hold : st.flush.Holds (u ++ st.text) earlier := by
      rw [Holds, hdone]
      exact holds_append_blank hu hb
    rw [← List.append_assoc]
    exact h _ _ hold hm' ha'
  · have hdone : st.flush.done = st.text.trim :: st.done := by
      rw [flush, ← text]
      exact if_neg fun h => hb ((trim_eq_nil_iff _).mp h)
    obtain ⟨gs, rfl, hgs⟩ := h st.text st.done (Or.inr ⟨hb, hdone⟩) hm ha
    exact hu.cons hum hua hgs

/-- The end of the line. -/
theorem leads_fragments (st : Scan) : st.Leads [] st.fragments := by
  intro u earlier hu hm ha
  rw [List.append_nil] at ha ⊢
  by_cases hb : Blank st.text
  · have hdone : st.fragments = st.done.reverse := by
      rw [fragments, flush, ← text, trim_blank hb]
      rfl
    rw [hdone]
    rcases holds_append_blank hu hb with ⟨hw, hd, he⟩ | ⟨hw, hd⟩
    · exact ⟨[], by rw [hd, he]; rfl, .blank hw⟩
    · exact ⟨_, by rw [hd, List.reverse_cons], .last hw⟩
  · have hdone : st.fragments = st.done.reverse ++ [st.text.trim] := by
      rw [fragments, ← List.reverse_cons, flush, ← text]
      exact congrArg List.reverse (if_neg fun h => hb ((trim_eq_nil_iff _).mp h))
    rw [hdone]
    exact hu.cons hm ha (.last hb)

/-- A comment that ends the line. -/
theorem leads_attach (st : Scan) (c : Text) : st.Leads c (st.attach c).fragments := by
  have hpend : ({ st with pending := c.reverse ++ st.pending } : Scan).text = st.text ++ c := by
    simp [text]
  have happend : st.Leads c ({ st with pending := c.reverse ++ st.pending } : Scan).fragments := by
    have := leads_push hpend rfl (leads_fragments _)
    rwa [List.append_nil] at this
  unfold attach
  split
  · next last earlier hdone =>
    split
    · next hb =>
      intro u earlier' hu hm ha
      have hw : Blank st.text := fun d hd =>
        (blank_iff _).mp hb d (List.mem_reverse.mp hd)
      rw [List.head?_append] at ha
      obtain ⟨hm', ha'⟩ := read_append_blank_code hw hm ha
      rcases holds_append_blank hu hw with ⟨_, hd, _⟩ | ⟨hu', hd⟩
      · rw [hd] at hdone; exact absurd hdone (by simp)
      · rw [hdone, List.cons.injEq] at hd
        refine ⟨[(u ++ st.text).trim ++ ' ' :: c], ?_, ?_⟩
        · simp [fragments, flush, trim, trimLeft, trimRight, dropEndWhile, hd]
        · rw [← List.append_assoc]
          exact .comment hu' hm' ha'
    · exact happend
  · exact happend

theorem text_push (st : Scan) (c : Char) : (st.push c).text = st.text ++ [c] := by
  simp [push, text]

/-- What a character of the code can do: it goes to the fragment in progress, and a brace or a
    semicolon may finish that fragment after it, before it, or both. -/
theorem code_cases (splitBraces : Bool) (st : Scan) (c : Char) (s : Text) :
    ∃ st' : Scan, st'.text = st.text ∧ st'.done = st.done ∧ st'.mode = st.mode ∧
      (code splitBraces st c s = st'.push c ∨
        Plain (some c) ∧ (code splitBraces st c s = (st'.push c).flush ∨
          code splitBraces st c s = st'.flush.push c ∨
          code splitBraces st c s = (st'.flush.push c).flush)) := by
  unfold code
  split
  · exact ⟨{ st with parens := st.parens + 1 }, rfl, rfl, rfl, Or.inl rfl⟩
  split
  · exact ⟨{ st with parens := st.parens - 1 }, rfl, rfl, rfl, Or.inl rfl⟩
  split
  · next h =>
    split
    · exact ⟨{ st with inline := st.inline + 1 }, rfl, rfl, rfl, Or.inl rfl⟩
    · exact ⟨st, rfl, rfl, rfl, Or.inr ⟨by rw [h.2.2]; simp [Plain], Or.inl rfl⟩⟩
  split
  · next h =>
    have hc : Plain (some c) := by rw [h.2.2]; simp [Plain]
    split
    · exact ⟨{ st with inline := st.inline - 1 }, rfl, rfl, rfl, Or.inl rfl⟩
    · split
      · exact ⟨st, rfl, rfl, rfl, Or.inr ⟨hc, Or.inr (Or.inl rfl)⟩⟩
      · exact ⟨st, rfl, rfl, rfl, Or.inr ⟨hc, Or.inr (Or.inr rfl)⟩⟩
  split
  · next h => exact ⟨st, rfl, rfl, rfl, Or.inr ⟨by rw [h.1]; simp [Plain], Or.inl rfl⟩⟩
  · exact ⟨st, rfl, rfl, rfl, Or.inl rfl⟩

/-- Within a line, and where no comment starts that the rest of the line belongs to, the scan reads a
    character as the lexer does. -/
theorem step_eq {m : Mode} {c : Char} {next : Option Char} (hc : c ≠ '\n')
    (hline : ¬(m = .code ∧ c = '/' ∧ next = some '/')) : Scan.step m c next = m.step c next := by
  cases m with
  | code =>
    have hslash : ¬(c = '/' ∧ next = some '/') := fun h => hline ⟨rfl, h⟩
    rw [Scan.step, Mode.step, if_neg hslash]
  | literal q escaped => cases escaped <;> simp [Scan.step, Mode.step, hc]
  | lineComment => rw [Scan.step, Mode.step, if_neg hc]
  | commentStart | blockComment | commentEnd => rfl

/-- The mode of the scan is that of the lexer after the fragment in progress. -/
def Tracks (st : Scan) (s : Text) : Prop := st.mode = modeAfter .code s.head? st.text

theorem tracks_push {st : Scan} {c : Char} {s : Text} (h : st.Tracks (c :: s)) {m : Mode}
    (hm : m = (st.mode.step c s.head?).2) : Tracks { st.push c with mode := m } s := by
  have htext : ({ st.push c with mode := m } : Scan).text = st.text ++ [c] := text_push st c
  rw [Tracks, htext, modeAfter_append, List.head?_cons, Option.some_or]
  rw [Tracks, List.head?_cons] at h
  rw [hm, h]
  rfl

/-- Reading a character of the code: the scan keeps track of the lexer, and what is right after the
    character is right before it. -/
theorem leads_code (splitBraces : Bool) {st : Scan} {c : Char} {s : Text}
    (hmode : st.mode = .code) (htrack : st.Tracks (c :: s))
    (hstep : Mode.step .code c s.head? = (.code, .code)) :
    (code splitBraces st c s).Tracks s ∧
      ∀ fs, (code splitBraces st c s).Leads s fs → st.Leads (c :: s) fs := by
  obtain ⟨st', htext, hdone, hmode', hcases⟩ := code_cases splitBraces st c s
  rw [hmode] at hmode'
  have hst : ∀ fs, st'.Leads (c :: s) fs → st.Leads (c :: s) fs := fun fs h =>
    leads_push (t := []) (by rw [htext, List.append_nil]) hdone h
  have htrack' : st'.Tracks (c :: s) := by
    rw [Tracks, hmode] at htrack
    rwa [Tracks, htext, hmode']
  have hpush : (st'.push c).Tracks s := by
    have := tracks_push htrack' (m := .code) (by rw [hmode', hstep])
    rwa [← hmode'] at this
  have hafter : ∀ {st : Scan} {fs : List Text}, (st.push c).Leads s fs → st.Leads (c :: s) fs :=
    fun h => leads_push (text_push _ c) rfl h
  rcases hcases with heq | ⟨hc, hcases⟩
  · rw [heq]
    exact ⟨hpush, fun fs h => hst fs (hafter h)⟩
  · -- a character that finishes a fragment is neither looked ahead for nor looks ahead itself
    have hread : ∀ t : Text, modeAfter .code none t = .code →
        modeAfter .code none (t ++ [c]) = .code := by
      intro t ht
      rw [modeAfter_append_apart (t := [c]) (Or.inl hc), ht, modeAfter, List.head?_nil, Option.or_none,
        ← step_eq_of_plain hc .code s.head?, hstep]
      rfl
    have htext' : modeAfter .code none st'.text = .code := by
      rw [← (trace_eq_of_apart (Or.inl hc) .code).2]
      exact htrack'.symm.trans hmode'
    have hlast : ∀ t : Text, Apart (t ++ [c]) s.head? := fun t => Or.inr (by simpa using hc)
    have hnew : ∀ st : Scan, st.mode = .code → st.text = [] → st.Tracks s := by
      intro st h h'
      rw [Tracks, h', h]
      rfl
    have hflush : ∀ fs, st'.flush.Leads (c :: s) fs → st.Leads (c :: s) fs := fun fs h =>
      hst fs (leads_flush htext' (Or.inl hc) h)
    have hbrace : (st'.flush.push c).Tracks s := by
      have : st'.flush.Tracks (c :: s) := hmode'
      have := tracks_push this (m := .code) (by rw [show st'.flush.mode = .code from hmode', hstep])
      rwa [← hmode'] at this
    rcases hcases with heq | heq | heq <;> rw [heq]
    · refine ⟨hnew _ hmode' rfl, fun fs h => hst fs (hafter (leads_flush ?_ ?_ h))⟩
      · rw [text_push]; exact hread _ htext'
      · rw [text_push]; exact hlast _
    · exact ⟨hbrace, fun fs h => hflush fs (hafter h)⟩
    · refine ⟨hnew _ hmode' rfl, fun fs h => hflush fs (hafter (leads_flush ?_ ?_ h))⟩
      · rw [text_push]; exact hread _ rfl
      · rw [text_push]; exact hlast _

/-- The rest of a line read from any state is cut right. -/
theorem leads_run (splitBraces : Bool) : ∀ {s : Text} {st : Scan}, '\n' ∉ s → st.Tracks s →
    st.Leads s (run splitBraces st s).1
  | [], st, _, _ => leads_fragments st
  | c :: s, st, hf, htrack => by
    have hfc : c ≠ '\n' := fun h => hf (h ▸ List.mem_cons_self)
    have hfs : '\n' ∉ s := fun h => hf (List.mem_cons_of_mem _ h)
    rw [run]
    split
    · exact leads_attach st (c :: s)
    next hline =>
    split
    · exact leads_attach st (c :: s)
    rw [Scan.step_eq hfc hline]
    split
    · next mode hstep =>
      have hcode : st.mode = .code := eq_code_of_kind (by rw [hstep]) hfc
      have hmode : mode = .code := by
        have := mode_eq_code_of_kind (congrArg Prod.fst hstep)
        rwa [hstep] at this
      rw [hcode, hmode] at hstep
      have hst : ({ st with mode } : Scan) = st := by rw [hmode, ← hcode]
      obtain ⟨htrack', hleads⟩ := leads_code splitBraces hcode htrack hstep
      rw [hst]
      exact hleads _ (leads_run splitBraces hfs htrack')
    · next kind mode hkind hstep =>
      have hpush : Tracks { st.push c with mode } s := tracks_push htrack (by rw [hstep])
      exact leads_push (text_push { st with mode } c) rfl (leads_run splitBraces hfs hpush)

end Scan

/-- The fragments of a line are its pieces. -/
theorem cuts_scan {line : Text} (hf : '\n' ∉ line) (splitBraces : Bool) :
    Cuts line (scan line splitBraces).1 := by
  have hleads : Scan.Leads {} line (scan line splitBraces).1 := Scan.leads_run splitBraces hf rfl
  obtain ⟨fs, hfs, hcuts⟩ :=
    hleads [] [] (Or.inl ⟨blank_nil, rfl, rfl⟩) rfl (Or.inr plain_none)
  rw [hfs]
  exact hcuts

end JspLayout.Java
