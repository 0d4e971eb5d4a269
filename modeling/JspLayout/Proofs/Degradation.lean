import JspLayout.Proofs.Sessions
import JspLayout.Format.Page

/-! Pages whose code formatter is of no use.

    What a page is woven into depends on the texts of its blocks alone, not on what formatting them
    does to the pass. Main statement: where each call of the code formatter that formatting a page
    makes fails, or gives nothing that can be used, the page is formatted as if its code was only to
    be indented. -/

namespace JspLayout

open Text

variable {σ τ : Type}

/-! ### Weaving in two ways -/

section

variable {m n : Type → Type} [Monad m] [Monad n]

/-- A relation between the computations of two kinds that results and sequences of them keep. -/
structure Parallel (R : (α : Type) → m α → n α → Prop) : Prop where
  pure : ∀ {α : Type} (a : α), R α (Pure.pure a) (Pure.pure a)
  bind : ∀ {α β : Type} {x : m α} {y : n α} {f : α → m β} {g : α → n β}, R α x y →
    (∀ a, R β (f a) (g a)) → R β (x >>= f) (y >>= g)

namespace Parallel

variable {R : (α : Type) → m α → n α → Prop} (hR : Parallel R) {block : Block → m Text}
  {block' : Block → n Text} {note : Note → m Unit} {note' : Note → n Unit}
  (hblock : ∀ b, R Text (block b) (block' b)) (hnote : ∀ e, R Unit (note e) (note' e))

include hR hblock hnote

theorem placeBlock (tag pad buffer : Text) (e : Placeholder) :
    R Text (placeBlock block note tag pad buffer e) (placeBlock block' note' tag pad buffer e) := by
  unfold JspLayout.placeBlock
  cases Marker.find? tag e.index e.inTag buffer with
  | none => exact hR.bind (hnote _) fun _ => hR.pure buffer
  | some found =>
    refine hR.bind (hblock e.block) fun replacement => ?_
    cases e.inTag <;> exact hR.pure _

theorem placeBlocks (tag pad : Text) : ∀ (es : List Placeholder) (buffer : Text),
    R Text (placeBlocks block note tag pad buffer es) (placeBlocks block' note' tag pad buffer es)
  | [], buffer => hR.pure buffer
  | e :: es, buffer =>
    hR.bind (hR.placeBlock hblock hnote tag pad buffer e) fun buffer => placeBlocks tag pad es buffer

/-- Two ways to weave a page are related where their blocks and their notes are. -/
theorem weave (markup : MarkupFormatter) (pad : Text) (segs : List Segment) :
    R Text (weave markup block note pad segs) (weave markup block' note' pad segs) := by
  unfold JspLayout.weave
  dsimp only
  cases layMarkup markup (freeMarkerName (Segment.reconstruct segs))
      (markerBuffer segs (freeMarkerName (Segment.reconstruct segs))).1
      (markerBuffer segs (freeMarkerName (Segment.reconstruct segs))).2 with
  | ok formatted => exact hR.placeBlocks hblock hnote _ pad _ formatted
  | error e => exact hR.bind (hnote _) fun _ => hR.placeBlocks hblock hnote _ pad _ _

end Parallel

end

/-- The computation comes to the value from every state. -/
def ComesTo {ε : Type} (α : Type) (x : StateT τ (Except ε) α) (a : Id α) : Prop :=
  ∀ p, ∃ p', x.run p = .ok (a.run, p')

theorem parallel_comesTo {ε : Type} : Parallel (ComesTo (τ := τ) (ε := ε)) where
  pure a p := ⟨p, rfl⟩
  bind hx hf p := by
    obtain ⟨p₁, h₁⟩ := hx p
    obtain ⟨p₂, h₂⟩ := hf _ p₁
    exact ⟨p₂, by rw [StateT.run_bind, h₁]; exact h₂⟩

/-- Where every block comes to a text, a page is formatted, and into what its texts are woven to. -/
theorem exists_formatPageWith {o : Options} {code : Option (CodeFormatter σ)} {g : Block → Text}
    (hblock : ∀ b p, ∃ p', formatBlock o.blockStyle code b p = .ok (g b, p'))
    (markup : MarkupFormatter) (page : Text) (state : σ) :
    ∃ out, formatPageWith o markup code page state = .ok out ∧
      out.text = weave (m := Id) markup g (fun _ => ()) o.pad (segments page) := by
  have hnote : ∀ n, ComesTo Unit (takeNote (σ := σ) n) (pure () : Id Unit) := fun n p => ⟨p.note n, rfl⟩
  have htexts : ∀ b, ComesTo Text (formatBlock o.blockStyle code b) (pure (g b) : Id Text) := hblock
  obtain ⟨p, hrun⟩ := parallel_comesTo.weave htexts hnote markup o.pad (segments page)
    ({ formatter := state } : Pass σ)
  have hpass : formatPass o markup code page { formatter := state } =
      .ok (weave (m := Id) markup g (fun _ => ()) o.pad (segments page), p) := hrun
  exact ⟨_, by rw [formatPageWith, hpass]; rfl, rfl⟩

/-! ### The calls of a run -/

/-- The reply with an error in place of a fault. -/
def CodeReply.steady (r : CodeReply) : CodeReply :=
  match r.result with
  | .error (.fault _) => { r with result := .error (.error (.reported "broke down")) }
  | _ => r

/-- The calls made so far, each with the block it was made for. -/
abbrev CallLog := List (Block × Call)

/-- A formatter that keeps its calls beside its state, for one block. It reports an error where `f`
    breaks down, so that what it keeps is not lost. -/
def logged (f : CodeFormatter σ) (b : Block) : CodeFormatter (σ × CallLog) := fun text s =>
  ((f text s.1).1.steady, (f text s.1).2, s.2 ++ [(b, ⟨text, (f text s.1).1.result⟩)])

/-- A block formatted with its calls kept. -/
def logBlock (style : BlockStyle) (f : CodeFormatter σ) (b : Block) :
    StateT (Pass (σ × CallLog)) (Except Fault) Text :=
  formatBlock style (some (logged f b)) b

/-- The calls that formatting a page makes, up to one that breaks down if there is one. -/
def pageCalls (o : Options) (markup : MarkupFormatter) (f : CodeFormatter σ) (page : Text) (state : σ) :
    CallLog :=
  match (weave markup (logBlock o.blockStyle f) takeNote o.pad (segments page)).run
    { formatter := (state, []) } with
  | .ok (_, p) => p.formatter.2
  | .error _ => []

/-- The call fails with an error of the formatter, or gives code from which the block cannot be taken
    back. -/
def Call.refused (b : Block) (c : Call) : Bool :=
  match c.result with
  | .error (.error _) => true
  | .error (.fault _) => false
  | .ok text => (Java.unwrap? text b.kind).isNone

theorem CodeReply.steady_eq {r : CodeReply} (h : ∀ fault, r.result ≠ .error (.fault fault)) :
    r.steady = r := by
  unfold steady
  split
  · next fault hr => exact absurd hr (h fault)
  · rfl

theorem CodeReply.steady_ne_fault (r : CodeReply) (fault : Fault) :
    r.steady.result ≠ .error (.fault fault) := by
  unfold steady
  split
  · simp
  · next h => exact h fault

theorem CodeReply.result_of_steady {r : CodeReply} {text : Text} (h : r.steady.result = .ok text) :
    r.result = .ok text := by
  unfold steady at h
  split at h
  · simp at h
  · exact h

section

variable {style : BlockStyle} {f : CodeFormatter σ} {b : Block} {p : Pass (σ × CallLog)} {text : Text}
  {s : Session} {state : σ × CallLog}

/-- A block makes no call, or the one for the block where the formatter is asked. -/
theorem Turn.log (h : Turn style (logged f b) b p text s state) :
    ¬Asks style b p ∧ state.2 = p.formatter.2 ∨
      state.2 = p.formatter.2 ++ [(b, ⟨b.wrapped, (f b.wrapped p.formatter.1).1.result⟩)] := by
  cases h with
  | idle hidle =>
    refine Or.inl ⟨fun ⟨hb, hmode, _⟩ => ?_, rfl⟩
    rcases hidle with h | h
    · simp [h] at hb
    · simp [h] at hmode
  | indented _ _ hquiet =>
    exact Or.inl ⟨fun ⟨_, hmode, havail⟩ => by simp [hquiet hmode] at havail, rfl⟩
  | formatted => exact Or.inr rfl
  | unusable => exact Or.inr rfl
  | failed => exact Or.inr rfl

/-- A call that is refused leaves its block to the indenter. -/
theorem Turn.text_eq (h : Turn style (logged f b) b p text s state)
    (hrefused : ∀ x ∈ state.2, x.2.refused x.1 = true) : text = blockText style b := by
  cases h with
  | idle => rfl
  | indented => rfl
  | unusable => rfl
  | failed => rfl
  | formatted _ _ _ hresult hunwrap =>
    have hcall := hrefused (b, ⟨b.wrapped, (f b.wrapped p.formatter.1).1.result⟩)
      (List.mem_append_right _ List.mem_cons_self)
    have hok : (f b.wrapped p.formatter.1).1.result = .ok _ := CodeReply.result_of_steady hresult
    simp [Call.refused, hok, hunwrap] at hcall

end

/-- A block with its calls kept is formatted and adds to the calls. Where all of them are refused it is
    formatted as it is without keeping them, and that is as without a formatter. -/
theorem exists_logBlock (style : BlockStyle) (f : CodeFormatter σ) (b : Block) (p : Pass (σ × CallLog)) :
    ∃ text p', (logBlock style f b).run p = .ok (text, p') ∧ p.formatter.2 <+: p'.formatter.2 ∧
      ((∀ x ∈ p'.formatter.2, x.2.refused x.1 = true) →
        formatBlock style (some f) b p.forget = .ok (text, p'.forget) ∧ text = blockText style b) := by
  have hanswer : ∀ fault, (logged f b b.wrapped p.formatter).1.result ≠ .error (.fault fault) :=
    (f b.wrapped p.formatter.1).1.steady_ne_fault
  obtain ⟨text, p', hblock, hturn⟩ := exists_turn style p fun _ => hanswer
  have hlog : p.formatter.2 <+: p'.formatter.2 := by
    rcases hturn.log with ⟨-, h⟩ | h
    · exact h ▸ List.prefix_rfl
    · exact h ▸ List.prefix_append _ _
  refine ⟨text, p', hblock, hlog, fun hrefused => ⟨?_, hturn.text_eq hrefused⟩⟩
  rw [formatBlock_forget (logged f b) fun hasks => ?_, hblock]
  · rfl
  · rcases hturn.log with ⟨hquiet, -⟩ | h
    · exact absurd hasks hquiet
    · have hcall := hrefused _ (h ▸ List.mem_append_right _ List.mem_cons_self)
      refine ⟨CodeReply.steady_eq fun fault hfault => ?_, rfl⟩
      simp [Call.refused, hfault] at hcall

/-- The first computation keeps its calls, and comes to what `T` says of the second where all of them are
    refused. -/
def Logs {n : Type → Type} (T : (α : Type) → n α → Pass (σ × CallLog) → α × Pass (σ × CallLog) → Prop)
    (α : Type) (x : StateT (Pass (σ × CallLog)) (Except Fault) α) (y : n α) : Prop :=
  ∀ p, ∃ r, x.run p = .ok r ∧ p.formatter.2 <+: r.2.formatter.2 ∧
    ((∀ c ∈ r.2.formatter.2, c.2.refused c.1 = true) → T α y p r)

theorem parallel_logs {n : Type → Type} [Monad n]
    {T : (α : Type) → n α → Pass (σ × CallLog) → α × Pass (σ × CallLog) → Prop}
    (hpure : ∀ {α : Type} (a : α) p, T α (pure a) p (a, p))
    (hbind : ∀ {α β : Type} {y : n α} {g : α → n β} {p r r'}, T α y p r → T β (g r.1) r.2 r' →
      T β (y >>= g) p r') : Parallel (Logs T) where
  pure a p := ⟨(a, p), rfl, List.prefix_rfl, fun _ => hpure a p⟩
  bind hx hf p := by
    obtain ⟨r, hr, hlog, hfirst⟩ := hx p
    obtain ⟨r', hr', hlog', hthen⟩ := hf r.1 r.2
    refine ⟨r', by rw [StateT.run_bind, hr]; exact hr', hlog.trans hlog', fun hrefused => ?_⟩
    exact hbind (hfirst fun c hc => hrefused c (hlog'.subset hc)) (hthen hrefused)

/-- The computation comes to the same result, and to the same pass but for the calls. -/
def SamePass (α : Type) (y : StateT (Pass σ) (Except Fault) α) (p : Pass (σ × CallLog))
    (r : α × Pass (σ × CallLog)) : Prop :=
  y.run p.forget = .ok (r.1, r.2.forget)

theorem parallel_samePass : Parallel (Logs (σ := σ) SamePass) := by
  refine parallel_logs (fun _ _ => rfl) fun {_ _ y g p r r'} hy hg => ?_
  have hy : y.run p.forget = .ok (r.1, r.2.forget) := hy
  rw [SamePass, StateT.run_bind, hy]
  exact hg

/-- The result is the value. -/
def SameResult (α : Type) (y : Id α) (_ : Pass (σ × CallLog)) (r : α × Pass (σ × CallLog)) : Prop :=
  r.1 = y.run

theorem parallel_sameResult : Parallel (Logs (σ := σ) SameResult) := by
  refine parallel_logs (fun _ _ => rfl) fun {_ _ y g _ r r'} hy hg => ?_
  calc r'.1 = (g r.1).run := hg
    _ = (y >>= g).run := by rw [hy]; rfl

/-- Where all calls that formatting a page makes are refused, the page is formatted into what its
    blocks are without a code formatter. -/
theorem exists_formatPageWith_of_refused {o : Options} {markup : MarkupFormatter} {f : CodeFormatter σ}
    {page : Text} {state : σ}
    (hrefused : ∀ x ∈ pageCalls o markup f page state, x.2.refused x.1 = true) :
    ∃ out, formatPageWith o markup (some f) page state = .ok out ∧
      out.text = weave (m := Id) markup (blockText o.blockStyle) (fun _ => ()) o.pad (segments page) := by
  let start : Pass (σ × CallLog) := { formatter := (state, []) }
  have hblock : ∀ b, Logs SamePass Text (logBlock o.blockStyle f b) (formatBlock o.blockStyle (some f) b) ∧
      Logs SameResult Text (logBlock o.blockStyle f b) (pure (blockText o.blockStyle b) : Id Text) := by
    refine fun b => ⟨fun p => ?_, fun p => ?_⟩ <;>
      obtain ⟨text, p', hrun, hlog, h⟩ := exists_logBlock o.blockStyle f b p
    · exact ⟨(text, p'), hrun, hlog, fun hrefused => (h hrefused).1⟩
    · exact ⟨(text, p'), hrun, hlog, fun hrefused => (h hrefused).2⟩
  obtain ⟨r, hrun, -, hpass⟩ := parallel_samePass.weave (fun b => (hblock b).1)
    (fun n p => ⟨((), p.note n), rfl, List.prefix_rfl, fun _ => rfl⟩ :
      ∀ n, Logs SamePass Unit (takeNote n) (takeNote n)) markup o.pad (segments page) start
  obtain ⟨r', hrun', -, htext⟩ := parallel_sameResult.weave (fun b => (hblock b).2)
    (fun n p => ⟨((), p.note n), rfl, List.prefix_rfl, fun _ => rfl⟩ :
      ∀ n, Logs SameResult Unit (takeNote n) (pure () : Id Unit)) markup o.pad (segments page) start
  obtain rfl : r = r' := by simpa [hrun] using hrun'
  rw [pageCalls, hrun] at hrefused
  have hpass : formatPass o markup (some f) page { formatter := state } = .ok (r.1, r.2.forget) :=
    hpass hrefused
  have htext : r.1 = weave (m := Id) markup (blockText o.blockStyle) (fun _ => ()) o.pad (segments page) :=
    htext hrefused
  exact ⟨_, by rw [formatPageWith, hpass]; rfl, htext⟩

/-! ### Formatters that are of no use -/

/-- Outside the mode that asks it, the code formatter makes no difference. -/
theorem formatBlock_of_ne_auto {style : BlockStyle} (hmode : style.mode ≠ .auto)
    (code : Option (CodeFormatter σ)) (b : Block) (p : Pass σ) :
    formatBlock style code b p = formatBlock style none b p := by
  have hcode : formatCode style code b p = formatCode style none b p := by
    unfold formatCode
    cases hm : style.mode with
    | auto => exact absurd hm hmode
    | indentOnly => rfl
    | off => rfl
  unfold formatBlock
  rw [hcode]

/-- Whether code is to be formatted or indented, a block without a formatter is indented. -/
theorem blockText_indentOnly (style : BlockStyle) (hmode : style.mode = .auto) (b : Block) :
    blockText { style with mode := .indentOnly } b = blockText style b := by
  simp [blockText, hmode]

/-- Where each call of the code formatter that formatting a page makes fails or gives nothing of use,
    the page is formatted into what it is formatted to where code is only to be indented, whatever the
    markup formatter. -/
theorem formatPageWith_of_refused (o : Options) (hmode : o.mode = .auto)
    (markup : Options → MarkupFormatter) (hmarkup : ∀ mode, markup { o with mode := mode } = markup o)
    (code : CodeFormatter σ) (page : Text) (state : σ)
    (hcalls : ∀ x ∈ pageCalls o (markup o) code page state, x.2.refused x.1 = true)
    (code' : Option (CodeFormatter τ)) (state' : τ) :
    ∃ out out', formatPageWith o (markup o) (some code) page state = .ok out ∧
      formatPageWith { o with mode := .indentOnly } (markup { o with mode := .indentOnly }) code' page
        state' = .ok out' ∧ out.text = out'.text := by
  have hindented : ∀ b (p : Pass τ), ∃ p',
      formatBlock ({ o with mode := .indentOnly } : Options).blockStyle code' b p =
        .ok (blockText o.blockStyle b, p') := by
    intro b p
    rw [formatBlock_of_ne_auto (by simp [Options.blockStyle]),
      ← blockText_indentOnly o.blockStyle hmode b]
    exact formatBlock_none _ b p
  obtain ⟨out, hout, htext⟩ := exists_formatPageWith_of_refused hcalls
  obtain ⟨out', hout', htext'⟩ := exists_formatPageWith hindented (markup o) page state'
  rw [hmarkup .indentOnly]
  exact ⟨out, out', hout, hout', htext.trans htext'.symm⟩

/-- Three blocks of code. What the formatter gives for the first, a class of its own, could be used for
    a declaration but not for statements. At the second it fails, and so it is not asked for the third,
    where it would have answered. -/
theorem formatPageWith_of_refused_page :
    let o : Options := ⟨4, false, 2, .auto, .keep, true, "format -".toList, .int 10, 1000⟩
    let code : CodeFormatter Nat := fun _ n =>
      if n = 1 then (⟨.error (.error (.reported "no more")), []⟩, 2)
      else (⟨.ok "class A \x7b int a; \x7d".toList, []⟩, n + 1)
    let markup : Options → MarkupFormatter := fun o text => .ok (o.unit ++ text)
    let page : Text := "<p><% if (a) \x7b b(); \x7d %></p>\n<%! int c; %>\n<%! int d; %>".toList
    (o.mode = .auto ∧ (∀ mode, markup { o with mode := mode } = markup o) ∧
        (pageCalls o (markup o) code page 0).length = 2 ∧
        ∀ x ∈ pageCalls o (markup o) code page 0, x.2.refused x.1 = true) ∧
      ∃ out out', formatPageWith o (markup o) (some code) page 0 = .ok out ∧
        formatPageWith { o with mode := .indentOnly } (markup { o with mode := .indentOnly })
          (none : Option (CodeFormatter Nat)) page 0 = .ok out' ∧ out.text = out'.text := by
  intro o code markup page
  have hcalls : (pageCalls o (markup o) code page 0).length = 2 ∧
      ∀ x ∈ pageCalls o (markup o) code page 0, x.2.refused x.1 = true := by
    decide +kernel
  exact ⟨⟨rfl, fun _ => rfl, hcalls⟩,
    formatPageWith_of_refused o rfl markup (fun _ => rfl) code page 0 hcalls.2 none 0⟩

end JspLayout
