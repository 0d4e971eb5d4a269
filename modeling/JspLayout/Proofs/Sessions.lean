import JspLayout.Proofs.Blocks

/-! Sessions with a code formatter.

    A session asks the code formatter for every block of code until a call fails. A reply that cannot
    be used, and every block after a failure, is left to the indenter. Main statement: over any blocks
    and whatever the formatter replies, at most one call fails and it is the last one, and the
    counters of the session agree with the blocks that were passed and the calls that were made. -/

namespace JspLayout

open Text

variable {σ : Type}

/-! ### What one block does -/

/-- A block of code: a scriptlet or a declaration that is not blank. -/
def Block.isCode (b : Block) : Bool :=
  decide (b.kind = .scriptlet ∨ b.kind = .declaration) && !b.inner.blank

/-- What the code formatter is sent for a block. -/
def Block.wrapped (b : Block) : Text := Java.wrap b.inner b.kind

/-- The formatter answers a call with code or with an error of its own, whatever its state. -/
def Answers (f : CodeFormatter σ) (text : Text) : Prop :=
  ∀ (state : σ) (fault : Fault), (f text state).1.result ≠ .error (.fault fault)

/-- What can come of a block: its text, the session after it and the state of the formatter. -/
inductive Turn (style : BlockStyle) (f : CodeFormatter σ) (b : Block) (p : Pass σ) :
    Text → Session → σ → Prop
  | idle : b.isCode = false ∨ style.mode = .off →
      Turn style f b p (blockText style b) p.session p.formatter
  | indented : b.isCode = true → style.mode ≠ .off →
      (style.mode = .auto → p.session.available = false) →
      Turn style f b p (blockText style b)
        { p.session with fallbacks := p.session.fallbacks + 1 } p.formatter
  | formatted {text code : Text} : b.isCode = true → style.mode = .auto →
      p.session.available = true → (f b.wrapped p.formatter).1.result = .ok text →
      Java.unwrap? text b.kind = some code →
      Turn style f b p (blockLines b.kind code)
        { p.session with formatted := p.session.formatted + 1 } (f b.wrapped p.formatter).2
  | unusable {text : Text} : b.isCode = true → style.mode = .auto →
      p.session.available = true → (f b.wrapped p.formatter).1.result = .ok text →
      Java.unwrap? text b.kind = none →
      Turn style f b p (blockText style b)
        { p.session with fallbacks := p.session.fallbacks + 1 } (f b.wrapped p.formatter).2
  | failed {e : CodeError} : b.isCode = true → style.mode = .auto →
      p.session.available = true → (f b.wrapped p.formatter).1.result = .error (.error e) →
      Turn style f b p (blockText style b)
        { p.session with available := false, fallbacks := p.session.fallbacks + 1 }
        (f b.wrapped p.formatter).2

theorem blockText_of_isCode {style : BlockStyle} {b : Block} (hb : b.isCode = true)
    (hmode : style.mode ≠ .off) :
    blockText style b = blockLines b.kind (Java.reformatWith style.unit b.inner) := by
  simp only [Block.isCode, Bool.and_eq_true, decide_eq_true_eq, Bool.not_eq_true'] at hb
  rw [blockText_code hb.1, if_neg (by simp [hb.2]), if_neg hmode]

/-- A block of code in a session whose formatter is asked. -/
theorem exists_turn_auto {style : BlockStyle} {f : CodeFormatter σ} {b : Block} {p : Pass σ}
    (hf : ∀ fault, (f b.wrapped p.formatter).1.result ≠ .error (.fault fault)) (hb : b.isCode = true)
    (hmode : style.mode = .auto) (havail : p.session.available = true) :
    ∃ text p', formatCode style (some f) b p = .ok (text, p') ∧
      Turn style f b p text p'.session p'.formatter := by
  have hblank : b.inner.blank = false := by
    simp only [Block.isCode, Bool.and_eq_true, Bool.not_eq_true'] at hb
    exact hb.2
  have htext : blockText style b = blockLines b.kind (Java.reformatWith style.unit b.inner) :=
    blockText_of_isCode hb (by simp [hmode])
  unfold formatCode
  rw [if_neg (by simp [hblank]), hmode]
  simp only [havail, if_true, formatExternally]
  cases hr : (f (Java.wrap b.inner b.kind) p.formatter).1.result with
  | error failure =>
    cases failure with
    | fault fault => exact absurd hr (hf fault)
    | error e =>
      refine ⟨_, _, rfl, ?_⟩
      have := Turn.failed (f := f) (p := p) hb hmode havail hr
      rw [htext] at this
      exact this
  | ok text =>
    dsimp only
    cases hu : Java.unwrap? text b.kind with
    | some code => exact ⟨_, _, rfl, .formatted hb hmode havail hr hu⟩
    | none =>
      refine ⟨_, _, rfl, ?_⟩
      have := Turn.unusable (f := f) (p := p) hb hmode havail hr hu
      rw [htext] at this
      exact this

/-- The formatter is asked for a block. -/
def Asks (style : BlockStyle) (b : Block) (p : Pass σ) : Prop :=
  b.isCode = true ∧ style.mode = .auto ∧ p.session.available = true

/-- A scriptlet or a declaration in a session. -/
theorem exists_turn_code {style : BlockStyle} {f : CodeFormatter σ} {b : Block} {p : Pass σ}
    (hf : Asks style b p → ∀ fault, (f b.wrapped p.formatter).1.result ≠ .error (.fault fault))
    (hkind : b.kind = .scriptlet ∨ b.kind = .declaration) :
    ∃ text p', formatCode style (some f) b p = .ok (text, p') ∧
      Turn style f b p text p'.session p'.formatter := by
  by_cases hblank : b.inner.blank = true
  · refine ⟨blockText style b, p, ?_, .idle (Or.inl (by simp [Block.isCode, hblank]))⟩
    simp [formatCode, blockText_code hkind, hblank]
  have hb : b.isCode = true := by simp [Block.isCode, hkind, hblank]
  cases hmode : style.mode with
  | off =>
    refine ⟨blockText style b, p, ?_, .idle (Or.inr hmode)⟩
    simp [formatCode, blockText_code hkind, hblank, hmode]
  | indentOnly =>
    refine ⟨blockText style b, (formatByDepth style b p).2, ?_,
      .indented hb (by simp [hmode]) (by simp [hmode])⟩
    simp [formatCode, formatByDepth, blockText_code hkind, hblank, hmode]
  | auto =>
    by_cases havail : p.session.available = true
    · exact exists_turn_auto (hf ⟨hb, hmode, havail⟩) hb hmode havail
    · refine ⟨blockText style b, (formatByDepth style b p).2, ?_,
        .indented hb (by simp [hmode]) (by simp [havail])⟩
      simp [formatCode, formatByDepth, blockText_code hkind, hblank, hmode, havail]

/-- Every block is formatted, and in one of the ways above, unless the formatter is asked and breaks
    down. -/
theorem exists_turn (style : BlockStyle) {f : CodeFormatter σ} {b : Block} (p : Pass σ)
    (hf : Asks style b p → ∀ fault, (f b.wrapped p.formatter).1.result ≠ .error (.fault fault)) :
    ∃ text p', formatBlock style (some f) b p = .ok (text, p') ∧
      Turn style f b p text p'.session p'.formatter := by
  have hother : ¬(b.kind = .scriptlet ∨ b.kind = .declaration) →
      Turn style f b p (blockText style b) p.session p.formatter :=
    fun h => .idle (Or.inl (by simp [Block.isCode, h]))
  cases hb : b.kind with
  | scriptlet => simpa [formatBlock, hb] using exists_turn_code hf (Or.inl hb)
  | declaration => simpa [formatBlock, hb] using exists_turn_code hf (Or.inr hb)
  | directive => exact ⟨_, p, by simp [formatBlock, blockText, hb], hother (by simp [hb])⟩
  | expression => exact ⟨_, p, by simp [formatBlock, blockText, hb], hother (by simp [hb])⟩
  | comment => exact ⟨_, p, by simp [formatBlock, blockText, hb], hother (by simp [hb])⟩

/-- A formatter that has failed is not asked again. -/
theorem Turn.of_unavailable {style : BlockStyle} {f : CodeFormatter σ} {b : Block} {p : Pass σ}
    {text : Text} {s : Session} {state : σ} (h : Turn style f b p text s state)
    (havail : p.session.available = false) : s.available = false ∧ state = p.formatter := by
  cases h with
  | idle => exact ⟨havail, rfl⟩
  | indented => exact ⟨havail, rfl⟩
  | formatted _ _ h => rw [havail] at h; exact absurd h (by simp)
  | unusable _ _ h => rw [havail] at h; exact absurd h (by simp)
  | failed _ _ h => rw [havail] at h; exact absurd h (by simp)

/-! ### Blocks in turn -/

/-- The blocks formatted one after the other in one pass. -/
def formatBlocks (style : BlockStyle) (f : CodeFormatter σ) :
    List Block → Pass σ → Except Fault (List Text × Pass σ)
  | [], p => .ok ([], p)
  | b :: bs, p => do
    let (text, p) ← formatBlock style (some f) b p
    let (texts, p) ← formatBlocks style f bs p
    pure (text :: texts, p)

/-- A call of the code formatter: what was sent, and code or the failure it came to. -/
structure Call where
  sent : Text
  result : Except CodeFailure Text

/-- The call came to no code. -/
def Call.failed (c : Call) : Bool := !c.result.isOk

/-- The call came to code from which the block cannot be taken back. -/
def Call.unusable (b : Block) (c : Call) : Bool :=
  c.result.toOption.any fun text => (Java.unwrap? text b.kind).isNone

/-- A formatter that keeps its calls, in order, beside its state. -/
def recorded (f : CodeFormatter σ) : CodeFormatter (σ × List Call) := fun text s =>
  ((f text s.1).1, (f text s.1).2, s.2 ++ [⟨text, (f text s.1).1.result⟩])

/-- The blocks of code among the blocks. -/
def codeBlocks (bs : List Block) : List Block := bs.filter Block.isCode

/-- The session and the calls after the blocks agree with each other and with the blocks. -/
structure Accounted (mode : CodeMode) (bs : List Block) (s : Session) (calls : List Call) : Prop where
  /-- No call follows one that fails, so at most one does. -/
  failed_last : ∀ before c after, calls = before ++ c :: after → c.failed = true → after = []
  /-- The formatter is available as long as no call has failed. -/
  available : s.available = !calls.any Call.failed
  /-- Each block of code was formatted by one of the two, unless code is left alone. -/
  total : s.formatted + s.fallbacks = if mode = .off then 0 else (codeBlocks bs).length
  /-- Each call gave the code of a block, or code that could not be used, or was the one that
      failed. -/
  length_calls : calls.length = s.formatted +
    ((codeBlocks bs).zip calls).countP (fun x => x.2.unusable x.1) + if s.available then 0 else 1
  /-- The calls were made for the first blocks of code, each once and in order. -/
  sent : calls.map Call.sent <+: (codeBlocks bs).map Block.wrapped
  /-- Only the mode that asks the formatter makes calls. -/
  silent : mode ≠ .auto → calls = []
  /-- As long as it is available, the formatter is asked for every block of code. -/
  eager : mode = .auto → s.available = true → calls.length = (codeBlocks bs).length

theorem accounted_start (mode : CodeMode) : Accounted mode [] {} [] where
  failed_last := by simp
  available := rfl
  total := by simp [codeBlocks]
  length_calls := rfl
  sent := List.prefix_rfl
  silent := fun _ => rfl
  eager := fun _ _ => rfl

theorem codeBlocks_concat_code {b : Block} (hb : b.isCode = true) (bs : List Block) :
    codeBlocks (bs ++ [b]) = codeBlocks bs ++ [b] := by simp [codeBlocks, hb]

theorem codeBlocks_concat_other {b : Block} (hb : b.isCode = false) (bs : List Block) :
    codeBlocks (bs ++ [b]) = codeBlocks bs := by simp [codeBlocks, hb]

theorem zip_append_of_length_le {α β : Type} : ∀ {xs : List α} {ys : List β}, ys.length ≤ xs.length →
    ∀ zs : List α, (xs ++ zs).zip ys = xs.zip ys
  | _, [], _, zs => by simp
  | x :: xs, y :: ys, h, zs => by
    simp only [List.cons_append, List.zip_cons_cons]
    rw [zip_append_of_length_le (by simpa using h) zs]

section

variable {mode : CodeMode} {bs : List Block} {s s' : Session} {calls : List Call} {b : Block}

theorem Accounted.length_le (h : Accounted mode bs s calls) :
    calls.length ≤ (codeBlocks bs).length := by
  simpa using h.sent.length_le

/-- A block that is no code changes nothing. -/
theorem Accounted.other (h : Accounted mode bs s calls) (hb : b.isCode = false) :
    Accounted mode (bs ++ [b]) s calls := by
  obtain ⟨hlast, havail, htotal, hlength, hsent, hsilent, heager⟩ := h
  constructor <;> try rw [codeBlocks_concat_other hb]
  all_goals assumption

/-- A block of code for which no call is made, because code is left alone, the formatter is not to be
    asked or it has failed. -/
theorem Accounted.uncalled (h : Accounted mode bs s calls) (hb : b.isCode = true)
    (hquiet : mode = .auto → s.available = false) (havail : s'.available = s.available)
    (hformatted : s'.formatted = s.formatted)
    (hfallbacks : s'.fallbacks = if mode = .off then s.fallbacks else s.fallbacks + 1) :
    Accounted mode (bs ++ [b]) s' calls where
  failed_last := h.failed_last
  available := havail.trans h.available
  total := by
    have htotal := h.total
    rw [codeBlocks_concat_code hb, hformatted, hfallbacks, List.length_append, List.length_singleton]
    by_cases hmode : mode = .off
    · simpa [hmode] using htotal
    · simp only [hmode, if_false] at htotal ⊢
      omega
  length_calls := by
    rw [codeBlocks_concat_code hb, zip_append_of_length_le h.length_le, hformatted, havail]
    exact h.length_calls
  sent := by
    rw [codeBlocks_concat_code hb, List.map_append]
    exact h.sent.trans (List.prefix_append _ _)
  silent := h.silent
  eager := fun hmode h' => by rw [havail, hquiet hmode] at h'; exact absurd h' (by simp)

/-- A block of code for which a call is made. -/
theorem Accounted.called (h : Accounted .auto bs s calls) (hb : b.isCode = true)
    (havail : s.available = true) {c : Call} (hsent : c.sent = b.wrapped)
    (havail' : s'.available = !c.failed)
    (htotal : s'.formatted + s'.fallbacks = s.formatted + s.fallbacks + 1)
    (hlength : s'.formatted + (if c.unusable b then 1 else 0) + (if s'.available then 0 else 1) =
      s.formatted + 1) :
    Accounted .auto (bs ++ [b]) s' (calls ++ [c]) := by
  have heager := h.eager rfl havail
  have hnone : ∀ c ∈ calls, c.failed = false := by
    have := h.available
    simpa [havail] using this
  constructor
  case failed_last =>
    intro before d after heq hd
    rcases List.eq_nil_or_concat' after with rfl | ⟨after, e, rfl⟩
    · rfl
    · rw [← List.cons_append, ← List.append_assoc] at heq
      have hmem : d ∈ calls := by
        rw [(List.append_inj' heq rfl).1]
        simp
      rw [hnone d hmem] at hd
      exact absurd hd (by simp)
  case available =>
    have : calls.any Call.failed = false := by simpa using hnone
    rw [havail', List.any_append, this]
    simp
  case total =>
    have := h.total
    rw [codeBlocks_concat_code hb]
    simp_all
  case length_calls =>
    have := h.length_calls
    rw [codeBlocks_concat_code hb, List.zip_append heager.symm, List.countP_append]
    simp only [List.zip_cons_cons, List.zip_nil_left, List.countP_singleton, List.length_append,
      List.length_singleton, havail, if_true] at this ⊢
    omega
  case sent =>
    obtain ⟨t, ht⟩ := h.sent
    have ht' : t = [] := by
      have := congrArg List.length ht
      simp only [List.length_append, List.length_map] at this
      exact List.eq_nil_of_length_eq_zero (by omega)
    rw [codeBlocks_concat_code hb, List.map_append, List.map_append, ← ht, ht']
    simp [hsent]
  case silent => exact fun hne => absurd rfl hne
  case eager =>
    intro _ _
    rw [codeBlocks_concat_code hb, List.length_append, List.length_append, heager]
    rfl

end

/-- One block keeps the account. -/
theorem Accounted.turn {style : BlockStyle} {f : CodeFormatter σ} {bs : List Block} {b : Block}
    {p : Pass (σ × List Call)} {text : Text} {s : Session} {state : σ × List Call}
    (h : Accounted style.mode bs p.session p.formatter.2)
    (ht : Turn style (recorded f) b p text s state) :
    Accounted style.mode (bs ++ [b]) s state.2 ∧ p.formatter.2 <+: state.2 := by
  cases ht with
  | idle hidle =>
    refine ⟨?_, List.prefix_rfl⟩
    by_cases hb : b.isCode = true
    · have hoff : style.mode = .off := hidle.resolve_left (by simp [hb])
      exact h.uncalled hb (by simp [hoff]) rfl rfl (by simp [hoff])
    · exact h.other (by simpa using hb)
  | indented hb hmode hquiet =>
    exact ⟨h.uncalled hb hquiet rfl rfl (by simp [hmode]), List.prefix_rfl⟩
  | formatted hb hmode havail hresult hunwrap =>
    have hresult : (f b.wrapped p.formatter.1).1.result = .ok _ := hresult
    refine ⟨?_, List.prefix_append _ _⟩
    rw [hmode] at h ⊢
    refine h.called hb havail rfl ?_ ?_ ?_ <;>
      simp [Call.failed, Call.unusable, hresult, hunwrap, havail, Except.isOk, Except.toBool,
        Except.toOption]
    omega
  | unusable hb hmode havail hresult hunwrap =>
    have hresult : (f b.wrapped p.formatter.1).1.result = .ok _ := hresult
    refine ⟨?_, List.prefix_append _ _⟩
    rw [hmode] at h ⊢
    refine h.called hb havail rfl ?_ ?_ ?_ <;>
      simp [Call.failed, Call.unusable, hresult, hunwrap, havail, Except.isOk, Except.toBool,
        Except.toOption]
    omega
  | failed hb hmode havail hresult =>
    have hresult : (f b.wrapped p.formatter.1).1.result = .error _ := hresult
    refine ⟨?_, List.prefix_append _ _⟩
    rw [hmode] at h ⊢
    refine h.called hb havail rfl ?_ ?_ ?_ <;>
      simp [Call.failed, Call.unusable, hresult, Except.isOk, Except.toBool, Except.toOption]
    omega

/-! ### Whole sessions -/

/-- Blocks in turn keep the account, calls are only added, and none after a failure. -/
theorem exists_formatBlocks {f : CodeFormatter σ} (hf : ∀ text, Answers (recorded f) text)
    (style : BlockStyle) :
    ∀ (bs passed : List Block) (p : Pass (σ × List Call)),
      Accounted style.mode passed p.session p.formatter.2 →
        ∃ texts p', formatBlocks style (recorded f) bs p = .ok (texts, p') ∧
          Accounted style.mode (passed ++ bs) p'.session p'.formatter.2 ∧
          p.formatter.2 <+: p'.formatter.2 ∧
          (p.session.available = false →
            p'.session.available = false ∧ p'.formatter = p.formatter)
  | [], passed, p, h => ⟨[], p, rfl, by simpa using h, List.prefix_rfl, fun h => ⟨h, rfl⟩⟩
  | b :: bs, passed, p, h => by
    obtain ⟨text, p₁, hblock, hturn⟩ := exists_turn style p fun _ => hf b.wrapped p.formatter
    obtain ⟨h₁, hcalls₁⟩ := h.turn hturn
    obtain ⟨texts, p₂, hrun, h₂, hcalls₂, hquiet₂⟩ := exists_formatBlocks hf style bs _ p₁ h₁
    refine ⟨text :: texts, p₂, ?_, by simpa using h₂, hcalls₁.trans hcalls₂, fun hun => ?_⟩
    · simp [formatBlocks, hblock, hrun, bind, Except.bind, pure, Except.pure]
    · obtain ⟨hun₁, hstate₁⟩ := hturn.of_unavailable hun
      obtain ⟨hun₂, hstate₂⟩ := hquiet₂ hun₁
      exact ⟨hun₂, hstate₂.trans hstate₁⟩

theorem formatBlocks_append (style : BlockStyle) (f : CodeFormatter σ) {bs : List Block}
    {p p' : Pass σ} {texts : List Text} (h : formatBlocks style f bs p = .ok (texts, p')) :
    ∀ bs', formatBlocks style f (bs ++ bs') p =
      (formatBlocks style f bs' p').map fun r => (texts ++ r.1, r.2) := by
  intro bs'
  induction bs generalizing p texts with
  | nil =>
    obtain ⟨rfl, rfl⟩ : [] = texts ∧ p = p' := by simpa [formatBlocks] using h
    rw [List.nil_append]
    cases formatBlocks style f bs' p <;> rfl
  | cons b bs ih =>
    rw [formatBlocks] at h
    rw [List.cons_append, formatBlocks]
    cases hblock : formatBlock style (some f) b p with
    | error e => rw [hblock] at h; exact absurd h (by simp [bind, Except.bind])
    | ok r =>
      cases hrun : formatBlocks style f bs r.2 with
      | error e => simp [hblock, hrun, bind, Except.bind] at h
      | ok r' =>
        obtain ⟨rfl, rfl⟩ : r.1 :: r'.1 = texts ∧ r'.2 = p' := by
          simpa [hblock, hrun, bind, Except.bind, pure, Except.pure] using h
        simp only [bind, Except.bind, ih hrun]
        cases formatBlocks style f bs' r'.2 <;> rfl

/-- Taking a note in a pass. -/
def takeNote (n : Note) : StateT (Pass σ) (Except Fault) Unit := modify fun p => p.note n

/-- The pass without what its formatter keeps beside its state. -/
def Pass.forget {κ : Type} (p : Pass (σ × κ)) : Pass σ := ⟨p.session, p.formatter.1, p.notes⟩

section

variable {κ : Type} {f : CodeFormatter σ} {f' : CodeFormatter (σ × κ)} {b : Block} {p : Pass (σ × κ)}

theorem formatExternally_forget (hreply : (f' b.wrapped p.formatter).1 = (f b.wrapped p.formatter.1).1)
    (hstate : (f' b.wrapped p.formatter).2.1 = (f b.wrapped p.formatter.1).2) :
    formatExternally f b p.forget = (formatExternally f' b p).map fun r => (r.1, r.2.forget) := by
  have hreply : (f' (Java.wrap b.inner b.kind) p.formatter).1 =
      (f (Java.wrap b.inner b.kind) p.formatter.1).1 := hreply
  have hstate : (f' (Java.wrap b.inner b.kind) p.formatter).2.1 =
      (f (Java.wrap b.inner b.kind) p.formatter.1).2 := hstate
  unfold formatExternally
  simp only [Pass.forget, hreply, ← hstate]
  split
  · rfl
  · rfl
  · split <;> rfl

variable (f') in
/-- A block is formatted alike with two formatters that agree on it, one of them with more in its
    state. They need not agree where the formatter is not asked. -/
theorem formatBlock_forget {style : BlockStyle}
    (h : Asks style b p → (f' b.wrapped p.formatter).1 = (f b.wrapped p.formatter.1).1 ∧
      (f' b.wrapped p.formatter).2.1 = (f b.wrapped p.formatter.1).2) :
    formatBlock style (some f) b p.forget =
      (formatBlock style (some f') b p).map fun r => (r.1, r.2.forget) := by
  have hcode : b.kind = .scriptlet ∨ b.kind = .declaration → formatCode style (some f) b p.forget =
      (formatCode style (some f') b p).map fun r => (r.1, r.2.forget) := by
    intro hkind
    unfold formatCode
    split
    · rfl
    next hblank =>
    cases hmode : style.mode with
    | off => rfl
    | indentOnly => rfl
    | auto =>
      dsimp only
      by_cases havail : p.session.available = true
      · obtain ⟨hreply, hstate⟩ := h ⟨by simp [Block.isCode, hkind, hblank], hmode, havail⟩
        rw [if_pos havail, if_pos (show p.forget.session.available = true from havail),
          formatExternally_forget hreply hstate]
        cases formatExternally f' b p with
        | error e => rfl
        | ok r =>
          obtain ⟨code, p'⟩ := r
          cases code <;> rfl
      · rw [if_neg havail, if_neg (show ¬p.forget.session.available = true from havail)]
        rfl
  unfold formatBlock
  cases hkind : b.kind with
  | scriptlet => exact hcode (Or.inl hkind)
  | declaration => exact hcode (Or.inr hkind)
  | directive => rfl
  | expression => rfl
  | comment => rfl

end

/-- Keeping the calls changes nothing else. -/
theorem formatBlock_recorded (style : BlockStyle) (f : CodeFormatter σ) (b : Block)
    (p : Pass (σ × List Call)) : formatBlock style (some f) b p.forget =
      (formatBlock style (some (recorded f)) b p).map fun r => (r.1, r.2.forget) :=
  formatBlock_forget (recorded f) fun _ => ⟨rfl, rfl⟩

theorem formatBlocks_recorded (style : BlockStyle) (f : CodeFormatter σ) :
    ∀ (bs : List Block) (p : Pass (σ × List Call)), formatBlocks style f bs p.forget =
      (formatBlocks style (recorded f) bs p).map fun r => (r.1, r.2.forget)
  | [], p => rfl
  | b :: bs, p => by
    rw [formatBlocks, formatBlocks, formatBlock_recorded]
    cases formatBlock style (some (recorded f)) b p with
    | error e => rfl
    | ok r =>
      simp only [Except.map, bind, Except.bind, formatBlocks_recorded style f bs r.2]
      cases formatBlocks style (recorded f) bs r.2 <;> rfl

/-- A session over any blocks, with a formatter that may give any code or error at each call. After
    each stretch of blocks the counters of the session agree with the blocks and the calls. Calls are
    only added by the blocks that follow, and none after one has failed: the formatter is then
    unavailable for good. Keeping the calls for this statement does not change what is formatted. -/
theorem accounted_formatBlocks (o : Options) (f : CodeFormatter σ) (hf : ∀ text, Answers f text)
    (state : σ) (passed rest : List Block) :
    ∃ texts texts' p p',
      formatBlocks o.blockStyle (recorded f) passed { formatter := (state, []) } = .ok (texts, p) ∧
      formatBlocks o.blockStyle (recorded f) (passed ++ rest) { formatter := (state, []) } =
        .ok (texts', p') ∧
      formatBlocks o.blockStyle f passed { formatter := state } = .ok (texts, p.forget) ∧
      Accounted o.mode passed p.session p.formatter.2 ∧
      p.formatter.2 <+: p'.formatter.2 ∧
      (p.session.available = false →
        p'.session.available = false ∧ p'.formatter.2 = p.formatter.2) := by
  let start : Pass (σ × List Call) := { formatter := (state, []) }
  have hf' : ∀ text, Answers (recorded f) text := fun text s => hf text s.1
  obtain ⟨texts, p, hrun, haccount, -, -⟩ :=
    exists_formatBlocks hf' o.blockStyle passed [] start (accounted_start o.mode)
  obtain ⟨texts', p', hrun', -, hcalls, hquiet⟩ :=
    exists_formatBlocks hf' o.blockStyle rest ([] ++ passed) p haccount
  refine ⟨texts, texts ++ texts', p, p', hrun, ?_, ?_, haccount, hcalls, fun hun => ?_⟩
  · rw [formatBlocks_append o.blockStyle (recorded f) hrun, hrun']
    rfl
  · have hforget := formatBlocks_recorded o.blockStyle f passed start
    rw [hrun] at hforget
    exact hforget
  · obtain ⟨hun', hstate⟩ := hquiet hun
    exact ⟨hun', congrArg Prod.snd hstate⟩

/-- Seven blocks, five of them code: the formatter gives code for the first, something else for the
    second and fails at the third. -/
theorem accounted_formatBlocks_failing :
    let o : Options := ⟨2, false, 2, .auto, .keep, true, "format -".toList, .int 10, 1000⟩
    let f : CodeFormatter Nat := fun text n =>
      if n = 0 then (⟨.ok text, []⟩, 1)
      else if n = 1 then (⟨.ok "?".toList, []⟩, 2)
      else (⟨.error (.error (.reported "no more")), []⟩, 3)
    let blocks (sources : List String) : List Block :=
      sources.map fun source => Block.classify source.toList 0
    let passed := blocks ["<% a(); %>", "<%= b %>", "<%! int c; %>", "<% %>", "<% d(); %>"]
    let rest := blocks ["<% e(); %>", "<%! f(); %>"]
    (∀ text, Answers f text) ∧
      ∃ texts texts' p p',
        formatBlocks o.blockStyle (recorded f) passed { formatter := (0, []) } = .ok (texts, p) ∧
        formatBlocks o.blockStyle (recorded f) (passed ++ rest) { formatter := (0, []) } =
          .ok (texts', p') ∧
        formatBlocks o.blockStyle f passed { formatter := 0 } = .ok (texts, p.forget) ∧
        Accounted o.mode passed p.session p.formatter.2 ∧
        p.formatter.2 <+: p'.formatter.2 ∧
        (p.session.available = false →
          p'.session.available = false ∧ p'.formatter.2 = p.formatter.2) := by
  intro o f blocks passed rest
  have hf : ∀ text, Answers f text := by
    intro text n fault
    simp only [f]
    split
    · simp
    · split <;> simp
  exact ⟨hf, accounted_formatBlocks o f hf 0 passed rest⟩

end JspLayout
