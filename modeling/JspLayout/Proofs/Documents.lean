import JspLayout.Proofs.Loading

/-! Values of a TOML document.

    TOML has no way to write that a value is missing. Main statement: whatever the keys lead to in a
    document that was read is a value (`nullFree_parse`). -/

namespace JspLayout

namespace Value

/-- No keys lead from the value to a missing one. -/
def NullFree (v : Value) : Prop := ∀ keys, tableAt? keys v ≠ some .null

/-- A value that is there and holds no others. -/
def isScalar : Value → Bool
  | .null | .list _ | .table _ => false
  | _ => true

end Value

namespace Toml

/-! ### Tables -/

theorem nullFree_table_iff {t : Table} :
    (Value.table t).NullFree ↔ ∀ k v, t.lookup k = some v → v.NullFree := by
  refine ⟨fun h k v hv keys hkeys => h (k :: keys) ?_, fun h keys => ?_⟩
  · simp [tableAt?, Value.get?, hv, hkeys]
  · cases keys with
    | nil => simp [tableAt?]
    | cons k keys =>
      cases hv : t.lookup k with
      | none => simp [tableAt?, Value.get?, hv]
      | some v => simpa [tableAt?, Value.get?, hv] using h k v hv keys

theorem nullFree_of_isScalar {v : Value} (h : v.isScalar = true) : v.NullFree := by
  rintro (_ | ⟨k, keys⟩)
  · rintro ⟨⟩
    exact absurd h (by decide)
  · cases v with
    | null | list | table => exact absurd h (by simp [Value.isScalar])
    | bool | int | double | text | moment => simp [tableAt?, Value.get?]

theorem nullFree_list (items : List Value) : (Value.list items).NullFree := by
  rintro (_ | ⟨k, keys⟩) <;> simp [tableAt?, Value.get?]

theorem nullFree_nil : (Value.table []).NullFree := nullFree_table_iff.mpr (by simp)

theorem lookup_put (k : Text) (v : Value) (k' : Text) :
    ∀ t : Table, (put t k v).lookup k' = if k' = k then some v else t.lookup k'
  | [] => lookup_cons_eq (k, v) k' []
  | (k₁, v₁) :: t => by
    by_cases h : k₁ = k
    · simp only [put, h, if_true, lookup_cons_eq]
      split <;> rfl
    · simp only [put, h, if_false, lookup_cons_eq, lookup_put k v k' t]
      by_cases hk : k' = k₁
      · simp [hk, h]
      · simp [hk]

theorem nullFree_put {t : Table} {k : Text} {v : Value} (ht : (Value.table t).NullFree) (hv : v.NullFree) :
    (Value.table (put t k v)).NullFree := by
  refine nullFree_table_iff.mpr fun k' v' h => ?_
  rw [lookup_put] at h
  split at h
  · cases h
    exact hv
  · exact nullFree_table_iff.mp ht k' v' h

/-- A change of one table is a change of the tables around it. -/
theorem nullFree_change? {f : Table → Option Table}
    (hf : ∀ t u, (Value.table t).NullFree → f t = some u → (Value.table u).NullFree) :
    ∀ (key : Key) {t u : Table}, (Value.table t).NullFree → change? f key t = some u →
      (Value.table u).NullFree
  | [], t, u, ht, h => hf t u ht h
  | k :: key, t, u, ht, h => by
    rw [change?] at h
    split at h
    · obtain ⟨u, hu, rfl⟩ := Option.map_eq_some_iff.mp h
      exact nullFree_put ht (nullFree_change? hf key nullFree_nil hu)
    · next hk =>
      obtain ⟨u, hu, rfl⟩ := Option.map_eq_some_iff.mp h
      exact nullFree_put ht (nullFree_change? hf key (nullFree_table_iff.mp ht _ _ hk) hu)
    · split at h
      · obtain ⟨u, -, rfl⟩ := Option.map_eq_some_iff.mp h
        exact nullFree_put ht (nullFree_list _)
      · cases h
    · cases h

/-! ### Documents -/

/-- No keys lead to a missing value of the document. -/
def Document.NullFree (d : Document) : Prop := (Value.table d.root).NullFree

namespace Document

variable {d d' : Document}

theorem NullFree.insert? {header key : Key} {v : Value} (hd : d.NullFree) (hv : v.NullFree)
    (h : d.insert? header key v = some d') : d'.NullFree := by
  simp only [Document.insert?] at h
  split at h
  · cases h
  · obtain ⟨root, hroot, rfl⟩ := Option.map_eq_some_iff.mp h
    refine nullFree_change? (fun t u ht hu => ?_) _ hd hroot
    obtain ⟨k, -, hk⟩ := Option.bind_eq_some_iff.mp hu
    split at hk <;> cases hk
    exact nullFree_put ht hv

theorem NullFree.openTable? {key : Key} (hd : d.NullFree) (h : d.openTable? key = some d') : d'.NullFree := by
  simp only [Document.openTable?] at h
  split at h
  · cases h
  · obtain ⟨root, hroot, rfl⟩ := Option.map_eq_some_iff.mp h
    refine nullFree_change? (fun t u ht hu => ?_) _ hd hroot
    cases hu
    exact ht

theorem nullFree_appendTable? {k : Text} {t u : Table} (ht : (Value.table t).NullFree)
    (h : appendTable? k t = some u) : (Value.table u).NullFree := by
  unfold appendTable? at h
  split at h <;> cases h <;> exact nullFree_put ht (nullFree_list _)

theorem NullFree.openItem? {key : Key} (hd : d.NullFree) (h : d.openItem? key = some d') : d'.NullFree := by
  simp only [Document.openItem?] at h
  split at h
  · cases h
  · obtain ⟨root, hroot, rfl⟩ := Option.map_eq_some_iff.mp h
    refine nullFree_change? (fun t u ht hu => ?_) _ hd hroot
    obtain ⟨k, -, hk⟩ := Option.bind_eq_some_iff.mp hu
    exact nullFree_appendTable? ht hk

end Document

/-! ### Readers -/

/-- What a reader yields has the property. -/
def Yields {α : Type} (x : Reading α) (P : α → Prop) : Prop := ∀ s a s', x s = .ok (a, s') → P a

namespace Yields

variable {α β : Type} {x : Reading α} {P : α → Prop} {Q : β → Prop}

theorem bind {f : α → Reading β} (hx : Yields x P) (hf : ∀ a, P a → Yields (f a) Q) : Yields (x >>= f) Q := by
  intro s b s' h
  obtain ⟨r, hr, hb⟩ := bind_eq_ok.mp h
  exact hf r.1 (hx s r.1 r.2 hr) r.2 b s' hb

theorem any (x : Reading α) : Yields x fun _ => True := fun _ _ _ _ => trivial

/-- Nothing need be known of what was read before. -/
theorem after {f : α → Reading β} (hf : ∀ a, Yields (f a) Q) : Yields (x >>= f) Q :=
  (any x).bind fun a _ => hf a

theorem of_pure {a : α} (ha : P a) : Yields (pure a) P := by
  intro s b s' h
  cases h
  exact ha

theorem of_refuse : Yields (refuse : Reading α) P := fun _ _ _ h => by cases h

theorem ite {y : Reading α} {p : Prop} [Decidable p] (hx : Yields x P) (hy : Yields y P) :
    Yields (if p then x else y) P := by
  split
  · exact hx
  · exact hy

end Yields

theorem isScalar_decimal? {s r : Text} {v : Value} (h : decimal? s = some (.ok v, r)) : v.isScalar = true := by
  unfold decimal? at h
  obtain ⟨digits, -, h⟩ := Option.bind_eq_some_iff.mp h
  dsimp only at h
  split at h
  · split at h
    · simp at h
    · simp only [Option.some.injEq, Prod.mk.injEq, Except.ok.injEq] at h
      rw [← h.1]
      rfl
  · simp only [Option.some.injEq, Prod.mk.injEq, Except.ok.injEq] at h
    rw [← h.1]
    rfl

theorem isScalar_scalar {s s' : Text} {v : Value} (h : scalar s = .ok (v, s')) : v.isScalar = true := by
  unfold scalar at h
  split at h
  · cases h
    rfl
  · cases h
    rfl
  split at h
  · split at h <;> cases h
    rfl
  split at h
  · split at h <;> cases h
    rfl
  split at h
  · cases h
    rfl
  split at h
  · cases h
    rfl
  split at h
  · next x r hx =>
    cases x with
    | error e => cases h
    | ok v' =>
      cases h
      exact isScalar_decimal? hx
  split at h <;> cases h
  rfl

/-- Values, and the entries of inline tables, as deep as the bound lets them be. -/
theorem yields_value : ∀ bound : Nat, Yields (value bound) Value.NullFree ∧
    ∀ d : Document, d.NullFree → Yields (inlineEntries bound d) Document.NullFree
  | 0 => ⟨Yields.of_refuse, fun _ _ => Yields.of_refuse⟩
  | bound + 1 => by
    obtain ⟨hvalue, hentries⟩ := yields_value bound
    constructor
    · rw [value]
      refine Yields.after fun isList => .ite ?_ (Yields.after fun isTable => .ite ?_ ?_)
      · refine Yields.after fun _ => Yields.after fun _ => .ite (.of_pure (nullFree_list [])) ?_
        exact Yields.after fun vs => .of_pure (nullFree_list vs)
      · refine Yields.after fun _ => Yields.after fun _ => .ite (.of_pure nullFree_nil) ?_
        exact (hentries {} nullFree_nil).bind fun d hd => .of_pure hd
      · exact fun s v s' h => nullFree_of_isScalar (isScalar_scalar h)
    · intro d hd
      rw [inlineEntries]
      refine Yields.after fun k => Yields.after fun _ => Yields.after fun _ => hvalue.bind fun v hv => ?_
      cases hinsert : d.insert? [] k v with
      | none => exact .of_refuse
      | some d' =>
        have hd' := hd.insert? hv hinsert
        refine Yields.after fun _ => Yields.after fun _ => .ite (.of_pure hd') ?_
        exact Yields.after fun _ => Yields.after fun _ => hentries d' hd'

theorem yields_statement {d : Document} (hd : d.NullFree) (bound : Nat) (header : Key) :
    Yields (statement bound d header) fun r => r.1.NullFree := by
  refine Yields.after fun isHeader => .ite ?_ (Yields.after fun s => .ite (.of_pure hd) ?_)
  · refine Yields.after fun isItem => Yields.after fun _ => Yields.after fun k => ?_
    cases hopen : if isItem then d.openItem? k else d.openTable? k with
    | none => exact .of_refuse
    | some d' =>
      have hd' : d'.NullFree := by
        split at hopen
        · exact hd.openItem? hopen
        · exact hd.openTable? hopen
      exact Yields.after fun _ => .of_pure hd'
  · refine Yields.bind (P := Document.NullFree) ?_ fun d' hd' => .of_pure hd'
    refine Yields.after fun k => Yields.after fun _ => Yields.after fun _ =>
      (yields_value bound).1.bind fun v hv => ?_
    cases hinsert : d.insert? header k v with
    | none => exact .of_refuse
    | some d' => exact .of_pure (hd.insert? hv hinsert)

theorem nullFree_statements : ∀ {bound : Nat} {d d' : Document} {header : Key} {s : Text}, d.NullFree →
    statements bound d header s = .ok d' → d'.NullFree
  | 0, _, _, _, _, _, h => by cases h
  | bound + 1, d, d', header, s, hd, h => by
    rw [statements] at h
    split at h
    · cases h
      exact hd
    · exact nullFree_statements hd h
    · obtain ⟨r, hr, h⟩ := bind_eq_ok.mp h
      have hr : r.1.1.NullFree := yields_statement hd _ _ _ _ _ hr
      dsimp only at h
      split at h
      · cases h
      · cases h
        exact hr
      · exact nullFree_statements hr h
      · cases h

/-- In a document that was read keys lead to values only. -/
theorem nullFree_parse {s : Text} {v : Value} (h : parse s = .ok v) : v.NullFree := by
  simp only [parse] at h
  generalize Text.replace ['\r', '\n'] ['\n'] s = s at h
  cases hs : statements (2 * s.length + 2) {} [] s with
  | error e =>
    rw [hs] at h
    cases h
  | ok d =>
    rw [hs] at h
    cases h
    exact nullFree_statements (d := {}) nullFree_nil hs

end Toml

end JspLayout
