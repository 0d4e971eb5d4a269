import JspLayout.Settings.Load
import Mathlib.Data.List.Induction
import Mathlib.Tactic.CasesM

/-! Settings that are found, and errors on the way to them.

    The settings in force in a directory are those of the first table that is there, with the overrides
    applied. Main statement: an error other than one about the settings themselves comes up exactly where
    the directory has no absolute form, or a settings file is reached that may not be looked up, whose path
    is too long, whose bytes are no text, which holds a number too long to be read or in which the mode is a
    list or a table, or where such a mode is given as an override. Settings that are accepted are in their
    domain, but for a timeout that is not a number; and a file that is not there, cannot be read or is no
    TOML is passed over. -/

namespace JspLayout

/-! ### Results of computations that may fail -/

section

variable {ε ε' α β : Type}

theorem bind_eq_ok {x : Except ε α} {f : α → Except ε β} {b : β} :
    x >>= f = .ok b ↔ ∃ a, x = .ok a ∧ f a = .ok b := by
  cases x <;> simp [bind, Except.bind]

theorem mapError_eq_ok {x : Except ε α} {f : ε → ε'} {a : α} : x.mapError f = .ok a ↔ x = .ok a := by
  cases x <;> simp [Except.mapError]

theorem toOption_eq_some_iff {x : Except ε α} {a : α} : x.toOption = some a ↔ x = .ok a := by
  cases x <;> simp [Except.toOption]

/-- A refusal in front of a computation is met where its condition holds. -/
theorem refusal_eq_ok {p : Prop} [Decidable p] {e : ε} {f : β → Except ε α} {x : Except ε α} {a : α} :
    (if p then throw e >>= f else x) = .ok a ↔ ¬p ∧ x = .ok a := by
  by_cases hp : p <;> simp [hp, bind, Except.bind, throw, throwThe, MonadExceptOf.throw]

end

theorem lookup_cons_eq {β : Type} (e : Text × β) (k : Text) (t : List (Text × β)) :
    (e :: t).lookup k = if k = e.1 then some e.2 else t.lookup k := by
  obtain ⟨k', v⟩ := e
  rw [List.lookup_cons]
  by_cases h : k = k'
  · simp [h]
  · simp [h, beq_false_of_ne h]

/-! ### The domain of the settings -/

namespace Value

/-- A list or a table, which is the name of nothing. -/
def isCompound : Value → Bool
  | .list _ | .table _ => true
  | _ => false

end Value

namespace Settings

/-- The name of the mode of code. -/
def modeKey : Text := "code_format_mode".toList

/-- The names of the settings. -/
def names : List Text := ({} : Settings).entries.map fun e => e.1.toList

theorem isSome_set? (s : Settings) {name : Text} (h : name ∈ names) (v : Value) :
    (s.set? name v).isSome = true := by
  simp only [names, entries, List.map_cons, List.map_nil, List.mem_cons, List.not_mem_nil, or_false] at h
  casesm* _ ∨ _ <;> subst name <;> rfl

/-- Setting one of the settings leaves the others. -/
theorem entries_of_set? {s t : Settings} {name : Text} {v : Value} (h : s.set? name v = some t) :
    name ∈ names ∧ t.entries = s.entries.map fun e => (e.1, if e.1.toList = name then v else e.2) := by
  simp only [set?, ite_eq_iff, Option.some.injEq, reduceCtorEq, and_false, or_false] at h
  casesm* _ ∨ _, _ ∧ _ <;> subst name <;> subst t
  all_goals
    simp only [names, entries, List.map_cons, List.map_nil, List.mem_cons, true_or, or_true, true_and,
      String.toList_inj, String.reduceEq, if_true, if_false]

/-- Entries with known names can all be set, and of several under one name the last one counts. -/
theorem exists_setAll? (s : Settings) (given : List (Text × Value)) (h : ∀ e ∈ given, e.1 ∈ names) :
    ∃ t, s.setAll? given = some t ∧
      t.entries = s.entries.map fun e => (e.1, (given.reverse.lookup e.1.toList).getD e.2) := by
  induction given using List.reverseRecOn with
  | nil => exact ⟨s, rfl, by simp⟩
  | append_singleton given e ih =>
    obtain ⟨t, ht, hentries⟩ := ih fun e he => h e (List.mem_append_left _ he)
    obtain ⟨u, hu⟩ := Option.isSome_iff_exists.mp (isSome_set? t (h e (by simp)) e.2)
    refine ⟨u, ?_, ?_⟩
    · rw [setAll?] at ht ⊢
      rw [List.foldlM_append, ht]
      simpa using hu
    · rw [(entries_of_set? hu).2, hentries, List.map_map]
      refine List.map_congr_left fun d _ => ?_
      simp only [Function.comp, List.reverse_append, List.reverse_singleton, List.singleton_append, lookup_cons_eq]
      split <;> rfl

theorem codeMode_of_entries {s t : Settings} {f : Text → Value → Value}
    (h : t.entries = s.entries.map fun e => (e.1, f e.1.toList e.2)) : t.codeMode = f modeKey s.codeMode := by
  simp only [entries, List.map_cons, List.cons.injEq, Prod.mk.injEq, true_and] at h
  exact h.2.2.2.1

/-- Normalizing fails exactly where the mode is a list or a table. -/
theorem normalize_eq_error_iff {s : Settings} {f : Fault} :
    s.normalize = .error f ↔ s.codeMode.isCompound = true ∧ f = .wrongKind := by
  rw [normalize]
  cases hmode : s.codeMode <;> simp [Value.isCompound, eq_comm]

end Settings

/-! ### Settings files -/

/-- The path of the file of a table in a directory. -/
def settingsPath (dir : Location) (t : TableName) : Text := ((Path.ofLocation dir).entry t.file).text

/-- The file of a table can be read and holds the bytes. -/
structure HoldsBytes (s : Store) (denials : Denials) (dir : Location) (t : TableName) (bytes : Bytes) :
    Prop where
  lookUp : denials (.lookUp (settingsPath dir t)) = none
  load : denials (.load (settingsPath dir t)) = none
  entry : ∃ l f, s.entryAt [] true (settingsPath dir t) = .ok (l, .file f) ∧ f.content = bytes

/-- The file of a table can be read and holds a text. -/
def HoldsText (s : Store) (denials : Denials) (dir : Location) (t : TableName) (text : Text) : Prop :=
  ∃ bytes, HoldsBytes s denials dir t bytes ∧ Utf8.decode bytes = .ok text

/-- The file of a table cannot be read, or is no TOML. -/
inductive Unreadable (s : Store) (denials : Denials) (dir : Location) (t : TableName) : Prop
  | missing {e : LookupError} (hlook : denials (.lookUp (settingsPath dir t)) = none)
      (hentry : s.entryAt [] true (settingsPath dir t) = .error e) (he : e ≠ .nameTooLong)
  | notFile {l : Location} {e : Entry} (hlook : denials (.lookUp (settingsPath dir t)) = none)
      (hentry : s.entryAt [] true (settingsPath dir t) = .ok (l, e)) (he : ∀ f, e ≠ .file f)
  | refused {l : Location} {f : File} (hlook : denials (.lookUp (settingsPath dir t)) = none)
      (hentry : s.entryAt [] true (settingsPath dir t) = .ok (l, .file f))
      (hload : (denials (.load (settingsPath dir t))).isSome = true)
  | malformed {text : Text} (htext : HoldsText s denials dir t text)
      (hparse : Toml.parse text = .error .malformed)

/-- The search goes on after the table. -/
inductive PassedOver (s : Store) (denials : Denials) (dir : Location) (t : TableName) : Prop
  | unreadable (h : Unreadable s denials dir t)
  | absent {text : Text} {v : Value} (htext : HoldsText s denials dir t text)
      (hparse : Toml.parse text = .ok v) (htable : tableAt? t.keys v = none)

section

variable {s : Store} {denials : Denials} {dir : Location} {t : TableName}

theorem HoldsBytes.readTables_eq {bytes : Bytes} (h : HoldsBytes s denials dir t bytes) :
    readTables s denials (settingsPath dir t) = readDocument bytes := by
  obtain ⟨hlook, hload, l, f, hentry, rfl⟩ := h
  simp only [readTables, hlook, hentry, hload, Option.isSome_none, Bool.false_eq_true, if_false, readDocument]

theorem HoldsText.readTables_eq {text : Text} {v : Value} (h : HoldsText s denials dir t text)
    (hparse : Toml.parse text = .ok v) : readTables s denials (settingsPath dir t) = .ok (some v) := by
  obtain ⟨bytes, hbytes, hdecode⟩ := h
  simp only [hbytes.readTables_eq, readDocument, hdecode, hparse]

theorem Unreadable.readTables_eq (h : Unreadable s denials dir t) :
    readTables s denials (settingsPath dir t) = .ok none := by
  cases h with
  | @missing e hlook hentry he =>
    cases e <;> first | exact absurd rfl he | simp only [readTables, hlook, hentry]
  | @notFile l e hlook hentry he =>
    cases e with
    | file f => exact absurd rfl (he f)
    | directory | link => simp only [readTables, hlook, hentry]
  | refused hlook hentry hload => simp only [readTables, hlook, hentry, hload, if_true]
  | malformed htext hparse =>
    obtain ⟨bytes, hbytes, hdecode⟩ := htext
    simp only [hbytes.readTables_eq, readDocument, hdecode, hparse]

end

section

variable {s : Store} {denials : Denials} {dir : Location} {t : TableName}

theorem tableSettings_of_readTables_none (h : readTables s denials (settingsPath dir t) = .ok none) :
    tableSettings s denials dir t = .ok none := by
  rw [settingsPath] at h
  simp only [tableSettings, h, bind, Except.bind, pure, Except.pure]

theorem tableSettings_of_absent {v : Value} (h : readTables s denials (settingsPath dir t) = .ok (some v))
    (htable : tableAt? t.keys v = none) : tableSettings s denials dir t = .ok none := by
  rw [settingsPath] at h
  simp only [tableSettings, h, htable, bind, Except.bind, pure, Except.pure]

theorem tableSettings_of_table {v table : Value}
    (h : readTables s denials (settingsPath dir t) = .ok (some v)) (htable : tableAt? t.keys v = some table) :
    tableSettings s denials dir t =
      ((Settings.ofTable t.keys (settingsPath dir t) table).mapError fun e => .settings (.invalid e)) >>=
        fun settings => (settings.normalize.mapError fun f => .settings (.fault f)).map some := by
  rw [settingsPath] at h
  simp only [tableSettings, h, htable, settingsPath, bind, Except.bind, pure, Except.pure]
  rfl

theorem PassedOver.tableSettings_eq (h : PassedOver s denials dir t) :
    tableSettings s denials dir t = .ok none := by
  cases h with
  | unreadable h => exact tableSettings_of_readTables_none h.readTables_eq
  | absent htext hparse htable => exact tableSettings_of_absent (htext.readTables_eq hparse) htable

end

theorem firstSettings_cons (s : Store) (denials : Denials) (c : Location × TableName)
    (cs : List (Location × TableName)) :
    firstSettings s denials (c :: cs) =
      tableSettings s denials c.1 c.2 >>= fun found => found.elim (firstSettings s denials cs) .ok := by
  rw [firstSettings]
  cases tableSettings s denials c.1 c.2 with
  | error e => rfl
  | ok found => cases found <;> rfl

/-- A table that is passed over might as well not be among those that are tried. -/
theorem firstSettings_skip {s : Store} {denials : Denials} {dir : Location} {t : TableName}
    (h : tableSettings s denials dir t = .ok none) : ∀ before after,
      firstSettings s denials (before ++ (dir, t) :: after) = firstSettings s denials (before ++ after)
  | [], after => by rw [List.nil_append, firstSettings_cons, h]; rfl
  | c :: before, after => by
    rw [List.cons_append, firstSettings_cons, List.cons_append, firstSettings_cons,
      firstSettings_skip h before after]

theorem firstSettings_absent {s : Store} {denials : Denials} : ∀ {before : List (Location × TableName)},
    (∀ c ∈ before, tableSettings s denials c.1 c.2 = .ok none) →
      ∀ after, firstSettings s denials (before ++ after) = firstSettings s denials after
  | [], _, after => rfl
  | c :: before, h, after => by
    have hskip := firstSettings_skip (h c List.mem_cons_self) [] (before ++ after)
    exact hskip.trans (firstSettings_absent (fun c hc => h c (List.mem_cons_of_mem _ hc)) after)

theorem firstSettings_passedOver {s : Store} {denials : Denials} {before : List (Location × TableName)}
    (h : ∀ c ∈ before, PassedOver s denials c.1 c.2) (after : List (Location × TableName)) :
    firstSettings s denials (before ++ after) = firstSettings s denials after :=
  firstSettings_absent (fun c hc => (h c hc).tableSettings_eq) after

/-- The tables that are tried for a directory, nearest first. -/
def candidates (l : Location) : List (Location × TableName) :=
  (directories l).flatMap fun d => settingsTables.map fun t => (d, t)

section

variable {s : Store} {cwd : Location} {denials : Denials} {dir : Path}

theorem loadSettings_of_resolve {l : Location} (h : resolve s cwd false dir = .ok l) :
    loadSettings s cwd denials dir = firstSettings s denials (candidates l) := by
  rw [loadSettings, h]
  rfl

end

end JspLayout
