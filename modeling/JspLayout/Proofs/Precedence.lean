import JspLayout.Proofs.Documents

/-! The nearest settings.

    Of the tables that are tried for a directory the first one that is there decides, and what lies
    further up is not looked at. Main statement: that table alone says what settings are in force, those
    it gives over the defaults or none at all where it is no table or names what is no setting; and stores
    whose files agree as far as that table give the same settings (`loadSettings_nearest`). -/

namespace JspLayout

/-! ### What a table says -/

namespace Value

/-- A mode under its proper name. -/
def properMode : Value → Value
  | .text name => .text (Settings.modeAlias name)
  | v => v

/-- Whether a table gives the mode no list and no table. -/
def givesMode : Value → Bool
  | .table entries => entries.all fun e => Settings.dashless e.1 != Settings.modeKey || !e.2.isCompound
  | _ => true

end Value

namespace Settings

/-- The entries of a table under the names of settings, where a dash stands for an underscore. -/
def spelled (table : Toml.Table) : Toml.Table := table.map fun e => (dashless e.1, e.2)

/-- The value that a table gives to a setting, that of the last entry under its name. -/
def given? (table : Toml.Table) (name : Text) : Option Value := (spelled table).reverse.lookup name

/-- The name and the value of a setting where a table counts, from its name and its default. -/
def inForce (table : Toml.Table) (setting : String × Value) : String × Value :=
  let v := (given? table setting.1.toList).getD setting.2
  (setting.1, if setting.1.toList = modeKey then v.properMode else v)

theorem exists_of_given? {table : Toml.Table} {name : Text} {v : Value} (h : given? table name = some v) :
    ∃ e ∈ table, dashless e.1 = name ∧ e.2 = v := by
  obtain ⟨before, after, hsplit, -⟩ := List.lookup_eq_some_iff.mp h
  have hmem : (name, v) ∈ spelled table := by
    rw [← List.mem_reverse, hsplit]
    simp
  obtain ⟨e, he, heq⟩ := List.mem_map.mp hmem
  obtain ⟨hname, hv⟩ := Prod.mk.inj heq
  exact ⟨e, he, hname, hv⟩

theorem mem_names_of_setAll? : ∀ {given : Toml.Table} {s t : Settings}, s.setAll? given = some t →
    ∀ e ∈ given, e.1 ∈ names
  | [], _, _, _ => by simp
  | e :: given, s, t, h => by
    rw [setAll?, List.foldlM_cons] at h
    obtain ⟨s', hs', h⟩ := Option.bind_eq_some_iff.mp h
    exact List.forall_mem_cons.mpr ⟨(entries_of_set? hs').1, mem_names_of_setAll? h⟩

theorem toList_eq_modeKey_iff {name : String} : name.toList = modeKey ↔ name = "code_format_mode" :=
  String.toList_inj

theorem entries_of_normalize {s t : Settings} (h : s.normalize = .ok t) :
    t.entries = s.entries.map fun e => (e.1, if e.1.toList = modeKey then e.2.properMode else e.2) := by
  have ht : t = { s with codeMode := s.codeMode.properMode } := by
    obtain ⟨width, tabs, interior, mode, markup, directives, command, timeout, size⟩ := s
    cases mode <;> cases h <;> rfl
  simp only [ht, entries, List.map_cons, List.map_nil, toList_eq_modeKey_iff, String.reduceEq, if_true, if_false]

/-- The mode of settings that a table gives is a value of the table, or the default. -/
theorem isCompound_of_entries {t : Settings} {table : Toml.Table}
    (ht : t.entries = ({} : Settings).entries.map fun e => (e.1, (given? table e.1.toList).getD e.2))
    (hgives : (Value.table table).givesMode = true) : t.codeMode.isCompound = false := by
  have hmode : t.codeMode = (given? table modeKey).getD (.text "auto".toList) :=
    codeMode_of_entries (f := fun name v => (given? table name).getD v) ht
  cases hgiven : given? table modeKey with
  | none =>
    rw [hmode, hgiven]
    rfl
  | some v =>
    obtain ⟨e, he, hname, rfl⟩ := exists_of_given? hgiven
    rw [hmode, hgiven]
    simpa [hname] using List.all_eq_true.mp hgives e he

end Settings

/-- What comes of a table with the value `v`: the defaults with what it gives, or an error that names
    the table where it is none or names what is no setting. -/
structure Decided (t : TableName) (file : Text) (v : Value) (r : Except LoadError Settings) : Prop where
  empty : v = .table [] → r = .ok {}
  known : ∀ table, v = .table table → (∀ e ∈ table, Settings.dashless e.1 ∈ Settings.names) →
    ∃ settings, r = .ok settings ∧ settings.entries = ({} : Settings).entries.map (Settings.inForce table)
  unknown : ∀ table, v = .table table → (∃ e ∈ table, Settings.dashless e.1 ∉ Settings.names) →
    r = .error (.settings (.invalid (.invalidTable t.keys file)))
  noTable : (∀ table, v ≠ .table table) → r = .error (.settings (.invalid (.invalidTable t.keys file)))

/-- The settings of a value that stands where a table may. -/
def valueSettings (t : TableName) (file : Text) (v : Value) : Except LoadError Settings :=
  ((Settings.ofTable t.keys file v).mapError fun e => .settings (.invalid e)) >>= fun settings =>
    settings.normalize.mapError fun f => .settings (.fault f)

theorem decided_valueSettings (t : TableName) (file : Text) {v : Value} (hnull : v ≠ .null)
    (hgives : v.givesMode = true) : Decided t file v (valueSettings t file v) where
  empty h := by
    subst h
    rfl
  known table h hknown := by
    subst h
    obtain ⟨settings, hset, hentries⟩ := Settings.exists_setAll? {} (Settings.spelled table)
      (List.forall_mem_map.mpr hknown)
    have hcompound := Settings.isCompound_of_entries hentries hgives
    have hof : Settings.ofTable t.keys file (.table table) = .ok settings := by
      rw [Settings.spelled] at hset
      simp only [Settings.ofTable, hset]
    cases hnormal : settings.normalize with
    | error f => rw [(Settings.normalize_eq_error_iff.mp hnormal).1] at hcompound; cases hcompound
    | ok normal =>
      refine ⟨normal, ?_, ?_⟩
      · simp only [valueSettings, hof, Except.mapError, bind, Except.bind, hnormal]
      · rw [Settings.entries_of_normalize hnormal, hentries, List.map_map]
        rfl
  unknown table h hunknown := by
    subst h
    obtain ⟨e, he, hname⟩ := hunknown
    have hset : Settings.setAll? {} (Settings.spelled table) = none := by
      refine Option.eq_none_iff_forall_ne_some.mpr fun settings h => hname ?_
      exact Settings.mem_names_of_setAll? h _ (List.mem_map_of_mem he)
    have hof : Settings.ofTable t.keys file (.table table) = .error (.invalidTable t.keys file) := by
      rw [Settings.spelled] at hset
      simp only [Settings.ofTable, hset]
    simp only [valueSettings, hof, Except.mapError, bind, Except.bind]
  noTable h := by
    cases v with
    | null => exact absurd rfl hnull
    | table table => exact absurd rfl (h table)
    | bool | int | double | text | moment | list => rfl

/-! ### The first table that is there -/

/-- What the file of a table holds, if there is one that can be read. -/
def settingsBytes (s : Store) (denials : Denials) (c : Location × TableName) : Option Bytes :=
  match denials (.load (settingsPath c.1 c.2)), s.entryAt [] true (settingsPath c.1 c.2) with
  | none, .ok (_, .file f) => some f.content
  | _, _ => none

/-- The text of the file of a table, if there is one. -/
def settingsText? (s : Store) (denials : Denials) (c : Location × TableName) : Option Text :=
  (settingsBytes s denials c).bind fun bytes => (Utf8.decode bytes).toOption

/-- The value of a table, if it is there in a file that is TOML. -/
def tableValue? (s : Store) (denials : Denials) (c : Location × TableName) : Option Value :=
  (settingsText? s denials c).bind fun text => (Toml.parse text).toOption.bind (tableAt? c.2.keys)

/-- Whether an integer of a document is too long to be read. -/
def Toml.hasLongInteger (text : Text) : Bool :=
  match parse text with
  | .error (.tooManyDigits _) => true
  | _ => false

/-- The file of a table can be looked up and is a text without integers too long to be read, in which
    no mode is a list or a table. -/
@[mk_iff]
structure InOrder (s : Store) (denials : Denials) (c : Location × TableName) : Prop where
  lookUp : denials (.lookUp (settingsPath c.1 c.2)) = none
  fits : s.entryAt [] true (settingsPath c.1 c.2) ≠ .error .nameTooLong
  decodes : ∀ bytes ∈ settingsBytes s denials c, (Utf8.decode bytes).isOk = true
  integers : ∀ text ∈ settingsText? s denials c, Toml.hasLongInteger text = false
  mode : ∀ v ∈ tableValue? s denials c, v.givesMode = true

instance (s : Store) (denials : Denials) (c : Location × TableName) : Decidable (InOrder s denials c) :=
  decidable_of_iff _ (inOrder_iff s denials c).symm

/-- Of the tables `cs`, those `before` the table `c` are not there, and `c` is there with the value `v`. -/
structure FirstTable (s : Store) (denials : Denials) (cs before : List (Location × TableName))
    (c : Location × TableName) (v : Value) : Prop where
  order : ∃ after, cs = before ++ c :: after
  absent : ∀ b ∈ before, tableValue? s denials b = none
  value : tableValue? s denials c = some v

section

variable {s s' : Store} {denials denials' : Denials} {c : Location × TableName}

theorem settingsBytes_eq_some {bytes : Bytes} (h : settingsBytes s denials c = some bytes)
    (hlook : denials (.lookUp (settingsPath c.1 c.2)) = none) : HoldsBytes s denials c.1 c.2 bytes := by
  unfold settingsBytes at h
  split at h
  · next l f hload hentry => exact ⟨hlook, hload, l, f, hentry, Option.some.inj h⟩
  · cases h

theorem unreadable_of_settingsBytes (h : settingsBytes s denials c = none)
    (hlook : denials (.lookUp (settingsPath c.1 c.2)) = none)
    (hfits : s.entryAt [] true (settingsPath c.1 c.2) ≠ .error .nameTooLong) :
    Unreadable s denials c.1 c.2 := by
  cases hentry : s.entryAt [] true (settingsPath c.1 c.2) with
  | error e => exact .missing hlook hentry fun he => hfits (he ▸ hentry)
  | ok found =>
    obtain ⟨l, e⟩ := found
    cases e with
    | directory | link => exact .notFile hlook hentry (by simp)
    | file f =>
      refine .refused hlook hentry (Option.isSome_iff_ne_none.mpr fun hload => ?_)
      simp [settingsBytes, hload, hentry] at h

theorem holdsText_of_settingsText? {text : Text} (h : settingsText? s denials c = some text)
    (hlook : denials (.lookUp (settingsPath c.1 c.2)) = none) : HoldsText s denials c.1 c.2 text := by
  obtain ⟨bytes, hbytes, hdecode⟩ := Option.bind_eq_some_iff.mp h
  exact ⟨bytes, settingsBytes_eq_some hbytes hlook, toOption_eq_some_iff.mp hdecode⟩

theorem exists_of_tableValue? {v : Value} (h : tableValue? s denials c = some v) :
    ∃ text doc, settingsText? s denials c = some text ∧ Toml.parse text = .ok doc ∧
      tableAt? c.2.keys doc = some v := by
  obtain ⟨text, htext, h⟩ := Option.bind_eq_some_iff.mp h
  obtain ⟨doc, hdoc, h⟩ := Option.bind_eq_some_iff.mp h
  exact ⟨text, doc, htext, toOption_eq_some_iff.mp hdoc, h⟩

theorem ne_null_of_tableValue? {v : Value} (h : tableValue? s denials c = some v) : v ≠ .null := by
  obtain ⟨text, doc, -, hparse, htable⟩ := exists_of_tableValue? h
  rintro rfl
  exact Toml.nullFree_parse hparse c.2.keys htable

/-- A table that is there decides. -/
theorem tableSettings_of_tableValue? {v : Value} (h : tableValue? s denials c = some v)
    (hlook : denials (.lookUp (settingsPath c.1 c.2)) = none) :
    tableSettings s denials c.1 c.2 = (valueSettings c.2 (settingsPath c.1 c.2) v).map some := by
  obtain ⟨text, doc, htext, hparse, htable⟩ := exists_of_tableValue? h
  have htext := holdsText_of_settingsText? htext hlook
  rw [tableSettings_of_table (htext.readTables_eq hparse) htable, valueSettings]
  cases Settings.ofTable c.2.keys (settingsPath c.1 c.2) v <;> rfl

/-- A table that is not there is passed over. -/
theorem InOrder.passedOver (hc : InOrder s denials c) (h : tableValue? s denials c = none) :
    PassedOver s denials c.1 c.2 := by
  cases hbytes : settingsBytes s denials c with
  | none => exact .unreadable (unreadable_of_settingsBytes hbytes hc.lookUp hc.fits)
  | some bytes =>
    obtain ⟨text, hdecode⟩ : ∃ text, Utf8.decode bytes = .ok text := by
      have hok := hc.decodes bytes hbytes
      cases hdecode : Utf8.decode bytes with
      | error e => simp [hdecode, Except.isOk, Except.toBool] at hok
      | ok text => exact ⟨text, rfl⟩
    have hsettings : settingsText? s denials c = some text := by
      simp [settingsText?, hbytes, hdecode, Except.toOption]
    have htext := holdsText_of_settingsText? hsettings hc.lookUp
    cases hparse : Toml.parse text with
    | ok doc =>
      simp only [tableValue?, hsettings, hparse, Option.bind_some, Except.toOption] at h
      exact .absent htext hparse h
    | error e =>
      cases e with
      | malformed => exact .unreadable (.malformed htext hparse)
      | tooManyDigits n =>
        have hshort := hc.integers text hsettings
        simp [Toml.hasLongInteger, hparse] at hshort

/-- The first table that is not passed over says what the search finds. -/
theorem firstSettings_of_table {before after : List (Location × TableName)} {r : Except LoadError Settings}
    (hbefore : ∀ b ∈ before, tableSettings s denials b.1 b.2 = .ok none)
    (hc : tableSettings s denials c.1 c.2 = r.map some) :
    firstSettings s denials (before ++ c :: after) = r := by
  rw [firstSettings_absent hbefore, firstSettings_cons, hc]
  cases r <;> rfl

/-! ### Stores that agree -/

/-- The file of a table holds the same in a second store, where it can be looked up, too. -/
@[mk_iff]
structure Agrees (s : Store) (denials : Denials) (s' : Store) (denials' : Denials)
    (c : Location × TableName) : Prop where
  bytes : settingsBytes s' denials' c = settingsBytes s denials c
  lookUp : denials' (.lookUp (settingsPath c.1 c.2)) = none
  fits : s'.entryAt [] true (settingsPath c.1 c.2) ≠ .error .nameTooLong

instance (s : Store) (denials : Denials) (s' : Store) (denials' : Denials) (c : Location × TableName) :
    Decidable (Agrees s denials s' denials' c) :=
  decidable_of_iff _ (agrees_iff s denials s' denials' c).symm

/-- A file is read as it is, whatever else is in the store. -/
theorem Agrees.tableSettings_eq (h : Agrees s denials s' denials' c) (hc : InOrder s denials c) :
    tableSettings s' denials' c.1 c.2 = tableSettings s denials c.1 c.2 := by
  have hread : readTables s' denials' (settingsPath c.1 c.2) =
      readTables s denials (settingsPath c.1 c.2) := by
    cases hbytes : settingsBytes s denials c with
    | none =>
      rw [(unreadable_of_settingsBytes hbytes hc.lookUp hc.fits).readTables_eq,
        (unreadable_of_settingsBytes (h.bytes.trans hbytes) h.lookUp h.fits).readTables_eq]
    | some bytes =>
      rw [(settingsBytes_eq_some hbytes hc.lookUp).readTables_eq,
        (settingsBytes_eq_some (h.bytes.trans hbytes) h.lookUp).readTables_eq]
  rw [settingsPath] at hread
  simp only [tableSettings, hread]

end

/-! ### The settings of a directory -/

/-- The settings of a directory are those of the first table that is there, nearest first, else the
    defaults; and in a store that agrees as far as that table they are the same. -/
theorem loadSettings_nearest {s : Store} {cwd : Location} {denials : Denials} {dir : Path} {l : Location}
    (hdir : resolve s cwd false dir = .ok l) :
    ((∀ c ∈ candidates l, InOrder s denials c ∧ tableValue? s denials c = none) →
        loadSettings s cwd denials dir = .ok {}) ∧
      ∀ before c v, FirstTable s denials (candidates l) before c v →
        (∀ b ∈ before ++ [c], InOrder s denials b) →
        Decided c.2 (settingsPath c.1 c.2) v (loadSettings s cwd denials dir) ∧
          ∀ s' cwd' denials' dir', resolve s' cwd' false dir' = .ok l →
            (∀ b ∈ before ++ [c], Agrees s denials s' denials' b) →
            loadSettings s' cwd' denials' dir' = loadSettings s cwd denials dir := by
  rw [loadSettings_of_resolve hdir]
  refine ⟨fun h => ?_, fun before c v hfirst horder => ?_⟩
  · have hpassed := firstSettings_passedOver (fun c hc => (h c hc).1.passedOver (h c hc).2) []
    rwa [List.append_nil] at hpassed
  · obtain ⟨after, hcs⟩ := hfirst.order
    have hbefore : ∀ b ∈ before, tableSettings s denials b.1 b.2 = .ok none := fun b hb =>
      ((horder b (List.mem_append_left _ hb)).passedOver (hfirst.absent b hb)).tableSettings_eq
    have hc := tableSettings_of_tableValue? hfirst.value (horder c (by simp)).lookUp
    rw [hcs, firstSettings_of_table hbefore hc]
    refine ⟨decided_valueSettings _ _ (ne_null_of_tableValue? hfirst.value)
      ((horder c (by simp)).mode v hfirst.value), fun s' cwd' denials' dir' hdir' hagrees => ?_⟩
    have hsame : ∀ b ∈ before ++ [c], tableSettings s' denials' b.1 b.2 = tableSettings s denials b.1 b.2 :=
      fun b hb => (hagrees b hb).tableSettings_eq (horder b hb)
    rw [loadSettings_of_resolve hdir', hcs]
    refine firstSettings_of_table (fun b hb => ?_) ((hsame c (by simp)).trans hc)
    exact (hsame b (List.mem_append_left _ hb)).trans (hbefore b hb)

/-- A directory with a file that is no TOML and one that spells a setting in two ways, below a directory
    whose settings nobody asks for, be they such that they may not even be looked up. -/
theorem loadSettings_nearest_dotfile :
    let file (text : String) : Entry :=
      .file { number := 1, mode := 0o644, changed := 0, content := Utf8.encode text.toList }
    let s (above : Entry) : Store :=
      { entries := [(["site".toList], .directory), (["site".toList, "pyproject.toml".toList], file "tool = ["),
          (["site".toList, ".jspfmt.toml".toList],
            file "[jspfmt]\nindent-width = 4\nindent_width = 8\ncode-format-mode = 'indentOnly'"),
          ([".jspfmt.toml".toList], above)] }
    let denials : Denials := fun call =>
      if call = .lookUp "/.jspfmt.toml".toList then some ⟨true, "Permission denied"⟩ else none
    let dir := ["site".toList]
    let before : List (Location × TableName) :=
      [(dir, ⟨"pyproject.toml".toList, ["tool".toList, "jspfmt".toList]⟩)]
    let c : Location × TableName := (dir, ⟨".jspfmt.toml".toList, ["jspfmt".toList]⟩)
    let load (above : Entry) (denials : Denials) := loadSettings (s above) [] denials (.ofLocation dir)
    (∀ b ∈ before ++ [c], InOrder (s .directory) (fun _ => none) b) ∧
      (∃ v, FirstTable (s .directory) (fun _ => none) (candidates dir) before c v ∧
        Decided c.2 (settingsPath c.1 c.2) v (load .directory fun _ => none)) ∧
        load (file "[jspfmt]\nindent_width = []") denials = load .directory (fun _ => none) ∧
          (load .directory fun _ => none).map
            (fun settings => (settings.indentWidth.display, settings.codeMode.display)) =
              .ok ("8".toList, "indent-only".toList) := by
  intro file s denials dir before c load
  have horder : ∀ b ∈ before ++ [c], InOrder (s .directory) (fun _ => none) b := by decide +kernel
  have hagrees : ∀ b ∈ before ++ [c],
      Agrees (s .directory) (fun _ => none) (s (file "[jspfmt]\nindent_width = []")) denials b := by
    decide +kernel
  have hvalue : (tableValue? (s .directory) (fun _ => none) c).isSome = true := by decide +kernel
  obtain ⟨v, hv⟩ := Option.isSome_iff_exists.mp hvalue
  have hfirst : FirstTable (s .directory) (fun _ => none) (candidates dir) before c v :=
    ⟨⟨(candidates dir).drop 2, by decide +kernel⟩, by decide +kernel, hv⟩
  have hdir : resolve (s .directory) [] false (.ofLocation dir) = .ok dir := by decide +kernel
  obtain ⟨hdecided, hsame⟩ := (loadSettings_nearest hdir).2 before c v hfirst horder
  exact ⟨horder, ⟨v, hfirst, hdecided⟩,
    hsame _ [] denials (.ofLocation dir) (by decide +kernel) hagrees, by decide +kernel⟩

/-- A link to a name that is too long is not passed over, though there is no table. -/
theorem loadSettings_breaks_off :
    let s : Store := { entries := [([".jspfmt.toml".toList], .link (List.replicate 256 'a'))] }
    let load := loadSettings s [] (fun _ => none) (.ofLocation [])
    (∀ c ∈ candidates [], tableValue? s (fun _ => none) c = none) ∧
      load = .error (.lookup .nameTooLong "/.jspfmt.toml".toList) := by
  intro s load
  have hload : load.map (fun _ => ()) = .error (.lookup .nameTooLong "/.jspfmt.toml".toList) := by
    decide +kernel
  refine ⟨by decide +kernel, ?_⟩
  cases hresult : load with
  | error e => simpa [hresult, Except.map] using hload
  | ok settings => simp [hresult, Except.map] at hload

end JspLayout
