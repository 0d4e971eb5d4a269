import JspLayout.Files.Resolve
import JspLayout.Files.Source
import JspLayout.Settings.Options
import JspLayout.Toml.Parse

/-! Settings files.

    Settings are looked for in a directory and in those above it, nearest first. In each directory
    three tables are tried in turn; the first table that is there counts, and nothing further up is
    looked at. A file that cannot be read, or cannot be read as TOML, is passed over. -/

namespace JspLayout

/-- Why settings could not be had. -/
inductive LoadError where
  | settings (failure : SettingsFailure)
  | undecodable (error : Utf8.DecodeError)
  /-- A file holds an integer with more digits than can be read. -/
  | tooManyDigits (digits : Nat)
  | lookup (error : LookupError) (path : Text)
  | linkLoop (path : Text)
  /-- The system does not let a file be looked up. -/
  | denied (denial : Denial)
  deriving DecidableEq

/-- The wording of an error, where it has one. -/
def LoadError.message : LoadError → String
  | .settings (.invalid error) => error.message
  | .settings (.fault _) => ""
  | .undecodable error => error.message
  | .tooManyDigits digits =>
    "Exceeds the limit (" ++ String.ofList (Text.ofNat maxDigits) ++
      " digits) for integer string conversion: value has " ++ String.ofList (Text.ofNat digits) ++
      " digits; use sys.set_int_max_str_digits() to increase the limit"
  | .lookup error path => error.message path
  | .linkLoop path => "Symlink loop from " ++ String.ofList path.quoted
  | .denied denial => denial.reason

/-- A table that may hold settings: the name of its file and its path in the file. -/
structure TableName where
  file : Text
  keys : List Text
  deriving DecidableEq

/-- The tables of a directory that may hold settings, in the order they are tried. -/
def settingsTables : List TableName :=
  [⟨"pyproject.toml".toList, ["tool".toList, "jspfmt".toList]⟩,
    ⟨".jspfmt.toml".toList, ["jspfmt".toList]⟩,
    ⟨".jspfmt.toml".toList, ["tool".toList, "jspfmt".toList]⟩]

/-- What the bytes of a settings file hold, unless it is passed over. -/
def readDocument (bytes : Bytes) : Except LoadError (Option Value) :=
  match Utf8.decode bytes with
  | .error e => .error (.undecodable e)
  | .ok text =>
    match Toml.parse text with
    | .ok v => .ok (some v)
    | .error .malformed => .ok none
    | .error (.tooManyDigits n) => .error (.tooManyDigits n)

/-- What the settings file at a path holds, unless it is passed over. -/
def readTables (s : Store) (denials : Denials) (path : Text) : Except LoadError (Option Value) :=
  match denials (.lookUp path) with
  | some d => .error (.denied d)
  | none =>
    match s.entryAt [] true path with
    | .ok (_, .file f) => if (denials (.load path)).isSome then .ok none else readDocument f.content
    | .ok _ => .ok none
    | .error .nameTooLong => .error (.lookup .nameTooLong path)
    | .error _ => .ok none

/-- The settings of a table in a directory, if the table is there. -/
def tableSettings (s : Store) (denials : Denials) (dir : Location) (table : TableName) :
    Except LoadError (Option Settings) := do
  let path := ((Path.ofLocation dir).entry table.file).text
  let some tables ← readTables s denials path | pure none
  match tableAt? table.keys tables with
  | none => pure none
  | some v =>
    let settings ← (Settings.ofTable table.keys path v).mapError fun e => .settings (.invalid e)
    let settings ← settings.normalize.mapError fun f => .settings (.fault f)
    pure (some settings)

/-- The settings of the first table that is there, else the defaults. -/
def firstSettings (s : Store) (denials : Denials) :
    List (Location × TableName) → Except LoadError Settings
  | [] => .ok {}
  | (dir, table) :: rest => do
    match ← tableSettings s denials dir table with
    | some settings => pure settings
    | none => firstSettings s denials rest

/-- A directory and those above it, nearest first. -/
def directories (l : Location) : List Location :=
  (List.range (l.length + 1)).reverse.map fun n => l.take n

/-- The settings in force in a directory. -/
def loadSettings (s : Store) (cwd : Location) (denials : Denials) (dir : Path) :
    Except LoadError Settings := do
  let l ← (resolve s cwd false dir).mapError fun
    | .lookup error path => .lookup error path
    | .loop path => .linkLoop path
  firstSettings s denials ((directories l).flatMap fun d => settingsTables.map fun t => (d, t))

/-- The settings in force in a directory with overrides applied, if they are valid. -/
def buildSettings (s : Store) (cwd : Location) (denials : Denials) (dir : Path)
    (overrides : List (Text × Value)) : Except LoadError Settings := do
  let settings ← loadSettings s cwd denials dir
  let settings ← (settings.override overrides).mapError fun f => .settings (.fault f)
  let settings ← settings.normalize.mapError fun f => .settings (.fault f)
  let _ ← settings.check.mapError .settings
  pure settings

end JspLayout
