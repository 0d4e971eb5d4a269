import JspLayout.Settings.Value

/-! Settings as they are written, and how they are collected.

    There are nine settings, each with a default. A settings table gives some of them under their
    names, where a dash stands for an underscore; the later of two spellings of one name counts.
    Overrides given on the command line replace what the file says. Nothing is checked here but the
    names. -/

namespace JspLayout

/-- The settings, each with a value of any kind. -/
structure Settings where
  indentWidth : Value := .int 2
  useTabIndent : Value := .bool false
  interiorIndent : Value := .int 2
  codeMode : Value := .text "auto".toList
  markup : Value := .text "soup".toList
  normalizeDirectives : Value := .bool true
  command : Value :=
    .text ("prettier --plugin=prettier-plugin-java --parser=java " ++
      "--tab-width=\x7bindent_width\x7d --use-tabs=\x7buse_tabs\x7d").toList
  timeout : Value := .double (.ofDecimal false 10 0)
  maxFileSize : Value := .int 10485760

/-- An operation met a value that it cannot be done on, and nothing was made of that. -/
inductive Fault where
  /-- A value of the wrong kind, or an unknown name. -/
  | wrongKind
  /-- A value has no such attribute. -/
  | noAttribute
  /-- A number that stands for no character. -/
  | noCharacter
  /-- An integer beyond the numbers that can be written as fractions. -/
  | tooLarge
  /-- What a program wrote is no text. -/
  | undecodable
  /-- An argument of a program holds a null character. -/
  | nullCharacter
  /-- A program is to be given a time that cannot be measured. -/
  | unmeasurable
  deriving DecidableEq, Repr

/-- What is wrong with a settings table or a setting. -/
inductive SettingsError where
  | invalidTable (path : List Text) (file : Text)
  | notInteger (key : String)
  | notPositive (key : String)
  | negative (key : String)
  | notBoolean (key : String)
  | unknownMode
  | unknownMarkup
  | emptyCommand
  | badTimeout
  deriving DecidableEq

namespace SettingsError

/-- The wording of an error. -/
def message : SettingsError → String
  | .invalidTable path file =>
    "Invalid `[" ++ String.ofList (Text.join ['.'] path) ++ "]` settings in " ++ String.ofList file
  | .notInteger key => "`" ++ key ++ "` must be an integer"
  | .notPositive key => "`" ++ key ++ "` must be a positive integer"
  | .negative key => "`" ++ key ++ "` must be a non-negative integer"
  | .notBoolean key => "`" ++ key ++ "` must be a boolean"
  | .unknownMode => "`code_format_mode` must be one of: auto, indent-only, off, indentOnly"
  | .unknownMarkup => "`markup_formatter` must be one of: soup, none"
  | .emptyCommand => "`code_formatter_command` must be a non-empty string"
  | .badTimeout => "`code_formatter_timeout` must be a positive number"

end SettingsError

/-- Settings that cannot be used: they are invalid, or of a kind that cannot even be looked at. -/
inductive SettingsFailure where
  | invalid (error : SettingsError)
  | fault (fault : Fault)
  deriving DecidableEq

namespace Settings

/-- The settings by name. -/
def entries (s : Settings) : List (String × Value) :=
  [("indent_width", s.indentWidth), ("use_tab_indent", s.useTabIndent),
    ("block_interior_indent", s.interiorIndent), ("code_format_mode", s.codeMode),
    ("markup_formatter", s.markup), ("normalize_directives", s.normalizeDirectives),
    ("code_formatter_command", s.command), ("code_formatter_timeout", s.timeout),
    ("max_file_size", s.maxFileSize)]

/-- The settings with one of them set, if there is one of that name. -/
def set? (s : Settings) (name : Text) (v : Value) : Option Settings :=
  if name = "indent_width".toList then some { s with indentWidth := v }
  else if name = "use_tab_indent".toList then some { s with useTabIndent := v }
  else if name = "block_interior_indent".toList then some { s with interiorIndent := v }
  else if name = "code_format_mode".toList then some { s with codeMode := v }
  else if name = "markup_formatter".toList then some { s with markup := v }
  else if name = "normalize_directives".toList then some { s with normalizeDirectives := v }
  else if name = "code_formatter_command".toList then some { s with command := v }
  else if name = "code_formatter_timeout".toList then some { s with timeout := v }
  else if name = "max_file_size".toList then some { s with maxFileSize := v }
  else none

/-- The settings with several of them set in turn. -/
def setAll? (s : Settings) (entries : List (Text × Value)) : Option Settings :=
  entries.foldlM (fun s (name, v) => s.set? name v) s

/-- A name as it may be written in a table, with dashes. -/
def dashless (key : Text) : Text := key.map fun c => if c = '-' then '_' else c

/-- The settings of a table at `path` in `file`. An empty table gives the defaults. -/
def ofTable (path : List Text) (file : Text) : Value → Except SettingsError Settings
  | .null => .ok {}
  | .table entries =>
    match setAll? {} (entries.map fun (k, v) => (dashless k, v)) with
    | some s => .ok s
    | none => .error (.invalidTable path file)
  | _ => .error (.invalidTable path file)

/-- Overrides that say something. -/
def changes (overrides : List (Text × Value)) : List (Text × Value) :=
  overrides.filter fun
    | (_, .null) => false
    | _ => true

/-- The settings with overrides applied; those without a value are passed over. -/
def override (s : Settings) (overrides : List (Text × Value)) : Except Fault Settings :=
  match s.setAll? (changes overrides) with
  | some s => .ok s
  | none => .error .wrongKind

/-- Another spelling of a mode's name. -/
def modeAlias (name : Text) : Text :=
  if name = "indentOnly".toList ∨ name = "indent_only".toList then "indent-only".toList else name

/-- The settings with the mode under its proper name. A list or a table is no name at all. -/
def normalize (s : Settings) : Except Fault Settings :=
  match s.codeMode with
  | .text name => .ok { s with codeMode := .text (modeAlias name) }
  | .list _ | .table _ => .error .wrongKind
  | _ => .ok s

end Settings

/-- The value at a path of keys in nested tables. -/
def tableAt? : List Text → Value → Option Value
  | [], v => some v
  | key :: path, v => (v.get? key).bind (tableAt? path)

end JspLayout
