import JspLayout.Java.Indenter
import JspLayout.Settings.Basic

/-! Checked settings.

    Options are settings in their domain: widths that are integers in range, flags that are true or
    false, modes by name. The checks run in a fixed order, so that of several faults the first one
    is reported. -/

namespace JspLayout

/-- How code blocks are laid out: by an external formatter where it works, by brace depth only, or
    not at all. -/
inductive CodeMode where
  | auto
  | indentOnly
  | off
  deriving DecidableEq, Repr

/-- How markup is laid out: one tag to a line, or as written. -/
inductive MarkupMode where
  | reflow
  | keep
  deriving DecidableEq, Repr

/-- How a code block is laid out. -/
structure BlockStyle where
  mode : CodeMode
  /-- One level of indentation. -/
  unit : Text
  normalizeDirectives : Bool
  deriving DecidableEq

/-- The settings in their domain. -/
structure Options where
  indentWidth : Int
  useTabs : Bool
  interiorIndent : Int
  mode : CodeMode
  markup : MarkupMode
  normalizeDirectives : Bool
  command : Text
  timeout : Value
  maxFileSize : Int

namespace Options

/-- One level of indentation. -/
def unit (o : Options) : Text := Java.indentUnit o.indentWidth o.useTabs

/-- What lines inside a block are indented by. -/
def pad (o : Options) : Text := Text.spaces o.interiorIndent

def blockStyle (o : Options) : BlockStyle := ⟨o.mode, o.unit, o.normalizeDirectives⟩

end Options

namespace Value

def integer (key : String) : Value → Except SettingsError Int
  | .int i => .ok i
  | _ => .error (.notInteger key)

def flag (key : String) : Value → Except SettingsError Bool
  | .bool b => .ok b
  | _ => .error (.notBoolean key)

def mode? : Value → Option CodeMode
  | .text name =>
    if name = "auto".toList then some .auto
    else if name = "indent-only".toList then some .indentOnly
    else if name = "off".toList then some .off
    else none
  | _ => none

def markupMode? : Value → Option MarkupMode
  | .text name =>
    if name = "soup".toList then some .reflow
    else if name = "none".toList then some .keep
    else none
  | _ => none

/-- Whether a value is a number that is not at most zero. -/
def isTimeout : Value → Bool
  | .int i => decide (0 < i)
  | .double x => !x.isAtMostZero
  | _ => false

end Value

namespace Settings

/-- The options of settings under proper names. -/
def options (s : Settings) : Except SettingsError Options := do
  let indentWidth ← s.indentWidth.integer "indent_width"
  let interiorIndent ← s.interiorIndent.integer "block_interior_indent"
  let maxFileSize ← s.maxFileSize.integer "max_file_size"
  if indentWidth ≤ 0 then throw (.notPositive "indent_width")
  if interiorIndent < 0 then throw (.negative "block_interior_indent")
  if maxFileSize ≤ 0 then throw (.notPositive "max_file_size")
  let useTabs ← s.useTabIndent.flag "use_tab_indent"
  let normalizeDirectives ← s.normalizeDirectives.flag "normalize_directives"
  let some mode := s.codeMode.mode? | throw .unknownMode
  let some markup := s.markup.markupMode? | throw .unknownMarkup
  let .text command := s.command | throw .emptyCommand
  if command = [] then throw .emptyCommand
  if !s.timeout.isTimeout then throw .badTimeout
  pure ⟨indentWidth, useTabs, interiorIndent, mode, markup, normalizeDirectives, command, s.timeout,
    maxFileSize⟩

/-- The options of settings, or what is wrong with them. -/
def check (s : Settings) : Except SettingsFailure Options :=
  match s.normalize with
  | .error fault => .error (.fault fault)
  | .ok s => s.options.mapError .invalid

end Settings

end JspLayout
