import JspLayout.CommandLine.Run
import JspLayout.CommandLine.Suggestion

/-! The front end that the program comes with.

    Arguments are first sorted into options and operands; only then are the values of options looked
    at, in the order in which the options were first given, and last the operands. So a misspelt
    option is reported before a bad value, wherever it stands.

    Of a file it is asked whether it is there, not whether it may be read. The help text names the
    options and does not explain them. -/

namespace JspLayout.CommandLine

/-- Options that take a value. -/
inductive Setting where
  | indentWidth
  | codeMode
  | interiorIndent
  | markup
  deriving DecidableEq, Repr

/-- Options that take none. -/
inductive Switch where
  | version
  | useTabs
  | useSpaces
  | keepDirectives
  | inPlace
  | check
  | verbose
  | debug
  | help
  deriving DecidableEq, Repr

/-- An option. -/
inductive Choice where
  | setting (s : Setting)
  | switch (s : Switch)
  deriving DecidableEq, Repr

/-- The options by name. -/
def optionNames : List (Text × Choice) :=
  [("--version".toList, .switch .version),
    ("--indent-width".toList, .setting .indentWidth),
    ("--use-tabs".toList, .switch .useTabs),
    ("--use-spaces".toList, .switch .useSpaces),
    ("--code-format-mode".toList, .setting .codeMode),
    ("--block-interior-indent".toList, .setting .interiorIndent),
    ("--markup-formatter".toList, .setting .markup),
    ("--no-normalize-directives".toList, .switch .keepDirectives),
    ("--in-place".toList, .switch .inPlace),
    ("--check".toList, .switch .check),
    ("--verbose".toList, .switch .verbose),
    ("--debug".toList, .switch .debug),
    ("--help".toList, .switch .help)]

/-- The name of an option that takes a value. -/
def Setting.name : Setting → Text
  | .indentWidth => "--indent-width".toList
  | .codeMode => "--code-format-mode".toList
  | .interiorIndent => "--block-interior-indent".toList
  | .markup => "--markup-formatter".toList

/-- The values that an option may have, where they are listed. -/
def Setting.values? : Setting → Option (List Text)
  | .codeMode => some ["auto".toList, "indent-only".toList, "off".toList]
  | .markup => some ["soup".toList, "none".toList]
  | .indentWidth | .interiorIndent => none

/-- What is wrong with a command line. -/
inductive UsageError where
  | unknownOption (name : Text) (meant : List Text)
  | noValue (name : Text)
  | unwantedValue (name : Text)
  | notInteger (option : Setting) (value : Text)
  | notListed (option : Setting) (value : Text) (values : List Text)
  | noFiles
  | missingFile (path : Text)
  | directory (path : Text)
  deriving DecidableEq

namespace UsageError

def quotedList (names : List Text) : String :=
  String.ofList (Text.join [',', ' '] (names.map Text.quoted))

/-- The wording of an error. -/
def message : UsageError → String
  | .unknownOption name meant =>
    let hint :=
      match meant with
      | [] => ""
      | [_] => " Did you mean " ++ quotedList meant ++ "?"
      | _ => " (Possible options: " ++ quotedList meant ++ ")"
    "No such option " ++ String.ofList name.quoted ++ "." ++ hint
  | .noValue name => "Option " ++ String.ofList name.quoted ++ " requires an argument."
  | .unwantedValue name => "Option " ++ String.ofList name.quoted ++ " does not take a value."
  | .notInteger option value =>
    "Invalid value for " ++ String.ofList option.name.quoted ++ ": " ++
      String.ofList value.quoted ++ " is not a valid integer."
  | .notListed option value values =>
    "Invalid value for " ++ String.ofList option.name.quoted ++ ": " ++
      String.ofList value.quoted ++ " is not one of " ++ quotedList values ++ "."
  | .noFiles => "Missing argument 'FILEPATHS...'."
  | .missingFile path =>
    "Invalid value for 'FILEPATHS...': File " ++ String.ofList path.quoted ++ " does not exist."
  | .directory path =>
    "Invalid value for 'FILEPATHS...': File " ++ String.ofList path.quoted ++ " is a directory."

/-- Whether the usage is shown before the error. -/
def showsUsage : UsageError → Bool
  | .noValue _ | .unwantedValue _ => false
  | _ => true

end UsageError

/-! ### Options and operands -/

/-- The arguments sorted: the options with their values and without, in the order given, and the
    operands. -/
structure Given where
  settings : List (Setting × Text) := []
  switches : List Switch := []
  operands : List Text := []

namespace Given

/-- The letters of options after one dash, each a switch. -/
def addLetters (g : Given) : Text → Except UsageError Given
  | [] => .ok g
  | c :: cs =>
    if c = 'v' then addLetters { g with switches := g.switches ++ [.verbose] } cs
    else .error (.unknownOption ['-', c] [])

/-- An option's name and the value attached to it. -/
def splitValue (arg : Text) : Text × Option Text :=
  match Text.cut? ['='] arg with
  | some (name, value) => (name, some value)
  | none => (arg, none)

/-- The arguments sorted, after those of `g`. -/
def sort (g : Given) : List Text → Except UsageError Given
  | [] => .ok g
  | arg :: rest =>
    if arg = ['-', '-'] then .ok { g with operands := g.operands ++ rest }
    else if arg.head? = some '-' ∧ arg.length > 1 then
      let (name, value?) := splitValue arg
      match optionNames.lookup name, value? with
      | some (.setting s), some value =>
        sort { g with settings := g.settings ++ [(s, value)] } rest
      | some (.setting s), none =>
        match rest with
        | [] => .error (.noValue name)
        | value :: rest => sort { g with settings := g.settings ++ [(s, value)] } rest
      | some (.switch _), some _ => .error (.unwantedValue name)
      | some (.switch s), none => sort { g with switches := g.switches ++ [s] } rest
      | none, _ =>
        if Text.begins ['-', '-'] arg then
          .error (.unknownOption name (suggestions (optionNames.map Prod.fst) name))
        else
          match g.addLetters arg.tail with
          | .ok g => sort g rest
          | .error e => .error e
    else sort { g with operands := g.operands ++ [arg] } rest

end Given

/-! ### Requests -/

/-- The text of an option, which must be among those listed for it. -/
def Setting.choice (s : Setting) (raw : Text) : Except UsageError Text :=
  match s.values? with
  | none => .ok raw
  | some values => if values.contains raw then .ok raw else .error (.notListed s raw values)

/-- The number of an option. -/
def Setting.number (s : Setting) (raw : Text) : Except UsageError Int :=
  match readInt? raw with
  | some n => .ok n
  | none => .error (.notInteger s raw)

/-- The request with the value of an option. -/
def Request.set (r : Request) (s : Setting) (raw : Text) : Except UsageError Request :=
  match s with
  | .indentWidth => (s.number raw).map fun n => { r with indentWidth := some n }
  | .codeMode => (s.choice raw).map fun t => { r with codeMode := some t }
  | .interiorIndent => (s.number raw).map fun n => { r with interiorIndent := some n }
  | .markup => (s.choice raw).map fun t => { r with markup := some t }

/-- Why operands are refused. -/
inductive OperandError where
  | usage (error : UsageError)
  | nullCharacter

/-- Check that an operand leads to something other than a directory. -/
def checkOperand (s : Store) (cwd : Location) (path : Text) : Except OperandError Unit :=
  match s.entryAt cwd true path with
  | .error .nullCharacter => .error .nullCharacter
  | .error _ => .error (.usage (.missingFile path))
  | .ok (_, .directory) => .error (.usage (.directory path))
  | .ok _ => .ok ()

namespace Given

/-- The request of the options without values. Of tabs and spaces the last one given counts. -/
def plainRequest (g : Given) : Request where
  files := g.operands
  useTabs :=
    (g.switches.reverse.find? fun s => s == .useTabs || s == .useSpaces).map fun s => s == .useTabs
  keepDirectives := g.switches.contains .keepDirectives
  inPlace := g.switches.contains .inPlace
  check := g.switches.contains .check
  verbose := g.switches.contains .verbose
  debug := g.switches.contains .debug

/-- What the arguments ask for. Options with values are looked at in the order in which they were first
    given; the last value of an option counts. -/
def request (g : Given) (s : Store) (cwd : Location) : Except OperandError Request := do
  let given := (g.settings.map Prod.fst).eraseDups
  let last (s : Setting) : Text := (g.settings.reverse.lookup s).getD []
  let set (r : Request) (s : Setting) : Except UsageError Request := r.set s (last s)
  let r ← (given.foldlM set g.plainRequest).mapError .usage
  if g.operands = [] then throw (.usage .noFiles)
  g.operands.forM (checkOperand s cwd)
  pure r

end Given

/-! ### The front end -/

/-- The usage of the program. -/
def usage (program : String) : String := "Usage: " ++ program ++ " [OPTIONS] FILEPATHS...\n"

/-- The error output of a command line that cannot be used. -/
def usageText (program : String) (showsUsage : Bool) (message : String) : Text :=
  let shown :=
    if showsUsage then usage program ++ "Try '" ++ program ++ " --help' for help.\n\n" else ""
  (shown ++ "Error: " ++ message ++ "\n").toList

/-- The version of the program. -/
def version : String := "0.1.0"

/-- The help text. -/
def help (program : String) : String :=
  usage program ++ "\n  Format one or more JSP files.\n\nOptions:\n" ++
    String.join (optionNames.map fun o => "  " ++ String.ofList o.1 ++ "\n")

/-- The front end of the program under the given name. -/
def frontEnd (program : String) : FrontEnd where
  read args w :=
    let refuse (e : UsageError) : Ending :=
      { status := 2, errors := usageText program e.showsUsage e.message }
    match Given.sort {} args with
    | .error e => .error (refuse e)
    | .ok given =>
      match given.switches.find? fun s => s == .version || s == .help with
      | some .version =>
        .error { status := 0, output := (program ++ ", version " ++ version ++ "\n").toList }
      | some _ => .error { status := 0, output := (help program).toList }
      | none =>
        match given.request w.store w.cwd with
        | .error (.usage e) => .error (refuse e)
        | .error .nullCharacter => .error { status := 1, crash := some .nullCharacter }
        | .ok r => .ok r
  report
    | .usage message => (2, usageText program true message)
    | .badValue message => (2, usageText program true ("Invalid value: " ++ message))
    | .failure message => (1, ("Error: " ++ message ++ "\n").toList)

end JspLayout.CommandLine
