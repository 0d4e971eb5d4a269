import JspLayout.Format.File
import JspLayout.Settings.Load

/-! Running a command line.

    All paths are resolved before any file is touched. Then the files are formatted one after
    another, and the run stops at the first that fails; what was printed and replaced before it
    stays. How a command line is written, and how it is told what stopped a run, is left to a front
    end. -/

namespace JspLayout.CommandLine

/-! ### Requests -/

/-- What a command line asks for: the files, the settings it gives, and what is done and shown. -/
structure Request where
  files : List Text
  indentWidth : Option Int := none
  useTabs : Option Bool := none
  codeMode : Option Text := none
  interiorIndent : Option Int := none
  markup : Option Text := none
  keepDirectives : Bool := false
  inPlace : Bool := false
  check : Bool := false
  verbose : Bool := false
  debug : Bool := false
  deriving DecidableEq

/-- What is done with a formatted page. -/
inductive Action where
  | print
  | check
  | replace
  deriving DecidableEq, Repr

/-- What the user is told about a run that is stopped. -/
inductive Complaint where
  /-- Options exclude each other. -/
  | usage (message : String)
  /-- A path or a setting cannot be used. -/
  | badValue (message : String)
  /-- A file cannot be formatted. -/
  | failure (message : String)
  deriving DecidableEq

namespace Request

/-- The settings that a request overrides. One without a value says nothing. -/
def overrides (r : Request) : List (Text × Value) :=
  [("indent_width".toList, r.indentWidth.elim .null .int),
    ("use_tab_indent".toList, r.useTabs.elim .null .bool),
    ("code_format_mode".toList, r.codeMode.elim .null .text),
    ("block_interior_indent".toList, r.interiorIndent.elim .null .int),
    ("markup_formatter".toList, r.markup.elim .null .text),
    ("normalize_directives".toList, if r.keepDirectives then .bool false else .null)]

/-- What is done with formatted pages, unless two things are asked for that exclude each other. -/
def action (r : Request) : Except Complaint Action :=
  match r.inPlace, r.check with
  | true, true => .error (.usage "--in-place and --check cannot be used together.")
  | true, false => .ok .replace
  | false, true => .ok .check
  | false, false => .ok .print

/-- The least level of notes that are shown. -/
def threshold (r : Request) : Level :=
  if r.debug then .debug else if r.verbose then .info else .warning

end Request

/-! ### Files -/

/-- What ends a run without a word to the user. -/
inductive Crash where
  | page (failure : PageFailure)
  | settings (error : LoadError)
  | fault (fault : Fault)
  | nullCharacter

/-- What stops a run. -/
inductive Stop where
  | complaint (complaint : Complaint)
  | crash (cause : Crash)

/-- How far a run has come. -/
structure Progress where
  world : World
  output : Text := []
  notes : List Note := []
  /-- The files that formatting changes. -/
  changed : List Location := []

/-- Do with a formatted page what was asked for. -/
def deliver (action : Action) (l : Location) (source : Source) (text : Text) (p : Progress) :
    Progress × Option Stop :=
  let name := String.ofList (Path.ofLocation l).text
  let differs := text != source.text
  let p := if differs then { p with changed := p.changed ++ [l] } else p
  match action with
  | .print => ({ p with output := p.output ++ text }, none)
  | .check =>
    if differs then
      ({ p with output := p.output ++ ("would reformat " ++ name ++ "\n").toList }, none)
    else (p, none)
  | .replace =>
    if !differs then
      ({ p with notes := p.notes ++ [⟨.info, name ++ " already formatted"⟩] }, none)
    else
      let w := writeSource p.world.store p.world.cwd (p.world.denials 0) source text
      let p :=
        { p with world := { p.world.next with store := w.store }, notes := p.notes ++ w.notes }
      match w.result with
      | .error e => (p, some (.complaint (.failure e.message)))
      | .ok () => ({ p with notes := p.notes ++ [⟨.info, "Reformatted " ++ name⟩] }, none)

/-- Format one file. -/
def runFile (overrides : List (Text × Value)) (action : Action) (l : Location) (p : Progress) :
    Progress × Option Stop :=
  let path := Path.ofLocation l
  match buildSettings p.world.store p.world.cwd (p.world.denials 0) path.parent overrides with
  | .error (.settings (.invalid e)) => (p, some (.complaint (.badValue e.message)))
  | .error e => (p, some (.crash (.settings e)))
  | .ok settings =>
    match formatFile p.world path settings with
    | .error (.refused e) => (p, some (.complaint (.failure e.message)))
    | .error (.fault f) => (p, some (.crash (.fault f)))
    | .ok (source, formatted) =>
      let world := { p.world.next with programs := formatted.formatter }
      deliver action l source formatted.text
        { p with world, notes := p.notes ++ formatted.notes }

/-- Format files one after another, up to the first that fails. -/
def runFiles (overrides : List (Text × Value)) (action : Action) :
    List Location → Progress → Progress × Option Stop
  | [], p => (p, none)
  | l :: ls, p =>
    match runFile overrides action l p with
    | (p, none) => runFiles overrides action ls p
    | (p, some stop) => (p, some stop)

/-- The places of the pages that paths name. -/
def resolvePages (w : World) (files : List Text) : Except PageFailure (List Location) :=
  files.mapM (resolvePage w.store w.cwd w.homes (.ofLocation w.cwd))

/-- Do what a command line asks for. -/
def perform (r : Request) (w : World) : Progress × Option Stop :=
  let start : Progress := { world := w }
  match r.action with
  | .error c => (start, some (.complaint c))
  | .ok action =>
    match resolvePages w r.files with
    | .error (.invalid e) => (start, some (.complaint (.badValue e.message)))
    | .error e => (start, some (.crash (.page e)))
    | .ok ls => runFiles r.overrides action ls start

/-! ### Whole runs -/

/-- What is seen of a run: its status, what it wrote to its output and its error output, and what
    ended it without a word. -/
structure Ending where
  status : Nat
  output : Text := []
  errors : Text := []
  crash : Option Crash := none

/-- A finished run. -/
structure Run extends Ending where
  world : World

/-- A front end: how arguments are read, which may end the run at once and may look at the world but
    changes nothing in it, and the status and the words with which a complaint ends a run. -/
structure FrontEnd where
  read : List Text → World → Except Ending Request
  report : Complaint → Nat × Text

/-- The notes that are shown, a line each. -/
def notesText (threshold : Level) (notes : List Note) : Text :=
  (notes.filter fun n => threshold.rank ≤ n.level.rank).flatMap fun n =>
    (n.level.name ++ ": " ++ n.message ++ "\n").toList

/-- The run that a request comes to. -/
def finish (front : FrontEnd) (r : Request) (w : World) : Run :=
  let (p, stop) := perform r w
  let notes := notesText r.threshold p.notes
  match stop with
  | none =>
    let isUnclean := r.check && !p.changed.isEmpty
    { status := if isUnclean then 1 else 0, output := p.output, errors := notes, world := p.world }
  | some (.complaint c) =>
    let (status, words) := front.report c
    { status, output := p.output, errors := notes ++ words, world := p.world }
  | some (.crash c) =>
    { status := 1, output := p.output, errors := notes, crash := some c, world := p.world }

/-- Run the program with the given arguments. -/
def run (front : FrontEnd) (args : List Text) (w : World) : Run :=
  match front.read args w with
  | .error ending => { ending with world := w }
  | .ok r => finish front r w

end JspLayout.CommandLine
