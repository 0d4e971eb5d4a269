import JspLayout.Command.Template
import JspLayout.Command.Words
import JspLayout.Note
import JspLayout.Script
import JspLayout.Text.LetterCase

/-! Formatting code with an external program.

    The command line is a template that names the width of a level and whether tabs are used. The
    program reads code from its input and writes it formatted to its output; it fails when it cannot
    be run, takes too long or exits with a status other than zero. -/

namespace JspLayout

/-- How the run of a program ended. -/
inductive Outcome where
  | notFound
  | timedOut
  | notStarted (reason : String)
  | exited (status : Int) (output errors : Text)
  /-- Something else went wrong: what the program wrote is no text, or it cannot be given its
      arguments or its time. -/
  | broken (fault : Fault)

/-- A run of a program: its command line, its input, and the seconds it may take. -/
structure Invocation where
  args : List Text
  input : Text
  timeout : Value

/-- The programs outside, known by the outcomes of their runs. -/
abbrev Programs := Script Invocation Outcome

/-- Why code could not be formatted. -/
inductive CodeError where
  | invalidCommand (template : Text)
  | noCommand
  | notFound (args : List Text)
  | timedOut (timeout : Value) (args : List Text)
  | notStarted (reason : String) (args : List Text)
  | failed (status : Int) (errors : Text) (args : List Text)
  /-- An error in the formatter's own words. -/
  | reported (message : String)

namespace CodeError

/-- The wording of an error. -/
def message : CodeError → String
  | .invalidCommand template =>
    "Invalid code formatter command: " ++ String.ofList template.quoted
  | .noCommand => "No code formatter command configured"
  | .notFound args => "Code formatter not found: " ++ String.ofList (args.headD [])
  | .timedOut timeout _ =>
    "Code formatter timed out after " ++ String.ofList timeout.display ++ " seconds"
  | .notStarted reason _ => "Code formatter could not be started: " ++ reason
  | .failed status errors _ =>
    "Code formatter exited with status " ++ String.ofList (Text.ofInt status) ++ ": " ++
      String.ofList errors.trim
  | .reported message => message

/-- The command line that was run, if it came to that. -/
def command? : CodeError → Option (List Text)
  | .notFound args | .timedOut _ args | .notStarted _ args | .failed _ _ args => some args
  | .invalidCommand _ | .noCommand | .reported _ => none

end CodeError

/-- Why a code formatter gave no code: it reports an error, or breaks down. -/
inductive CodeFailure where
  | error (error : CodeError)
  | fault (fault : Fault)

/-- What a code formatter answers: code or a failure, and notes. -/
structure CodeReply where
  result : Except CodeFailure Text
  notes : List Note := []

/-- A formatter of whole compilation units, with a state of its own. -/
abbrev CodeFormatter (σ : Type) := Text → σ → CodeReply × σ

/-- The command line of a template for the given width of a level and use of tabs. -/
def buildCommand (attributes : Template.Attributes) (template : Text) (width tabs : Value) :
    Except CodeFailure (List Text) :=
  let args := [("indent_width".toList, width), ("use_tabs".toList, .text tabs.display.lower)]
  match Template.fill attributes args template with
  | .error (.fault f) => .error (.fault f)
  | .error .malformed => .error (.error (.invalidCommand template))
  | .ok line =>
    match Words.split? line with
    | none => .error (.error (.invalidCommand template))
    | some [] => .error (.error .noCommand)
    | some words => .ok words

/-- What a run comes to. -/
def Outcome.result (o : Outcome) (call : Invocation) : Except CodeFailure Text :=
  match o with
  | .notFound => .error (.error (.notFound call.args))
  | .timedOut => .error (.error (.timedOut call.timeout call.args))
  | .notStarted reason => .error (.error (.notStarted reason call.args))
  | .exited status output errors =>
    if status = 0 then .ok output else .error (.error (.failed status errors call.args))
  | .broken fault => .error (.fault fault)

/-- The formatter that runs the command of a template. -/
def commandFormatter (attributes : Template.Attributes) (template : Text) (timeout width tabs : Value) :
    CodeFormatter Programs :=
  fun code programs =>
    match buildCommand attributes template width tabs with
    | .error failure => (⟨.error failure, []⟩, programs)
    | .ok args =>
      let call : Invocation := ⟨args, code, timeout⟩
      let (outcome, programs) := programs.ask call
      let note : Note := ⟨.debug, "Running code formatter: " ++ String.ofList (Words.join args)⟩
      (⟨outcome.result call, [note]⟩, programs)

end JspLayout
