import JspLayout.Files.Source
import JspLayout.Format.Page
import JspLayout.Settings.SizeLimit

/-! Formatting the pages in files. -/

namespace JspLayout

/-- What lies outside the program: the file system with the working directory and the home
    directories, what the environment says on the size of files, the library that formatting makes
    use of, the programs that can be run, and the operations on files that are refused, at each
    reading of a page with its settings and each writing of a page in turn. -/
structure World where
  store : Store := {}
  cwd : Location := []
  homes : Path.Homes
  sizeVariable : Option Text := none
  library : Library
  programs : Programs
  denials : Nat → Denials := fun _ _ => none

/-- The world after a page was read or written, as far as refusals go. -/
def World.next (w : World) : World := { w with denials := fun n => w.denials (n + 1) }

/-- Why a page in a file was not formatted. -/
inductive FormatError where
  | settings (error : SettingsError)
  | sizeLimit (error : SizeLimitError)
  | source (path : Text) (error : SourceError)
  deriving DecidableEq

/-- The wording of an error. -/
def FormatError.message : FormatError → String
  | .settings error => error.message
  | .sizeLimit error => error.message
  | .source path (.undecodable error) =>
    "Invalid UTF-8 sequence in " ++ String.ofList path ++ ": " ++ error.message
  | .source _ error => error.message

/-- Why a page in a file was not formatted, or a fault in the settings. -/
inductive FormatFailure where
  | refused (error : FormatError)
  | fault (fault : Fault)

/-- The page at a path and what it is formatted to. -/
def formatFile (w : World) (path : Path) (settings : Settings) :
    Except FormatFailure (Source × Formatted Programs) := do
  let o ← settings.check.mapError fun
    | .invalid e => .refused (.settings e)
    | .fault f => .fault f
  let limit ← (sizeLimit w.sizeVariable o.maxFileSize).mapError fun e => .refused (.sizeLimit e)
  let source ← (readSource w.store w.cwd (w.denials 0) path limit).mapError fun e =>
    .refused (.source path.text e)
  let formatted ← (formatPage w.library o source.text w.programs).mapError .fault
  pure (source, formatted)

end JspLayout
