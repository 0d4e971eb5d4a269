import JspLayout.CommandLine.Arguments
import JspLayout.Format.Standard

/-! The command line program.

    The part of the file system that a command line can reach is read into a store, the command line
    is run on it, and the files that changed are written back. No external formatter is run, so the
    built-in one lays out the code. -/

namespace JspLayout

/-- What stands at a place on disk, if it can be read. -/
def readEntry (l : Location) : IO (Option Entry) := do
  let name := String.ofList (Path.ofLocation l).text
  let entry : IO.FS.DirEntry := ⟨"/", name⟩
  try
    let info ← entry.path.symlinkMetadata
    match info.type with
    | .dir => pure (some .directory)
    | .symlink =>
      let target ← IO.FS.realPath name
      pure (some (.link target.toString.toList))
    | .file =>
      let content ← IO.FS.readBinFile name
      pure (some (.file { number := 0, mode := 0, changed := 0, content := content.toList }))
    | .other => pure none
  catch _ => pure none

/-- The places that looking up `l` and its settings can touch. -/
def reach (l : Location) : List Location :=
  (directories l).flatMap fun d => d :: settingsTables.map fun t => d ++ [t.file]

/-- The store with the places read into it that it does not have yet. -/
def readPlaces (s : Store) (places : List Location) : IO Store :=
  places.foldlM
    (fun s l => do
      if (s.get? l).isSome then pure s
      else
        match ← readEntry l with
        | some e => pure (s.insert l e)
        | none => pure s)
    s

/-- The places that the links of a store lead to. -/
def linkTargets (s : Store) : List Location :=
  s.entries.filterMap fun e =>
    match e.2 with
    | .link target => some (Path.follow [] target.splitSlash)
    | _ => none

/-- The part of the file system that arguments can reach. -/
def readStore (cwd : Location) (homes : Path.Homes) (args : List Text) : IO Store := do
  let paths := args.filterMap fun a => (Path.ofText a).expandHome? homes
  let given := args.map fun a => (Path.ofText a).location cwd
  let named := cwd :: (paths.map (Path.location cwd) ++ given)
  let s ← readPlaces {} (named.flatMap reach)
  readPlaces s ((linkTargets s).flatMap reach)

/-- Write back the files whose content has changed. -/
def writeChanges (before after : Store) : IO Unit :=
  after.entries.forM fun (l, e) => do
    match e, before.get? l with
    | .file f, some (.file g) =>
      if f.content ≠ g.content then
        IO.FS.writeBinFile (String.ofList (Path.ofLocation l).text) ⟨f.content.toArray⟩
    | _, _ => pure ()

end JspLayout

open JspLayout in
def main (args : List String) : IO UInt32 := do
  let args := args.map String.toList
  let here ← IO.currentDir
  let cwd := Path.follow [] (Text.splitSlash here.toString.toList)
  let homes : Path.Homes := ⟨((← IO.getEnv "HOME").getD "/").toList, []⟩
  let sizeVariable := (← IO.getEnv sizeLimitVariable).map String.toList
  let store ← readStore cwd homes args
  let programs : Programs := { replies := [], fallback := fun _ => .notFound }
  let world : World := { store, cwd, homes, sizeVariable, library := .standard, programs }
  let run := CommandLine.run (CommandLine.frontEnd "jsp-layout") args world
  writeChanges store run.world.store
  IO.print (String.ofList run.output)
  IO.eprint (String.ofList run.errors)
  return run.status.toUInt32
