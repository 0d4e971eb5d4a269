import JspLayout.Files.Store
import JspLayout.Note

/-! Reading pages and writing them back.

    A page is read together with a snapshot of its file. Writing it back first compares the snapshot
    with the file as it is now, then puts the new content into a temporary file beside it, which
    takes its place in one step. Whatever fails, the temporary file is removed. The temporary file
    gets the bits of the old one first and its owner after that, so that it loses the bits which a
    change of owner takes away. -/

namespace JspLayout

/-- The operations on files that may be refused. -/
inductive FileCall where
  | inspect
  | read
  | create
  | write
  | setMode
  | setOwner
  | rename
  /-- Looking whether there is a settings file at a path. -/
  | lookUp (path : Text)
  /-- Reading the settings file at a path. -/
  | load (path : Text)
  deriving DecidableEq, Repr

/-- A refusal of the system, in its words. -/
structure Denial where
  /-- Whether it is for want of permission. -/
  forbidden : Bool := false
  reason : String
  deriving DecidableEq

/-- Which operations are refused. -/
abbrev Denials := FileCall → Option Denial

/-- A file as it was when it was read. -/
structure Snapshot where
  device : Nat
  number : Nat
  size : Nat
  changed : Int
  mode : Nat
  deriving DecidableEq

def File.snapshot (f : File) : Snapshot := ⟨f.device, f.number, f.content.length, f.changed, f.mode⟩

/-- Whether two snapshots are of the same file with the same content, as far as can be told. -/
def Snapshot.agrees (a b : Snapshot) : Bool :=
  a.number == b.number && a.device == b.device && a.size == b.size && a.changed == b.changed

/-- A page as it was read. -/
structure Source where
  path : Path
  text : Text
  snapshot : Snapshot

/-- Why a file cannot be used. -/
inductive FileError where
  | noAccess (path : Text) (reason : String)
  | notRegular (path : Text)
  | tooLarge (path : Text) (size : Nat) (limit : Int)
  | unreadable (path : Text) (reason : String)
  | changed (path : Text)
  | refused (reason : String)
  deriving DecidableEq

/-- The wording of an error. -/
def FileError.message : FileError → String
  | .noAccess path reason => "Cannot access " ++ String.ofList path ++ ": " ++ reason
  | .notRegular path => String.ofList path ++ " is not a regular file."
  | .tooLarge path size limit =>
    String.ofList path ++ " is " ++ String.ofList (Text.ofNat size) ++
      " bytes, over the maximum allowed size of " ++ String.ofList (Text.ofInt limit) ++ " bytes."
  | .unreadable path reason => "Cannot read " ++ String.ofList path ++ ": " ++ reason
  | .changed path =>
    String.ofList path ++ " changed during formatting; refusing to overwrite."
  | .refused reason => reason

/-- Why a page was not read or written. -/
inductive SourceError where
  | file (error : FileError)
  | undecodable (error : Utf8.DecodeError)
  /-- The path holds a null character. -/
  | nullCharacter
  deriving DecidableEq

/-- The wording of an error. -/
def SourceError.message : SourceError → String
  | .file error => error.message
  | .undecodable error => error.message
  | .nullCharacter => LookupError.nullCharacter.text

/-- The regular file at a path, with its place. A link is not one. -/
def inspect (s : Store) (cwd : Location) (denials : Denials) (path : Path) :
    Except SourceError (Location × File) :=
  match denials .inspect with
  | some d => .error (.file (.noAccess path.text d.reason))
  | none =>
    match s.entryAt cwd false path.text with
    | .error .nullCharacter => .error .nullCharacter
    | .error e => .error (.file (.noAccess path.text (e.message path.text)))
    | .ok (l, .file f) => .ok (l, f)
    | .ok _ => .error (.file (.notRegular path.text))

/-- The page at a path, if its file is at most `limit` bytes long. -/
def readSource (s : Store) (cwd : Location) (denials : Denials) (path : Path) (limit : Int) :
    Except SourceError Source := do
  let (_, f) ← inspect s cwd denials path
  if f.content.length > limit then
    throw (.file (.tooLarge path.text f.content.length limit))
  if let some d := denials .read then
    throw (.file (.unreadable path.text d.reason))
  let text ← (Utf8.decode f.content).mapError .undecodable
  pure ⟨path, text.unixLines, f.snapshot⟩

/-! ### Writing back -/

/-- The place of a temporary file beside `l` with a number in its name. -/
def numberedTemp (l : Location) (n : Nat) : Location :=
  l.dropLast ++ ['.' :: l.getLastD [] ++ '.' :: Text.ofNat n ++ ".tmp".toList]

/-- The place of a temporary file beside `l` where nothing stands yet. Fewer places are taken than
    there are entries, so the search is bounded by their number. -/
def freeTemp (s : Store) (l : Location) : Location :=
  let free := (List.range (s.entries.length + 1)).find? fun n => (s.get? (numberedTemp l n)).isNone
  numberedTemp l (free.getD 0)

/-- What came of writing a page back. -/
structure Written where
  result : Except SourceError Unit
  store : Store
  notes : List Note := []

/-- The permission bits of a temporary file before it gets its own. -/
def tempMode : Nat := 0o600

/-- What the name of a temporary file has more than that of the page's file, in bytes: two dots,
    eight characters of its own and the ending. -/
def tempRoom : Nat := 14

/-- Whether the system takes the name and the path of a temporary file beside `l`. -/
def tempFits (l : Location) : Bool :=
  decide (Utf8.size (l.getLastD []) + tempRoom ≤ maxNameSize) &&
    decide (Utf8.size (Path.ofLocation l).text + tempRoom ≤ maxPathSize)

/-- The bit that makes a program run as its owner. -/
def setUserBit : Nat := 0o4000

/-- The bit that makes a program run as its group. -/
def setGroupBit : Nat := 0o2000

/-- The bit that lets the group run a program. -/
def groupRunBit : Nat := 0o10

/-- Whether a bit is among those of a mode. -/
def hasBit (mode bit : Nat) : Bool := mode / bit % 2 == 1

/-- The permission bits of a file after its owner was set, even to the same one: the system takes
    away the right to run as another user, and that to run as a group where the group may run it. -/
def ownedMode (mode : Nat) : Nat :=
  (if hasBit mode setGroupBit && hasBit mode groupRunBit then mode - setGroupBit else mode) -
    if hasBit mode setUserBit then setUserBit else 0

/-- Fill the temporary file `f` at `temp`, give it the bits and the owner of the page's file, and
    put it in the place `l`. -/
def swapIn (s : Store) (denials : Denials) (source : Source) (content : Text) (temp : Location)
    (f : File) (l : Location) : Written :=
  let abort (d : Denial) (notes : List Note) : Written :=
    ⟨.error (.file (.refused d.reason)), s.erase temp, notes⟩
  match denials .write, denials .setMode with
  | some d, _ => abort d []
  | none, some d => abort d []
  | none, none =>
    let notes : List Note :=
      match denials .setOwner with
      | some _ => [⟨.warning, "Could not keep the owner of " ++ String.ofList source.path.text⟩]
      | none => []
    match (denials .setOwner).filter fun d => !d.forbidden, denials .rename with
    | some d, _ => abort d []
    | none, some d => abort d notes
    | none, none =>
      let mode :=
        match denials .setOwner with
        | some _ => source.snapshot.mode
        | none => ownedMode source.snapshot.mode
      let f := { f with mode, content := Utf8.encode content }
      ⟨.ok (), (s.erase temp).insert l (.file f), notes⟩

/-- Write a page back with new content, unless its file has changed since it was read. -/
def writeSource (s : Store) (cwd : Location) (denials : Denials) (source : Source)
    (content : Text) : Written :=
  match inspect s cwd denials source.path with
  | .error e => ⟨.error e, s, []⟩
  | .ok (l, now) =>
    if !source.snapshot.agrees now.snapshot then
      ⟨.error (.file (.changed source.path.text)), s, []⟩
    else
      match denials .create with
      | some d => ⟨.error (.file (.refused d.reason)), s, []⟩
      | none =>
        let temp := freeTemp s l
        if !tempFits l then
          let reason := LookupError.nameTooLong.message (Path.ofLocation temp).text
          ⟨.error (.file (.refused reason)), s, []⟩
        else
          let (f, s) := s.newFile tempMode []
          swapIn (s.insert temp (.file f)) denials source content temp f l

end JspLayout
