import JspLayout.Files.Path
import JspLayout.Text.Quoted
import JspLayout.Text.Utf8

/-! File systems.

    A store holds directories, regular files and symbolic links by their place. A path is looked up
    name by name; links on the way are followed, up to a limit, and a link at the end only where
    that is asked for. -/

namespace JspLayout

/-- A regular file. Its device and number tell it from every other file. -/
structure File where
  device : Nat := 0
  number : Nat
  /-- The permission bits. -/
  mode : Nat
  /-- When the content was last changed. -/
  changed : Int
  content : Bytes
  deriving DecidableEq

/-- What stands at a place. -/
inductive Entry where
  | file (f : File)
  | directory
  | link (target : Text)
  deriving DecidableEq

/-- A file system, with the number of the next new file and the time it is changed at. -/
structure Store where
  entries : List (Location × Entry) := []
  nextNumber : Nat := 1
  now : Int := 0

namespace Store

/-- What stands at a place. The root is always a directory. -/
def get? (s : Store) (l : Location) : Option Entry :=
  if l = [] then some .directory else s.entries.lookup l

/-- The store without what stands at a place. -/
def erase (s : Store) (l : Location) : Store :=
  { s with entries := s.entries.filter fun e => e.1 != l }

/-- The store with an entry put at a place. -/
def insert (s : Store) (l : Location) (e : Entry) : Store :=
  { s with entries := (l, e) :: (s.erase l).entries }

theorem get?_insert_self (s : Store) {l : Location} (e : Entry) (h : l ≠ []) :
    (s.insert l e).get? l = some e := by
  simp [get?, insert, h]

theorem lookup_filter_ne {l m : Location} (h : l ≠ m) :
    ∀ es : List (Location × Entry), (es.filter fun e => e.1 != m).lookup l = es.lookup l
  | [] => rfl
  | (k, e) :: es => by
    rw [List.filter_cons, List.lookup_cons]
    by_cases hk : k = m
    · have hl : (l == k) = false := by simpa [hk] using h
      simp [hk, hk ▸ hl, lookup_filter_ne h es]
    · simp [hk, List.lookup_cons, lookup_filter_ne h es]

/-- Putting an entry at one place leaves the others alone. -/
theorem get?_insert_of_ne (s : Store) {l m : Location} (e : Entry) (h : l ≠ m) :
    (s.insert m e).get? l = s.get? l := by
  have hl : (l == m) = false := by simpa using h
  by_cases hr : l = []
  · simp [get?, hr]
  · simp [get?, insert, erase, hr, List.lookup_cons, hl, lookup_filter_ne h]

/-- Erasing one place leaves the others alone. -/
theorem get?_erase_of_ne (s : Store) {l m : Location} (h : l ≠ m) :
    (s.erase m).get? l = s.get? l := by
  by_cases hr : l = []
  · simp [get?, hr]
  · simp [get?, erase, hr, lookup_filter_ne h]

/-- The store after a new file was made, and that file. -/
def newFile (s : Store) (mode : Nat) (content : Bytes) : File × Store :=
  ({ number := s.nextNumber, mode, changed := s.now, content },
    { s with nextNumber := s.nextNumber + 1 })

end Store

/-! ### Looking up paths -/

/-- Why a path leads nowhere. -/
inductive LookupError where
  | missing
  | notDirectory
  | nameTooLong
  | linkLoop
  /-- A path that holds a null character. -/
  | nullCharacter
  deriving DecidableEq, Repr

namespace LookupError

/-- The system's words for an error. -/
def text : LookupError → String
  | .missing => "[Errno 2] No such file or directory"
  | .notDirectory => "[Errno 20] Not a directory"
  | .nameTooLong => "[Errno 36] File name too long"
  | .linkLoop => "[Errno 40] Too many levels of symbolic links"
  | .nullCharacter => "lstat: embedded null character in path"

/-- The wording of an error in looking up a path. -/
def message (e : LookupError) (path : Text) : String :=
  if e = .nullCharacter then e.text else e.text ++ ": " ++ String.ofList path.quoted

end LookupError

/-- The most bytes of a name. -/
def maxNameSize : Nat := 255

/-- The most bytes of a path. -/
def maxPathSize : Nat := 4095

/-- The most links that are followed in looking up one path. -/
def maxLinks : Nat := 40

namespace Store

/-- The place where the names lead from `here`. What a link on the way stands for is looked up by
    `jump?`, with the names after it, unless no more links are followed. A link at the end is followed
    only if `follow` holds. -/
def walkNames (s : Store) (follow : Bool)
    (jump? : Option (Location → List Text → Except LookupError Location)) (here : Location) :
    List Text → Except LookupError Location
  | [] => .ok here
  | name :: rest =>
    match s.get? here with
    | some .directory =>
      if name = [] ∨ name = dot then walkNames s follow jump? here rest
      else if name = dotDot then walkNames s follow jump? here.dropLast rest
      else if Utf8.size name > maxNameSize then .error .nameTooLong
      else
        match s.get? (here ++ [name]) with
        | none => .error .missing
        | some (.link target) =>
          if rest = [] ∧ follow = false then .ok (here ++ [name])
          else
            match jump? with
            | none => .error .linkLoop
            | some jump => jump (if target.head? = some '/' then [] else here) (target.splitSlash ++ rest)
        | some _ => walkNames s follow jump? (here ++ [name]) rest
    | some _ => .error .notDirectory
    | none => .error .missing

/-- The place where the names lead from `here`, following at most `links` links. -/
def walk (s : Store) (follow : Bool) : Nat → Location → List Text → Except LookupError Location
  | 0 => walkNames s follow none
  | links + 1 => walkNames s follow (some (walk s follow links))

/-- The place where a path leads as it is written, seen from the working directory `cwd`. -/
def lookup (s : Store) (cwd : Location) (follow : Bool) (path : Text) :
    Except LookupError Location :=
  if path.contains '\x00' then .error .nullCharacter
  else if path = [] then .error .missing
  else if Utf8.size path > maxPathSize then .error .nameTooLong
  else s.walk follow maxLinks (if path.head? = some '/' then [] else cwd) path.splitSlash

/-- The entry where a path leads, with its place. -/
def entryAt (s : Store) (cwd : Location) (follow : Bool) (path : Text) :
    Except LookupError (Location × Entry) :=
  match s.lookup cwd follow path with
  | .error e => .error e
  | .ok l =>
    match s.get? l with
    | some e => .ok (l, e)
    | none => .error .missing

/-- Whether a path names a link. -/
def isLink (s : Store) (cwd : Location) (path : Text) : Bool :=
  match s.entryAt cwd false path with
  | .ok (_, .link _) => true
  | _ => false

/-- Whether a path leads to a regular file. -/
def isFile (s : Store) (cwd : Location) (path : Text) : Bool :=
  match s.entryAt cwd true path with
  | .ok (_, .file _) => true
  | _ => false

end Store

end JspLayout
