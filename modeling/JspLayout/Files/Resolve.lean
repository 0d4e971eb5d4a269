import JspLayout.Files.Store

/-! Absolute paths free of links, and which of them name a page.

    A path is resolved name by name: a name that is a link is replaced by its target, and double
    dots take back the name before them. A page is a regular file below the working directory with
    an ending of its own, named without any link. -/

namespace JspLayout

/-- Why a path has no absolute form. -/
inductive ResolveError where
  /-- A path on the way leads nowhere. -/
  | lookup (error : LookupError) (path : Text)
  /-- A link leads back to itself. -/
  | loop (path : Text)
  deriving DecidableEq

namespace Path

/-- The directory above, by name: double dots take back a name but never double dots. -/
def up (p : Path) : Path :=
  match p.names.getLast? with
  | none => if p.anchor = .here then { p with names := [dotDot] } else p
  | some name => if name = dotDot then p.entry dotDot else p.parent

/-- The place that the names lead to from `here` by name alone. -/
def follow (here : Location) (names : List Text) : Location :=
  names.foldl
    (fun l n => if n = [] ∨ n = dot then l else if n = dotDot then l.dropLast else l ++ [n]) here

/-- The place of a path by name alone, seen from the working directory. -/
def location (cwd : Location) (p : Path) : Location :=
  follow (if p.anchor = .here then cwd else []) p.names

end Path

/-- The path that the names lead to from `p` with links replaced, and whether that came to an end. What
    a link stands for is resolved by `replace?`, unless links are too deep inside one another. A link
    that leads back to itself among the links `active` ends it, and the names left are added as they are;
    when `strict` holds it is an error, as is a path that leads nowhere. -/
def followNames (s : Store) (cwd : Location) (strict : Bool)
    (replace? : Option (List Path → Path → List Text → Except ResolveError (Path × Bool)))
    (active : List Path) (p : Path) : List Text → Except ResolveError (Path × Bool)
  | [] => .ok (p, true)
  | name :: rest =>
    if name = [] ∨ name = dot then followNames s cwd strict replace? active p rest
    else if name = dotDot then followNames s cwd strict replace? active p.up rest
    else
      let next := p.entry name
      match s.entryAt cwd false next.text with
      | .ok (_, .link target) =>
        if active.contains next then
          if strict then
            match s.lookup cwd true next.text with
            | .error e => .error (.lookup e next.text)
            | .ok _ => .error (.loop next.text)
          else .ok ({ next with names := next.names ++ rest }, false)
        else
          match replace? with
          | none => .error (.loop next.text)
          | some replace => do
            let start := if target.head? = some '/' then Path.ofLocation [] else p
            let (q, ended) ← replace (next :: active) start target.splitSlash
            if ended then followNames s cwd strict replace? active q rest
            else .ok ({ q with names := q.names ++ rest }, false)
      | .ok _ => followNames s cwd strict replace? active next rest
      | .error e =>
        if strict ∨ e = .nullCharacter then .error (.lookup e next.text)
        else followNames s cwd strict replace? active next rest

/-- The path that the names lead to from `p` with links replaced, those inside one another at most
    `depth` deep. -/
def followLinks (s : Store) (cwd : Location) (strict : Bool) :
    Nat → List Path → Path → List Text → Except ResolveError (Path × Bool)
  | 0 => followNames s cwd strict none
  | depth + 1 => followNames s cwd strict (some (followLinks s cwd strict depth))

/-- How deep links can be inside one another. Links that are being replaced have different paths, and a
    path is an entry of the store, seen from the root or from behind double dots that fit into a path. -/
def linkDepth (s : Store) : Nat := s.entries.length * maxPathSize

/-- The absolute form of a path. -/
def resolve (s : Store) (cwd : Location) (strict : Bool) (p : Path) :
    Except ResolveError Location := do
  let start : Path := if p.anchor = .here then ⟨.here, []⟩ else .ofLocation []
  let (q, _) ← followLinks s cwd strict (linkDepth s) [] start p.names
  let l := q.location cwd
  if strict then pure l
  else
    let text := (Path.ofLocation l).text
    match s.lookup cwd true text with
    | .error .linkLoop => throw (.loop text)
    | _ => pure l

/-! ### Pages -/

/-- The endings of pages. -/
def pageSuffixes : List Text :=
  [".jsp".toList, ".jspf".toList, ".jspx".toList, ".tag".toList, ".tagf".toList]

/-- Why a path is not that of a page. -/
inductive PageError where
  | link (part : Text)
  | missing (path : Text)
  | unresolved (path : Text) (error : LookupError) (place : Text)
  | notRegular (path : Text)
  | outside (path base : Text)
  | wrongSuffix (path : Text)
  | nullCharacter
  deriving DecidableEq

/-- The wording of an error. -/
def PageError.message : PageError → String
  | .link part => "Symlinks are not followed: " ++ String.ofList part
  | .missing path => String.ofList path ++ " does not exist."
  | .unresolved path error place =>
    "Cannot resolve " ++ String.ofList path ++ ": " ++ error.message place
  | .notRegular path => String.ofList path ++ " is not a regular file."
  | .outside path base =>
    String.ofList path ++ " is outside of the working directory " ++ String.ofList base ++ "."
  | .wrongSuffix path =>
    String.ofList path ++ " is not a JSP file (expected " ++
      String.ofList (Text.join [',', ' '] pageSuffixes) ++ ")."
  | .nullCharacter => LookupError.nullCharacter.text

/-- Why no page was found: the path is not that of a page, or has no meaning at all. -/
inductive PageFailure where
  | invalid (error : PageError)
  | unknownHome
  | linkLoop (path : Text)
  deriving DecidableEq

/-- The wording of a failure. -/
def PageFailure.message : PageFailure → String
  | .invalid error => error.message
  | .unknownHome => "Could not determine home directory."
  | .linkLoop path => "Symlink loop from " ++ String.ofList path.quoted

/-- What a path without an absolute form is refused with. -/
def PageFailure.ofResolve (path : Path) : ResolveError → PageFailure
  | .lookup .missing _ => .invalid (.missing path.text)
  | .lookup .linkLoop place => .linkLoop place
  | .lookup .nullCharacter _ => .invalid .nullCharacter
  | .lookup error place => .invalid (.unresolved path.text error place)
  | .loop place => .linkLoop place

/-- The place of the page that a path names, which must be below `base`. -/
def resolvePage (s : Store) (cwd : Location) (homes : Path.Homes) (base : Path) (raw : Text) :
    Except PageFailure Location :=
  match (Path.ofText raw).expandHome? homes with
  | none => .error .unknownHome
  | some path =>
    match path.chain.find? fun part => s.isLink cwd part.text with
    | some part => .error (.invalid (.link part.text))
    | none =>
      match resolve s cwd true path with
      | .error e => .error (.ofResolve path e)
      | .ok l =>
        let resolved := Path.ofLocation l
        if !s.isFile cwd resolved.text then .error (.invalid (.notRegular resolved.text))
        else if !resolved.isWithin base then
          .error (.invalid (.outside resolved.text base.text))
        else if !pageSuffixes.contains resolved.suffix.lower then
          .error (.invalid (.wrongSuffix resolved.text))
        else .ok l

end JspLayout
