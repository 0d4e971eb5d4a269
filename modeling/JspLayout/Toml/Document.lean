import JspLayout.Settings.Value

/-! The tables of a TOML document while it is read.

    Statements add to the tables one after another. A key is never given twice; what an inline table
    or an array holds is complete; a table has one header, and a table that dotted keys have opened
    gets none in a later section. -/

namespace JspLayout.Toml

/-- A dotted key. -/
abbrev Key := List Text

/-- The entries of a table, in the order they were given. -/
abbrev Table := List (Text × Value)

/-- The table with a key set. -/
def put (t : Table) (k : Text) (v : Value) : Table :=
  match t with
  | [] => [(k, v)]
  | (k', v') :: t => if k' = k then (k, v) :: t else (k', v') :: put t k v

/-- The table changed by `f` at a dotted key. Tables that are missing on the way are opened; in an
    array of tables the last one is meant. -/
def change? (f : Table → Option Table) : Key → Table → Option Table
  | [], t => f t
  | k :: key, t =>
    match t.lookup k with
    | none => (change? f key []).map fun u => put t k (.table u)
    | some (.table u) => (change? f key u).map fun u => put t k (.table u)
    | some (.list items) =>
      match items.getLast? with
      | some (.table u) =>
        (change? f key u).map fun u => put t k (.list (items.dropLast ++ [.table u]))
      | _ => none
    | some _ => none

/-- The tables of a document, and which of its keys are closed to which statements. -/
structure Document where
  root : Table := []
  /-- Keys whose values are complete, with all that is below them. -/
  complete : List Key := []
  /-- Keys of tables that can have no header any more. -/
  declared : List Key := []
  /-- Keys of tables that dotted keys have opened in this section. -/
  opened : List Key := []

namespace Document

/-- Whether the value at a key is complete. -/
def isComplete (d : Document) (key : Key) : Bool := d.complete.any fun k => k.isPrefixOf key

/-- The keys of the tables on the way to a dotted key. -/
def parents (key : Key) : List Key := (List.range' 1 (key.length - 1)).map fun n => key.take n

/-- The document with a value at a key of the section `header`. -/
def insert? (d : Document) (header key : Key) (v : Value) : Option Document :=
  let tables := (parents key).map fun k => header ++ k
  let parent := header ++ key.dropLast
  let isContainer :=
    match v with
    | .list _ | .table _ => true
    | _ => false
  if tables.any d.declared.contains || d.isComplete parent then none
  else
    (change? (fun t => key.getLast?.bind fun k =>
        if (t.lookup k).isSome then none else some (put t k v)) parent d.root).map fun root =>
      { d with
        root
        complete := if isContainer then (header ++ key) :: d.complete else d.complete
        opened := tables ++ d.opened }

/-- The document at the start of a section: what dotted keys have opened gets no header. -/
def endSection (d : Document) : Document :=
  { d with declared := d.opened ++ d.declared, opened := [] }

/-- The document with a table opened by its header. -/
def openTable? (d : Document) (key : Key) : Option Document :=
  let d := d.endSection
  if d.declared.contains key || d.isComplete key then none
  else (change? some key d.root).map fun root => { d with root, declared := key :: d.declared }

/-- An array of tables with one more table. -/
def appendTable? (k : Text) (t : Table) : Option Table :=
  match t.lookup k with
  | none => some (put t k (.list [.table []]))
  | some (.list items) => some (put t k (.list (items ++ [.table []])))
  | some _ => none

/-- The document with one more table in the array of tables that a header names. What was said of
    the tables before it does not hold of the new one. -/
def openItem? (d : Document) (key : Key) : Option Document :=
  let d := d.endSection
  if d.isComplete key then none
  else
    let outside := fun (k : Key) => !key.isPrefixOf k
    (change? (fun t => key.getLast?.bind fun k => appendTable? k t) key.dropLast d.root).map
      fun root =>
        { d with
          root
          complete := d.complete.filter outside
          declared := key :: d.declared.filter outside }

end Document

end JspLayout.Toml
