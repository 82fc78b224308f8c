/-!
TOML documents as trees of tables. A table remembers how it came about, because that decides what
may still be added to it.
-/

namespace FrameGraph

inductive TableOrigin
  /-- It has a header of its own. -/
  | header
  /-- The header of a table inside it mentions it. -/
  | implied
  /-- A dotted key leads through it. -/
  | dotted
  /-- It is written between braces. -/
  | inline
deriving DecidableEq, Repr

/-- A TOML value. Floats, dates and times are kept as they are written. -/
inductive Toml
  | string (text : String)
  | integer (value : Int)
  | float (text : String)
  | boolean (value : Bool)
  | moment (text : String)
  | array (items : List Toml)
  | table (origin : TableOrigin) (entries : List (String × Toml))
  /-- The tables under a header in double brackets. -/
  | tables (items : List (List (String × Toml)))

abbrev TomlEntries := List (String × Toml)

inductive TomlLine
  | table (path : List String)
  | tableItem (path : List String)
  | entry (path : List String) (value : Toml)

namespace TomlEntries

def replace (key : String) (value : Toml) (entries : TomlEntries) : TomlEntries :=
  entries.map fun entry => if entry.1 = key then (key, value) else entry

/-- Changes the table that a path leads to, from a table of the given origin. Tables that are
missing on the way are made; of an array of tables the last is taken. A dotted key leads through no
table that has a header of its own, and nothing leads into a table between braces or another
value. -/
def alter (dotted : Bool) (change : TableOrigin → TomlEntries → Option TomlEntries) :
    TableOrigin → List String → TomlEntries → Option TomlEntries
  | origin, [], entries => change origin entries
  | _, key :: path, entries =>
    match entries.lookup key with
    | none => do
      let origin := if dotted then .dotted else .implied
      return entries ++ [(key, .table origin (← alter dotted change origin path []))]
    | some (.table .inline _) => none
    | some (.table origin inner) => do
      if dotted && origin = .header then none
      else return entries.replace key (.table origin (← alter dotted change origin path inner))
    | some (.tables items) => do
      let last ← alter dotted change .header path (← items.getLast?)
      return entries.replace key (.tables (items.dropLast ++ [last]))
    | some _ => none

def add (key : String) (value : Toml) (entries : TomlEntries) : Option TomlEntries :=
  if (entries.lookup key).isSome then none else some (entries ++ [(key, value)])

/-- Adds an entry under a dotted key. All but the last part must lead to a table that dotted keys
have made. -/
def addDotted (path : List String) (value : Toml) (entries : TomlEntries) : Option TomlEntries := do
  let key ← path.getLast?
  if path.length = 1 then entries.add key value
  else
    entries.alter true (fun origin inner => if origin = .dotted then inner.add key value else none)
      .dotted path.dropLast

/-- Opens the table of a header. It may be there already if only headers inside it mentioned it. -/
def openTable (path : List String) (entries : TomlEntries) : Option TomlEntries := do
  let key ← path.getLast?
  entries.alter false (fun _ inner =>
    match inner.lookup key with
    | none => some (inner ++ [(key, .table .header [])])
    | some (.table .implied old) => some (inner.replace key (.table .header old))
    | some _ => none) .header path.dropLast

def openItem (path : List String) (entries : TomlEntries) : Option TomlEntries := do
  let key ← path.getLast?
  entries.alter false (fun _ inner =>
    match inner.lookup key with
    | none => some (inner ++ [(key, .tables [[]])])
    | some (.tables items) => some (inner.replace key (.tables (items ++ [[]])))
    | some _ => none) .header path.dropLast

def ofInline? (pairs : List (List String × Toml)) : Option TomlEntries :=
  pairs.foldlM (fun entries pair => entries.addDotted pair.1 pair.2) []

structure Draft where
  entries : TomlEntries
  current : List String

def Draft.step (p : Draft) : TomlLine → Option Draft
  | .table path => do
    return { entries := ← p.entries.openTable path, current := path }
  | .tableItem path => do
    return { entries := ← p.entries.openItem path, current := path }
  | .entry path value => do
    return { p with
      entries := ← p.entries.alter false (fun _ inner => inner.addDotted path value) .header
        p.current }

def ofLines? (lines : List TomlLine) : Option TomlEntries :=
  (lines.foldlM Draft.step ⟨[], []⟩).map (·.entries)

end TomlEntries

end FrameGraph
