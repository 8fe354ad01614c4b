import PropCatalog.Toml.Value

/-!
# Building tables

A document defines its tables piecemeal: by headers, by headers of tables inside them, and by dotted
keys. What may still be added to a table depends on how it came to be, so a table under
construction remembers that. No key is defined twice, a header does not open a table again, and
dotted keys do not reach into tables that have a header.
-/

namespace PropCatalog.Toml

/-- How a table came to be. -/
inductive Origin where
  /-- It has a header of its own, or it is the outermost table. -/
  | header
  /-- It contains a table that has a header. -/
  | enclosing
  /-- It was made by a dotted key. -/
  | dotted
  deriving DecidableEq

/-- A part of a document under construction. -/
inductive Node where
  | value (value : Value)
  | table (origin : Origin) (entries : List (Text × Node))
  /-- An array of tables, the last one first; entries go to the last one. -/
  | tables (last : List (Text × Node)) (earlier : List (List (Text × Node)))

namespace Node

/-- Puts a node under a key, in place of the one that is there. -/
def put (key : Text) (node : Node) : List (Text × Node) → List (Text × Node)
  | [] => [(key, node)]
  | (k, n) :: rest => if k = key then (key, node) :: rest else (k, n) :: put key node rest

/-- The entries that a header may define anew under a key: those of an enclosing table that has had
no header yet. -/
def openTable? : Option Node → Option Node
  | none => some (.table .header [])
  | some (.table .enclosing entries) => some (.table .header entries)
  | some _ => none

/-- The array of tables under a key with a new last table. -/
def openTables? : Option Node → Option Node
  | none => some (.tables [] [])
  | some (.tables last earlier) => some (.tables [] (last :: earlier))
  | some _ => none

/-- Changes the entry `key` of the table reached by the keys of a header, making enclosing tables on
the way. -/
def atHeader? (change : Option Node → Option Node) (key : Text) :
    (path : List Text) → (entries : List (Text × Node)) → Option (List (Text × Node))
  | [], entries => (change (entries.lookup key)).map fun node => put key node entries
  | k :: path, entries =>
    match entries.lookup k with
    | none =>
      (atHeader? change key path []).map fun inner => put k (.table .enclosing inner) entries
    | some (.table origin inner) =>
      (atHeader? change key path inner).map fun inner => put k (.table origin inner) entries
    | some (.tables last earlier) =>
      (atHeader? change key path last).map fun last => put k (.tables last earlier) entries
    | some (.value _) => none

/-- Adds a value under a dotted key, to the entries of a table of the given origin. Only tables made
by dotted keys take entries by dotted keys. -/
def addDotted? (value : Value) (key : Text) :
    (path : List Text) → (isDotted : Bool) → (entries : List (Text × Node)) →
      Option (List (Text × Node))
  | [], true, entries =>
    if (entries.lookup key).isSome then none else some (entries ++ [(key, .value value)])
  | [], false, _ => none
  | k :: path, _, entries =>
    match entries.lookup k with
    | none =>
      (addDotted? value key path true []).map fun inner => put k (.table .dotted inner) entries
    | some (.table .header _) => none
    | some (.table origin inner) =>
      (addDotted? value key path (origin = .dotted) inner).map fun inner =>
        put k (.table origin inner) entries
    | some (.tables last earlier) =>
      (addDotted? value key path false last).map fun last => put k (.tables last earlier) entries
    | some (.value _) => none

/-- Adds a value under a key, dotted or not, to the entries of a table with a header. -/
def add? (value : Value) (path : List Text) (key : Text) (entries : List (Text × Node)) :
    Option (List (Text × Node)) :=
  match path with
  | [] => if (entries.lookup key).isSome then none else some (entries ++ [(key, .value value)])
  | path => addDotted? value key path false entries

/-- Changes the entries of the table that the header `header` opened. -/
def atTable? (change : List (Text × Node) → Option (List (Text × Node))) :
    (header : List Text) → (entries : List (Text × Node)) → Option (List (Text × Node))
  | [], entries => change entries
  | k :: header, entries =>
    match entries.lookup k with
    | some (.table origin inner) =>
      (atTable? change header inner).map fun inner => put k (.table origin inner) entries
    | some (.tables last earlier) =>
      (atTable? change header last).map fun last => put k (.tables last earlier) entries
    | _ => none

mutual

def toValue : Node → Value
  | .value v => v
  | .table _ entries => .table (toEntries entries)
  | .tables last earlier => .array (toTables earlier ++ [.table (toEntries last)])

def toEntries : List (Text × Node) → List (Text × Value)
  | [] => []
  | (key, n) :: rest => (key, toValue n) :: toEntries rest

/-- The values of the tables of an array, of which the last one comes first. -/
def toTables : List (List (Text × Node)) → List Value
  | [] => []
  | entries :: earlier => toTables earlier ++ [.table (toEntries entries)]

end

end Node

end PropCatalog.Toml
