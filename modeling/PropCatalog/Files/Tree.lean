import PropCatalog.Files.Path

/-!
# File trees

A tree of directories and files. A node is reached from the root by the names on the way, which are
its location. Only the operations here look into a directory; the others go through locations.
-/

namespace PropCatalog.Files

/-- The content of a file. -/
abbrev Bytes := List UInt8

/-- The names on the way from the root to a node. -/
abbrev Location := List Name

/-- A file or a directory. -/
inductive Node where
  | file (bytes : Bytes)
  /-- A directory with its entries; a name occurs once. -/
  | directory (entries : List (Name × Node))

namespace Node

def isDirectory : Node → Bool
  | .directory _ => true
  | .file _ => false

/-- The node of a name in a directory. -/
def child? (node : Node) (name : Name) : Option Node :=
  match node with
  | .file _ => none
  | .directory entries => entries.lookup name

def get? : Location → Node → Option Node
  | [], node => some node
  | name :: rest, node => (node.child? name).bind (get? rest)

/-- The content of the file of a name in a directory. -/
def childFile? (node : Node) (name : Name) : Option Bytes :=
  match node.child? name with
  | some (.file bytes) => some bytes
  | _ => none

/-- Changes the entry of a name, which may be missing before and after. -/
def alterEntry (name : Name) (change : Option Node → Option Node) :
    List (Name × Node) → List (Name × Node)
  | [] => (change none).toList.map fun node => (name, node)
  | (n, node) :: rest =>
    if n = name then ((change (some node)).toList.map fun node => (n, node)) ++ rest
    else (n, node) :: alterEntry name change rest

/-- Puts a node at a location, and makes the directories on the way. Nothing changes if a file is in
the way. -/
def put (new : Node) : Location → Node → Node
  | [], _ => new
  | _ :: _, .file bytes => .file bytes
  | name :: rest, .directory entries =>
    .directory (alterEntry name (fun old => some (put new rest (old.getD (.directory [])))) entries)

def remove : Location → Node → Node
  | [], node => node
  | _, .file bytes => .file bytes
  | [name], .directory entries => .directory (alterEntry name (fun _ => none) entries)
  | name :: rest, .directory entries =>
    .directory (alterEntry name (fun old => old.map (remove rest)) entries)

mutual

/-- The files of a tree with their locations. -/
def files : Node → List (Location × Bytes)
  | .file bytes => [([], bytes)]
  | .directory entries => entryFiles entries

def entryFiles : List (Name × Node) → List (Location × Bytes)
  | [] => []
  | (name, node) :: rest =>
    ((files node).map fun (location, bytes) => (name :: location, bytes)) ++ entryFiles rest

end

end Node

end PropCatalog.Files
