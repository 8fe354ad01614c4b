import PropCatalog.Text.Basic

/-!
# Paths

A path is a text with slashes. It is kept as it is spelled: only when it is followed through a tree
are its parts taken apart.
-/

namespace PropCatalog.Files

/-- The name of a file or directory in its directory. -/
abbrev Name := Text

namespace Path

/-- The path of `name` in the directory `dir`. -/
def join (dir : Text) (name : Name) : Text :=
  if dir.isEmpty || dir.getLast? = some '/' then dir ++ name else dir ++ '/' :: name

/-- The names with slashes between them. -/
def ofNames (names : List Name) : Text :=
  Text.join ['/'] names

def isAbsolute (path : Text) : Bool :=
  path.head? = some '/'

def parts (path : Text) : List Name :=
  (Text.pieces (· = '/') path).filter fun part => !part.isEmpty

/-- Whether a path ends with a slash, so that it can only name a directory. -/
def endsWithSlash (path : Text) : Bool :=
  path.getLast? = some '/'

/-- The path without one `./` at its head. -/
def dropHere (path : Text) : Text :=
  (Text.after? ['.', '/'] path).getD path

/-- Whether a path is spelled with dots alone, so that it leads nowhere else. -/
def isHere (path : Text) : Bool :=
  !path.isEmpty && !isAbsolute path && (parts path).all (· = ['.'])

/-- The reversed path without the slashes, and the dots alone between slashes, at its end. -/
def dropEmptyParts : Text → Text
  | [] => []
  | ['.'] => ['.']
  | '/' :: s => dropEmptyParts s
  | '.' :: '/' :: s => dropEmptyParts s
  | c :: s => c :: s

/-- The path of the directory that a path lies in; none for the root and for the empty path. -/
def parent? (path : Text) : Option Text :=
  match dropEmptyParts path.reverse with
  | [] => none
  | s =>
    let dir := (dropEmptyParts (s.dropWhile (· ≠ '/'))).reverse
    if dir.isEmpty && isAbsolute path then some ['/'] else some dir

/-- The name before and after its last dot; a dot at the start does not count. -/
def splitExtension (name : Name) : Name × Option Text :=
  match Text.cutLast? ['.'] name with
  | some (stem, extension) => if stem.isEmpty then (name, none) else (stem, some extension)
  | none => (name, none)

end Path

end PropCatalog.Files
