import PropCatalog.Catalog.Failure

/-!
# Watching the sources

What a watched directory can report, and whether watching a directory can start. The events between
two states of a directory are the files that differ and the files that are gone.
-/

namespace PropCatalog.Catalog

/-- What happened in a watched directory. -/
inductive WatchEvent where
  | modified (path : Text)
  | deleted (path : Text)
  | error (message : Text)

namespace WatchEvent

def path? : WatchEvent → Option Text
  | modified path => some path
  | deleted path => some path
  | error _ => none

def errorMessage? : WatchEvent → Option Text
  | error message => some message
  | _ => none

end WatchEvent

/-- Starts watching a directory, or a single file, which must exist. The empty path is the current
directory. -/
def startWatch (ws : Files.Workspace) (dir : Text) : Except Failure Unit :=
  let path := if Files.Path.isAbsolute dir then dir else Files.Path.join ['.'] dir
  if ws.exists? path then .ok () else .error .watch

/-- The files below a directory with their paths. -/
def watchedFiles (ws : Files.Workspace) (dir : Text) : List (Text × Files.Bytes) :=
  match ws.find dir with
  | .ok node =>
    node.files.map fun (names, bytes) => (Files.Path.join dir (Files.Path.ofNames names), bytes)
  | .error _ => []

def hasExtension (extensions : List Text) (path : Text) : Bool :=
  let name := (Files.Path.parts path).getLastD []
  (Files.Path.splitExtension name).2.any extensions.contains

/-- The events that lead from some files to others, for the files with one of the extensions. -/
def eventsBetween (extensions : List Text) (before after : List (Text × Files.Bytes)) :
    List WatchEvent :=
  let before := before.filter fun (path, _) => hasExtension extensions path
  let after := after.filter fun (path, _) => hasExtension extensions path
  ((after.filter fun (path, bytes) => before.lookup path != some bytes).map fun (path, _) =>
      .modified path) ++
    ((before.filter fun (path, _) => (after.lookup path).isNone).map fun (path, _) => .deleted path)

end PropCatalog.Catalog
