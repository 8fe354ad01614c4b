import PropCatalog.Catalog.Failure

/-!
# Updating the document

An update is planned first: the sources are scanned, the catalogue is written and put into the text
of the document, and nothing is changed. Only then is the document written, unless it holds the
planned text already.
-/

namespace PropCatalog.Catalog

open Files (Workspace)

/-- A planned update. -/
structure Plan where
  output : Output
  splice : Document.Splice

def scanOf (config : Config) (filter : Option Text) : Scan where
  dir := config.source.dir
  extensions := config.source.extensions
  recursive := config.source.recursive
  useGit := true
  filter

/-- Plans an update. The first failure of scanning, reading the document and finding its region
counts. -/
def plan (ws : Workspace) (config : Config) (filter : Option Text) : Except Failure Plan :=
  match (scanOf config filter).runAllowEmpty ws with
  | .error problem => .error (.scan problem)
  | .ok files =>
    let output := generate config files
    match ws.readText config.target.file with
    | .error error => .error (.targetUnreadable config.target.file error)
    | .ok document =>
      match Document.splice config.target document output.text with
      | .error problem => .error (.splice problem)
      | .ok splice => .ok ⟨output, splice⟩

/-- What writing a text has done. -/
inductive Written where
  | written (bytes : Nat)
  | unchanged
  /-- Nothing was to be written; the text is shown instead. -/
  | dryRun (content : Text)
  deriving DecidableEq, Repr

/-- Makes the directory of a file, if the path has one and it does not exist. -/
def makeParent (ws : Workspace) (path : Text) : Workspace × Except WriteProblem Unit :=
  match Files.Path.parent? path with
  | none => (ws, .ok ())
  | some dir =>
    if dir.isEmpty || ws.exists? dir then (ws, .ok ())
    else
      match ws.makeDirectories dir with
      | (ws, .ok ()) => (ws, .ok ())
      | (ws, .error error) => (ws, .error (.makeDirectory dir error))

/-- Writes a text to the file at a path and makes its directory. Directories that have been made
stay when the file cannot be written. -/
def writeNew (ws : Workspace) (path content : Text) : Workspace × Except WriteProblem Written :=
  match makeParent ws path with
  | (ws, .error problem) => (ws, .error problem)
  | (ws, .ok ()) =>
    match ws.writeText path content with
    | .ok ws => (ws, .ok (.written (Text.utf8Length content)))
    | .error error => (ws, .error (.writeFile path error))

/-- Writes a text to the file at a path, unless the file holds it already; a dry run writes
nothing. -/
def write (ws : Workspace) (dryRun : Bool) (path content : Text) :
    Workspace × Except WriteProblem Written :=
  if dryRun then (ws, .ok (.dryRun content))
  else
    match ws.readText path with
    | .ok old => if old = content then (ws, .ok .unchanged) else writeNew ws path content
    | .error _ => writeNew ws path content

end PropCatalog.Catalog
