import PropCatalog.Catalog.Section
import PropCatalog.Files.Walk
import PropCatalog.Pattern.Glob

/-!
# Finding the components

The source files of components are those below a directory that have one of the given extensions, a
name that is an ASCII identifier, and a path that the filter matches. Files that are not in UTF-8
are repaired.
-/

namespace PropCatalog.Catalog

open Files (Workspace Found)

/-- Where and how source files are looked for. -/
structure Scan where
  dir : Text
  /-- The extensions, without the dot. -/
  extensions : List Text
  recursive : Bool
  /-- Whether the ignore files of a repository count. -/
  useGit : Bool
  /-- The pattern that paths from the directory must match. -/
  filter : Option Text

def Scan.standard (dir : Text) : Scan where
  dir
  extensions := Config.Source.standard.extensions
  recursive := false
  useGit := true
  filter := none

/-- Why a scan fails. -/
inductive ScanProblem where
  | directoryMissing (dir : Text)
  | noFiles (dir : Text)
  | filter (pattern : Text) (problem : Pattern.Glob.Problem)
  /-- Ignore files above the directory are wrong. -/
  | ignoreFiles (problems : List Text)

def ScanProblem.message : ScanProblem → Text
  | .directoryMissing dir => "Directory not found: ".toList ++ dir
  | .noFiles dir => "No component files found in: ".toList ++ dir
  | .filter pattern problem =>
    "Invalid filter pattern '".toList ++ pattern ++ "': ".toList ++ problem.message
  | .ignoreFiles problems => "Walk error: ".toList ++ Text.join ['\n'] problems

namespace Scan

/-- A character an ASCII identifier can go on with. -/
def isNameRest (c : Char) : Bool :=
  c.isAlphanum || c = '_' || c = '$'

/-- The text is an ASCII identifier. -/
def isComponentName : Text → Bool
  | [] => false
  | c :: s => (c.isAlpha || c = '_' || c = '$') && s.all isNameRest

/-- The component of a file name with one of the extensions. -/
def component? (extensions : List Text) (name : Files.Name) : Option Text :=
  match Files.Path.splitExtension name with
  | (stem, some extension) =>
    if extension ∈ extensions && isComponentName stem then some stem else none
  | _ => none

/-- The source file of a file that was found, if it is one. -/
def sourceFile? (extensions : List Text) (filter : Option Pattern.Glob) (found : Found) :
    Option SourceFile := do
  let component ← component? extensions (found.names.getLastD [])
  let relativePath := Files.Path.ofNames found.names
  if filter.all fun glob => glob.isMatch relativePath then
    return ⟨found.path, relativePath, component, Text.repairUtf8 found.bytes⟩
  else none

def glob? (scan : Scan) : Except ScanProblem (Option Pattern.Glob) :=
  match scan.filter with
  | none => .ok none
  | some pattern =>
    match Pattern.Glob.ofText pattern with
    | .ok glob => .ok (some glob)
    | .error problem => .error (.filter pattern problem)

/-- The source files, which may be none. -/
def runAllowEmpty (scan : Scan) (ws : Workspace) : Except ScanProblem (List SourceFile) := do
  let filter ← scan.glob?
  if ws.isDirectory scan.dir then
    match Files.Walk.files ws ⟨scan.recursive, scan.useGit⟩ scan.dir with
    | .ok found => return found.filterMap (sourceFile? scan.extensions filter)
    | .error problems => throw (.ignoreFiles problems)
  else throw (.directoryMissing scan.dir)

/-- The source files, of which there must be one. -/
def run (scan : Scan) (ws : Workspace) : Except ScanProblem (List SourceFile) := do
  match ← scan.runAllowEmpty ws with
  | [] => throw (.noFiles scan.dir)
  | files => return files

end Scan

end PropCatalog.Catalog
