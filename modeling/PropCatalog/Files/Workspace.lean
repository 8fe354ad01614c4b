import PropCatalog.Files.Tree
import PropCatalog.Text.Utf8

/-!
# Workspaces

A workspace is a file tree with a current directory, from which paths are followed. The operations
here read and write by path and fail for the reasons that an operating system gives. There are no
links and no permissions, and names and paths have a greatest length.
-/

namespace PropCatalog.Files

/-- Why a path cannot be used. -/
inductive PathError where
  | notFound
  /-- A part that is not the last one is no directory. -/
  | notDirectory
  /-- The path names a directory where a file is needed. -/
  | isDirectory
  | alreadyExists
  | tooLong
  /-- The path has the character that ends names in an operating system. -/
  | nulCharacter
  | notUtf8
  deriving DecidableEq, Repr

def PathError.message : PathError → Text
  | .notFound => "No such file or directory (os error 2)".toList
  | .notDirectory => "Not a directory (os error 20)".toList
  | .isDirectory => "Is a directory (os error 21)".toList
  | .alreadyExists => "File exists (os error 17)".toList
  | .tooLong => "File name too long (os error 36)".toList
  | .nulCharacter => "file name contained an unexpected NUL byte".toList
  | .notUtf8 => "stream did not contain valid UTF-8".toList

/-- A file tree with a current directory. -/
structure Workspace where
  root : Node
  current : Location

namespace Workspace

/-- The most bytes of a name. -/
def nameLimit : Nat := 255

/-- The most bytes of a path. -/
def pathLimit : Nat := 4095

/-- Fails for a path that is not looked up at all. -/
def requirePath (path : Text) : Except PathError Unit :=
  if '\x00' ∈ path then .error .nulCharacter
  else if pathLimit < (Text.toUtf8 path).length then .error .tooLong
  else .ok ()

/-- Fails for a name that no directory can have. -/
def requireName (name : Name) : Except PathError Unit :=
  if nameLimit < (Text.toUtf8 name).length then .error .tooLong else .ok ()

/-- Where following a path starts. -/
def startOf (ws : Workspace) (path : Text) : Location :=
  if Path.isAbsolute path then [] else ws.current

/-- Fails unless there is a directory at a location. -/
def requireDirectory (ws : Workspace) (location : Location) : Except PathError Unit :=
  match ws.root.get? location with
  | some (.directory _) => .ok ()
  | some (.file _) => .error .notDirectory
  | none => .error .notFound

/-- Follows one part of a path from a location. -/
def follow (ws : Workspace) (location : Location) (part : Name) : Except PathError Location := do
  ws.requireDirectory location
  if part = ['.'] then return location
  else if part = ['.', '.'] then return location.dropLast
  else
    requireName part
    match ws.root.get? (location ++ [part]) with
    | some _ => return location ++ [part]
    | none => throw .notFound

/-- The location of a path. A path that ends with a slash must name a directory. -/
def locate (ws : Workspace) (path : Text) : Except PathError Location := do
  requirePath path
  if path.isEmpty then throw .notFound
  let location ← (Path.parts path).foldlM ws.follow (ws.startOf path)
  if Path.endsWithSlash path then ws.requireDirectory location
  return location

def find (ws : Workspace) (path : Text) : Except PathError Node := do
  match ws.root.get? (← ws.locate path) with
  | some node => return node
  | none => throw .notFound

def exists? (ws : Workspace) (path : Text) : Bool :=
  match ws.find path with
  | .ok _ => true
  | .error _ => false

def isDirectory (ws : Workspace) (path : Text) : Bool :=
  match ws.find path with
  | .ok node => node.isDirectory
  | .error _ => false

def readBytes (ws : Workspace) (path : Text) : Except PathError Bytes := do
  match ← ws.find path with
  | .file bytes => return bytes
  | .directory _ => throw .isDirectory

def readText (ws : Workspace) (path : Text) : Except PathError Text := do
  match Text.ofUtf8? (← ws.readBytes path) with
  | some s => return s
  | none => throw .notUtf8

/-- The location of the file that a path names, which need not exist in its directory. -/
def fileLocation (ws : Workspace) (path : Text) : Except PathError Location := do
  requirePath path
  if path.isEmpty then throw .notFound
  match (Path.parts path).reverse with
  | [] => throw .isDirectory
  | last :: before =>
    let dir ← before.reverse.foldlM ws.follow (ws.startOf path)
    ws.requireDirectory dir
    if Path.endsWithSlash path || last = ['.'] || last = ['.', '.'] then throw .isDirectory
    requireName last
    match ws.root.get? (dir ++ [last]) with
    | some (.directory _) => throw .isDirectory
    | _ => return dir ++ [last]

/-- Writes a text to a file. The directory of the file must exist. -/
def writeText (ws : Workspace) (path content : Text) : Except PathError Workspace := do
  let location ← ws.fileLocation path
  return { ws with root := Node.put (.file (Text.toUtf8 content)) location ws.root }

/-- Follows the parts of a path from a location and makes the directories that are missing; `made`
tells whether one has been made on the way. A file in the way is no directory as long as nothing had
to be made, and otherwise, or at the end, a thing that exists already. -/
def makeFrom (ws : Workspace) (made : Bool) (location : Location) :
    List Name → Workspace × Except PathError Unit
  | [] =>
    match ws.requireDirectory location with
    | .ok () => (ws, .ok ())
    | .error _ => (ws, .error .alreadyExists)
  | part :: parts =>
    match ws.requireDirectory location with
    | .error error => (ws, .error (if made then .alreadyExists else error))
    | .ok () =>
      if part = ['.'] then makeFrom ws made location parts
      else if part = ['.', '.'] then makeFrom ws made location.dropLast parts
      else
        let inner := location ++ [part]
        match requireName part, ws.root.get? inner with
        | .error error, _ => (ws, .error error)
        | .ok (), some _ => makeFrom ws made inner parts
        | .ok (), none =>
          makeFrom { ws with root := Node.put (.directory []) inner ws.root } true inner parts

/-- Makes the directory of a path and those on the way to it. What has been made before a failure
stays. -/
def makeDirectories (ws : Workspace) (path : Text) : Workspace × Except PathError Unit :=
  match requirePath path with
  | .error error => (ws, .error error)
  | .ok () => makeFrom ws false (ws.startOf path) (Path.parts path)

end Workspace

end PropCatalog.Files
