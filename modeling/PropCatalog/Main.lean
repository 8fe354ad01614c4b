import PropCatalog.CommandLine.Run

/-!
# The program

The files that a command can look at are copied into a workspace, the command runs on the workspace,
and the files that it has changed are written back. What a command does is settled in
`CommandLine.run`; here are only the copies, the printing and the waiting.
-/

namespace PropCatalog.Program

open Files (Workspace Node Location Name)
open CommandLine (Command SourceOptions Outcome)

/-- The name of a location in the file system. -/
def systemName (location : Location) : String :=
  String.ofList ('/' :: Files.Path.ofNames location)

/-! ## Copying into a workspace -/

/-- The workspace with a node at a location, unless there is one. -/
def keepOrPut (ws : Workspace) (location : Location) (node : Node) : Workspace :=
  if (ws.root.get? location).isSome then ws else { ws with root := Node.put node location ws.root }

/-- Copies the file at a location, if there is one. -/
def copyFile (ws : Workspace) (location : Location) : IO Workspace := do
  match ← (IO.FS.readBinFile (systemName location)).toBaseIO with
  | .ok bytes => return keepOrPut ws location (.file bytes.toList)
  | .error _ => return ws

/-- The names of the files of a directory that tell what to ignore, and of the file that tells where
its repository is. -/
def ignoreFileNames : List Location :=
  [[".ignore".toList], [".gitignore".toList], [".git".toList],
    [".git".toList, "info".toList, "exclude".toList]]

/-- Copies the mark of a repository in the directory at a location, if it is a directory. -/
def copyMark (location : Location) (ws : Workspace) (mark : String) : IO Workspace := do
  let place := (← IO.currentDir) / systemName location / mark
  if ← place.isDir then return keepOrPut ws (location ++ [mark.toList]) (.directory [])
  else return ws

/-- Copies what is at a location: a file, or a directory with the files in it that tell what to
ignore. -/
def copyNode (ws : Workspace) (location : Location) : IO Workspace := do
  let place := (← IO.currentDir) / systemName location
  if ← place.isDir then
    let ws ← [".git", ".jj"].foldlM (copyMark location) (keepOrPut ws location (.directory []))
    let ws ← copyFile ws (location ++ [".jj".toList])
    ignoreFileNames.foldlM (fun ws names => copyFile ws (location ++ names)) ws
  else copyFile ws location

/-- Copies the entries of a directory, and what is inside its directories if `recursive` holds.
Links to directories are not followed. -/
partial def copyEntries (ws : Workspace) (location : Location) (recursive : Bool) :
    IO Workspace := do
  let entries ← ((← IO.currentDir) / systemName location).readDir
  entries.foldlM (fun ws entry => do
    let inner := location ++ [entry.fileName.toList]
    let ws ← copyNode ws inner
    let isDirectory := (← entry.path.symlinkMetadata).type == .dir
    if recursive && isDirectory then copyEntries ws inner recursive else return ws) ws

/-- Copies what is on the way of a path and at its end. -/
def copyPath (ws : Workspace) (path : Text) : IO Workspace := do
  let (ws, _) ← (Files.Path.parts path).foldlM (fun (ws, location) (part : Name) => do
    let location :=
      if part = ['.'] then location
      else if part = ['.', '.'] then location.dropLast
      else location ++ [part]
    return (← copyNode ws location, location)) (ws, ws.startOf path)
  return ws

/-- The workspace with nothing but the way to the current directory. -/
def startWorkspace : IO Workspace := do
  let here := (← IO.currentDir).toString.toList
  let ws ← copyNode ⟨.directory [], []⟩ []
  let ws ← copyPath ws here
  return { ws with current := Files.Path.parts here }

/-- Copies the file of a repository that a file `.git` leads to. -/
def copyShared (ws : Workspace) (bytes : Files.Bytes) : IO Workspace := do
  match Files.IgnoreLevel.namedDirectory? bytes with
  | none => return ws
  | some dir =>
    let path := Files.Path.join dir "commondir".toList
    let ws ← copyPath ws path
    match (ws.readBytes path).toOption.bind (Files.IgnoreLevel.sharedDirectory dir) with
    | some shared => copyPath ws (Files.Path.join shared "info/exclude".toList)
    | none => return ws

/-- Copies the sources and the document of a configuration. -/
def copyProject (ws : Workspace) (config : Config) : IO Workspace := do
  let ws ← copyPath ws config.source.dir
  let ws ←
    match ws.locate config.source.dir, ws.isDirectory config.source.dir with
    | .ok location, true => copyEntries ws location config.source.recursive
    | _, _ => pure ws
  let marks := ws.root.files.filter fun (location, _) => location.getLast? = some ".git".toList
  let ws ← marks.foldlM (fun ws (_, bytes) => copyShared ws bytes) ws
  copyPath ws config.target.file

/-- Copies everything that a command with source options can look at. -/
def copyForSources (ws : Workspace) (options : SourceOptions) : IO Workspace := do
  let ws ← copyPath ws (options.config.getD Config.defaultPath)
  match CommandLine.configOf ws options with
  | .ok config => copyProject ws config
  | .error _ => return ws

/-- Copies everything that a command can look at. -/
def copyForCommand (ws : Workspace) : Command → IO Workspace
  | .generate options _ _ => copyForSources ws options
  | .init output _ => copyPath ws output
  | .check options => copyForSources ws options

/-! ## Running -/

/-- Writes the files back in which two workspaces differ. -/
def writeBack (before after : Workspace) : IO Unit := do
  for (location, bytes) in after.root.files do
    let old :=
      match before.root.get? location with
      | some (.file old) => some old
      | _ => none
    if old != some bytes then
      IO.FS.createDirAll (systemName location.dropLast)
      IO.FS.writeBinFile (systemName location) ⟨bytes.toArray⟩

/-- Writes back what a command has changed, prints its lines and tells its exit code. -/
def finish (before : Workspace) (o : Outcome) : IO UInt32 := do
  writeBack before o.workspace
  IO.print (String.ofList o.stdout)
  IO.eprint (String.ofList o.stderr)
  (← IO.getStdout).flush
  return o.exitCode.toUInt32

/-- Looks at the sources again and again, and answers what has changed since they were looked at
last. -/
partial def watch (before : Workspace) (config : Config) (filter : Option Text) (dryRun : Bool) :
    IO UInt32 := do
  IO.sleep 500
  let now ← copyProject (← startWorkspace) config
  let events := Catalog.eventsBetween config.source.extensions
    (Catalog.watchedFiles before config.source.dir) (Catalog.watchedFiles now config.source.dir)
  for event in events do
    let ws ← copyProject (← startWorkspace) config
    let _ ← finish ws (CommandLine.answerEvent ws config filter dryRun event)
  watch now config filter dryRun

def runCommand (command : Command) : IO UInt32 := do
  let ws ← copyForCommand (← startWorkspace) command
  let o := CommandLine.run ws command
  let code ← finish ws o
  match command, o.watching with
  | .generate options _ dryRun, true =>
    match CommandLine.configOf ws options with
    | .ok config => watch ws config options.filter dryRun
    | .error _ => return code
  | _, _ => return code

end PropCatalog.Program

def main (args : List String) : IO UInt32 := do
  match PropCatalog.CommandLine.read (args.map String.toList) with
  | .ok command => PropCatalog.Program.runCommand command
  | .error .version =>
    IO.println (String.ofList PropCatalog.CommandLine.versionLine)
    return 0
  | .error .help =>
    PropCatalog.CommandLine.helpLines.forM fun line => IO.println (String.ofList line)
    return 0
  | .error .usage =>
    PropCatalog.CommandLine.helpLines.forM fun line => IO.eprintln (String.ofList line)
    return 2
