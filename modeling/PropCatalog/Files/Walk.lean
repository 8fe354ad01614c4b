import PropCatalog.Files.Ignore

/-!
# Walking a directory

The files below a directory in the order of a walk: the entries of each directory by name, and the
entries of a directory in its place. Entries that an ignore file excludes are left out, and so is
everything inside an excluded directory. The directory of the walk itself always counts.
-/

namespace PropCatalog.Files

/-- A file that a walk has come to. -/
structure Found where
  /-- The path of the file, spelled as the directory of the walk is. -/
  path : Text
  /-- The names from the directory of the walk to the file. -/
  names : List Name
  bytes : Bytes

namespace Walk

/-- Whether one name does not come after another in the order of a walk, which compares character by
character. -/
def nameLE : (a b : Name) → Bool
  | [], _ => true
  | _ :: _, [] => false
  | c :: a, d :: b => c < d || (c = d && nameLE a b)

/-- How a walk is made. -/
structure Options where
  recursive : Bool
  useGit : Bool

/-- What a walk goes by. -/
structure Setting where
  ws : Workspace
  options : Options
  /-- The path of the directory of the walk from the root of the tree. -/
  base : Text

mutual

/-- The files below a node. The levels are those of the node and of the directories around it,
`path` is the path of the node and `names` leads to it. -/
def below (w : Setting) (levels : List IgnoreLevel) (path : Text) (names : List Name) :
    Node → List Found
  | .file _ => []
  | .directory entries =>
    ((belowEntries w levels path names entries).mergeSort fun a b => nameLE a.1 b.1).flatMap
      Prod.snd

/-- The files at and below each entry of a directory, under the name of the entry. -/
def belowEntries (w : Setting) (levels : List IgnoreLevel) (path : Text) (names : List Name) :
    List (Name × Node) → List (Name × List Found)
  | [] => []
  | (name, .file bytes) :: rest =>
    let entry : EntryPath :=
      ⟨Path.join path name, Path.join w.base (Path.ofNames (names ++ [name]))⟩
    let found :=
      if IgnoreLevel.isIgnored levels entry false then []
      else [⟨entry.spelled, names ++ [name], bytes⟩]
    (name, found) :: belowEntries w levels path names rest
  | (name, .directory entries) :: rest =>
    let entry : EntryPath :=
      ⟨Path.join path name, Path.join w.base (Path.ofNames (names ++ [name]))⟩
    let found :=
      if !w.options.recursive || IgnoreLevel.isIgnored levels entry true then []
      else
        let level := .ofDirectory w.ws w.options.useGit false entry.spelled (.directory entries)
        below w (level :: levels) entry.spelled (names ++ [name]) (.directory entries)
    (name, found) :: belowEntries w levels path names rest

end

/-- The levels of the directories on the way to a location, the innermost one first. The location
`before` has been left behind. -/
def levelsAbove (ws : Workspace) (o : Options) (levels : List IgnoreLevel) (before : Location) :
    Location → Node → List IgnoreLevel
  | [], _ => levels
  | next :: rest, dir =>
    let levels := .ofDirectory ws o.useGit true ('/' :: Path.ofNames before) dir :: levels
    match dir.child? next with
    | some inner => levelsAbove ws o levels (before ++ [next]) rest inner
    | none => levels

/-- Whether a path is a lone hyphen, which names the input of the program and no directory. Empty
parts and dots after it do not count. -/
def isInput (path : Text) : Bool :=
  path.head? = some '-' && (Path.parts path).filter (· ≠ ['.']) = [['-']]

/-- The files below the directory at a path. The walk fails with the texts of the problems of the
ignore files in the directories above that one, the outermost one first. -/
def files (ws : Workspace) (o : Options) (path : Text) : Except (List Text) (List Found) :=
  if isInput path then .ok []
  else
    match ws.locate path with
    | .error _ => .ok []
    | .ok location =>
      let outer := levelsAbove ws o [] [] location ws.root
      match outer.reverse.flatMap IgnoreLevel.messages, ws.root.get? location with
      | [], some node =>
        let level := .ofDirectory ws o.useGit false path node
        .ok (below ⟨ws, o, '/' :: Path.ofNames location⟩ (level :: outer) path [] node)
      | [], none => .ok []
      | problems, _ => .error problems

end Walk

end PropCatalog.Files
