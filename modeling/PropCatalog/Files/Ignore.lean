import PropCatalog.Files.Workspace
import PropCatalog.Pattern.IgnoreGlob

/-!
# Ignore files

A directory can hold files that tell which entries below it do not count: `.ignore`, and in a
repository `.gitignore` and `.git/info/exclude`. A line is a pattern; `!` in front takes entries
back in, a slash at the end restricts it to directories, and a pattern with another slash is tied to
its directory while one without applies at any depth. Of the lines of a file the last one that
matches counts. A repository is a directory with an entry `.git` or `.jj`; where `.git` is a file,
it tells where the shared files of the repository are.
-/

namespace PropCatalog.Files

open Pattern (IgnoreToken)

/-- One line of an ignore file. -/
structure IgnoreRule where
  /-- The pattern, for paths from the directory of the file. -/
  pattern : List IgnoreToken
  /-- Whether the line takes entries back in. -/
  takesIn : Bool
  /-- Whether the line is about directories only. -/
  directoriesOnly : Bool

/-- What is wrong with an ignore file. -/
inductive IgnoreProblem where
  /-- The line of the given number has a wrong pattern, of the given text. -/
  | pattern (line : Nat) (text : Text) (problem : IgnoreToken.Problem)
  /-- The line of the given number is no text in UTF-8. -/
  | notUtf8 (line : Nat)

def IgnoreProblem.message (path : Text) : IgnoreProblem → Text
  | .pattern line text problem =>
    path ++ ": line ".toList ++ Nat.toDigits 10 line ++ ": error parsing glob '".toList ++ text ++
      "': ".toList ++ problem.message
  | .notUtf8 line =>
    path ++ ": line ".toList ++ Nat.toDigits 10 line ++ ": ".toList ++ PathError.notUtf8.message

namespace IgnoreRule

/-- A line without the blanks at its end, unless the last one is escaped. -/
def trimLine (line : Text) : Text :=
  if (Text.before? ['\\', ' '] line).isSome then line else Text.trimEnd line

/-- The pattern of a line that applies to paths: at any depth if it is not tied to its directory,
and to what is inside a directory if it ends with a double star. -/
def pathPattern (tied : Bool) (s : Text) : Text :=
  let s :=
    if tied || '/' ∈ s || Text.startsWith ['*', '*', '/'] s || s = ['*', '*'] then s
    else '*' :: '*' :: '/' :: s
  if (Text.before? ['/', '*', '*'] s).isSome then s ++ ['/', '*'] else s

/-- The rule of a line; none for a blank line and a comment. -/
def ofLine (line : Text) : Except IgnoreToken.Problem (Option IgnoreRule) :=
  let line := if line.head? = some '#' then [] else trimLine line
  if line.isEmpty then .ok none
  else
    let (takesIn, tied, s) :=
      match line with
      | '\\' :: '!' :: s => (false, false, '!' :: s)
      | '\\' :: '#' :: s => (false, false, '#' :: s)
      | '!' :: '/' :: s => (true, true, s)
      | '!' :: s => (true, false, s)
      | '/' :: s => (false, true, s)
      | s => (false, false, s)
    let (directoriesOnly, s) :=
      match Text.before? ['/'] s with
      | some s => (true, (Text.before? ['\\'] s).getD s)
      | none => (false, s)
    (IgnoreToken.ofText (pathPattern tied s)).map fun pattern =>
      some ⟨pattern, takesIn, directoriesOnly⟩

/-- Whether a rule applies to the entry at a path from the directory of its file. -/
def applies (rule : IgnoreRule) (path : Bytes) (isDirectory : Bool) : Bool :=
  (!rule.directoriesOnly || isDirectory) && IgnoreToken.isMatch rule.pattern path

end IgnoreRule

/-- The rules of an ignore file, the last one first, and what is wrong with it. -/
structure IgnoreFile where
  /-- The rules, the last one first. -/
  rules : List IgnoreRule
  /-- The problems of its lines, the first one first. -/
  problems : List IgnoreProblem
  /-- What is wrong with the patterns together, if one of them nests too deep. -/
  tooDeep : Option Text

namespace IgnoreFile

def empty : IgnoreFile := ⟨[], [], none⟩

/-- The lines of bytes, without the newline and a carriage return before it. -/
def byteLines : Bytes → List Bytes
  | [] => []
  | b :: s =>
    if b = 0x0A then [] :: byteLines s
    else if b = 0x0D && s.head? = some 0x0A then byteLines s
    else
      match byteLines s with
      | [] => [[b]]
      | line :: lines => (b :: line) :: lines

/-- Adds the rules of the lines from the one with the given number on. Reading ends at a line that
is no text, and goes on after one with a wrong pattern. -/
def addLines (file : IgnoreFile) (number : Nat) : List Bytes → IgnoreFile
  | [] => { file with problems := file.problems.reverse }
  | bytes :: rest =>
    match Text.ofUtf8? bytes with
    | none => { file with problems := (.notUtf8 number :: file.problems).reverse }
    | some line =>
      let line := if number = 1 then line.dropWhile (· = '\ufeff') else line
      match IgnoreRule.ofLine line with
      | .ok none => addLines file (number + 1) rest
      | .ok (some rule) => addLines { file with rules := rule :: file.rules } (number + 1) rest
      | .error problem =>
        let text := IgnoreRule.trimLine line
        addLines { file with problems := .pattern number text problem :: file.problems }
          (number + 1) rest

/-- The file without its rules if one of them nests too deep. -/
def checkNesting (file : IgnoreFile) : IgnoreFile :=
  match IgnoreToken.tooDeep? (file.rules.reverse.map IgnoreRule.pattern) with
  | some problem => { file with rules := [], tooDeep := some problem }
  | none => file

def ofBytes (bytes : Bytes) : IgnoreFile :=
  (addLines empty 1 (byteLines bytes)).checkNesting

/-- The first line of a file; none if there is none or it is no text. -/
def firstLine? (bytes : Bytes) : Option Text :=
  (byteLines bytes).head?.bind Text.ofUtf8?

def inDirectory (dir : Node) (name : Name) : IgnoreFile :=
  match dir.childFile? name with
  | some bytes => ofBytes bytes
  | none => empty

/-- Whether the file tells to ignore the entry at a path; none if no rule applies. -/
def ignores? (file : IgnoreFile) (path : Bytes) (isDirectory : Bool) : Option Bool :=
  (file.rules.find? fun rule => rule.applies path isDirectory).map fun rule => !rule.takesIn

/-- The texts of the problems of the file at a path. A line that is no text is a problem only next
to other lines with problems. -/
def messages (file : IgnoreFile) (path : Text) : List Text :=
  let ofLines :=
    match file.problems with
    | [.notUtf8 _] => []
    | problems => problems.map (IgnoreProblem.message path)
  ofLines ++ file.tooDeep.toList

end IgnoreFile

/-! ## The ignore files that apply to an entry -/

/-- A path as a walk spells it, and the same path from the root of the tree. -/
structure EntryPath where
  spelled : Text
  /-- The path from the root of the tree. -/
  absolute : Text

/-- The ignore files of one directory. -/
structure IgnoreLevel where
  /-- The path of the directory, spelled as those of the entries are. -/
  path : Text
  /-- Whether the directory is above the one that is walked, so that its path starts at the root of
  the tree. -/
  isAbove : Bool
  /-- The file `.ignore`. -/
  plain : IgnoreFile
  /-- The file `.gitignore`. -/
  git : IgnoreFile
  /-- The file of the repository. -/
  exclude : IgnoreFile
  excludePath : Text
  isRepository : Bool

namespace IgnoreLevel

/-- The directory of the repository that a file `.git` names. -/
def namedDirectory? (bytes : Bytes) : Option Text :=
  (IgnoreFile.firstLine? bytes).bind (Text.after? "gitdir: ".toList)

/-- The directory that the file `commondir` in a directory of a repository names, for the files
shared with other directories. -/
def sharedDirectory (dir : Text) (bytes : Bytes) : Option Text :=
  (IgnoreFile.firstLine? bytes).map fun shared =>
    if shared.head? = some '.' then Path.join dir shared else shared

/-- The path of the file of the repository for a directory at a path. -/
def excludePath? (ws : Workspace) (path : Text) (dir : Node) : Option Text :=
  let name := "info/exclude".toList
  match dir.child? ".git".toList with
  | some (.file bytes) => do
    let inner ← namedDirectory? bytes
    let shared ← (ws.readBytes (Path.join inner "commondir".toList)).toOption
    return Path.join (← sharedDirectory inner shared) name
  | _ => some (Path.join (Path.join path ".git".toList) name)

/-- The ignore files of a directory at a path; those of the repository count if `useGit` holds. -/
def ofDirectory (ws : Workspace) (useGit isAbove : Bool) (path : Text) (dir : Node) :
    IgnoreLevel :=
  let excludePath := if useGit then excludePath? ws path dir else none
  let exclude := excludePath.bind fun path => (ws.readBytes path).toOption
  { path
    isAbove
    plain := .inDirectory dir ".ignore".toList
    git := if useGit then .inDirectory dir ".gitignore".toList else .empty
    exclude := (exclude.map .ofBytes).getD .empty
    excludePath := excludePath.getD []
    isRepository :=
      useGit && ((dir.child? ".git".toList).isSome || (dir.child? ".jj".toList).isSome) }

def messages (level : IgnoreLevel) : List Text :=
  level.plain.messages (Path.join level.path ".ignore".toList) ++
    level.git.messages (Path.join level.path ".gitignore".toList) ++
    level.exclude.messages level.excludePath

/-- The path of an entry from the directory. Paths are compared as they are spelled, after `./` has
been taken off once from the path of the directory and twice from that of the entry, so with more of
them a path stays as it is. -/
def pathOf (level : IgnoreLevel) (entry : EntryPath) : Text :=
  let path := Path.dropHere (if level.isAbove then entry.absolute else Path.dropHere entry.spelled)
  let dir := Path.dropHere level.path
  if Path.isHere dir || '/' ∉ path then path
  else
    match Text.after? dir path with
    | none => path
    | some rest => (Text.after? ['/'] rest).getD rest

/-- What the innermost directory tells about an entry that tells anything. The levels go
outwards. -/
def firstVerdict? (file : IgnoreLevel → IgnoreFile) (entry : EntryPath) (isDirectory : Bool)
    (levels : List IgnoreLevel) : Option Bool :=
  levels.findSome? fun level =>
    (file level).ignores? (Text.toUtf8 (level.pathOf entry)) isDirectory

/-- The levels up to the top of the repository; none outside a repository. -/
def insideRepository : List IgnoreLevel → List IgnoreLevel
  | [] => []
  | level :: outer =>
    if level.isRepository then [level]
    else
      match insideRepository outer with
      | [] => []
      | inner => level :: inner

/-- Whether an entry of the directory of the first level is ignored. A file `.ignore` outranks every
`.gitignore`, and that outranks the file of the repository. -/
def isIgnored (levels : List IgnoreLevel) (entry : EntryPath) (isDirectory : Bool) : Bool :=
  let inner := insideRepository levels
  match firstVerdict? plain entry isDirectory levels with
  | some verdict => verdict
  | none =>
    match firstVerdict? git entry isDirectory inner with
    | some verdict => verdict
    | none => (firstVerdict? exclude entry isDirectory inner).getD false

end IgnoreLevel

end PropCatalog.Files
