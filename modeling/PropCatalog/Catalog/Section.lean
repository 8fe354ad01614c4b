import PropCatalog.Config.Basic

/-!
# The catalogue

The catalogue lists the templates of the components found, in the order of their files, between the
two markers and under a heading with their number. Files without a template are left out and
reported with the reason.
-/

namespace PropCatalog.Catalog

/-- A source file of a component. -/
structure SourceFile where
  path : Text
  /-- The path of the file from the directory of the sources. -/
  relativePath : Text
  component : Text
  content : Text
  deriving DecidableEq, Repr

/-- A template that is listed. -/
structure Listed where
  name : Text
  path : Text
  propertyCount : Nat
  deriving DecidableEq, Repr

/-- A file that is left out. -/
structure Skipped where
  path : Text
  reason : Template.Problem
  deriving DecidableEq, Repr

/-- A catalogue that has been written. -/
structure Output where
  /-- The text from the start marker to the end marker. -/
  text : Text
  listed : List Listed
  skipped : List Skipped

/-- The files with the outcome of reading each. -/
def readAll (config : Config) (files : List SourceFile) :
    List (SourceFile × Except Template.Problem Template) :=
  files.map fun file => (file, config.reader.read file.component file.content)

def templates (config : Config) (files : List SourceFile) : List (SourceFile × Template) :=
  (readAll config files).filterMap fun (file, outcome) =>
    match outcome with
    | .ok template => some (file, template)
    | .error _ => none

def skipped (config : Config) (files : List SourceFile) : List Skipped :=
  (readAll config files).filterMap fun (file, outcome) =>
    match outcome with
    | .ok _ => none
    | .error reason => some ⟨file.path, reason⟩

def assemble (config : Config) (blocks : List Text) : Text :=
  config.target.startMarker ++ "\n\n## ".toList ++ config.output.heading ++ " (".toList ++
    Nat.toDigits 10 blocks.length ++ ")\n".toList ++
    blocks.flatMap (fun block => '\n' :: block) ++ '\n' :: config.target.endMarker

/-- The catalogue of source files. -/
def generate (config : Config) (files : List SourceFile) : Output :=
  let templates := templates config files
  { text := assemble config (templates.map fun (_, t) => t.block config.blockStyle)
    listed := templates.map fun (file, t) => ⟨t.name, file.path, t.properties.length⟩
    skipped := skipped config files }

end PropCatalog.Catalog
