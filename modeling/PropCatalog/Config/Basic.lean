import PropCatalog.Document.Region
import PropCatalog.Template.Block

/-!
# Configuration

Where the component sources are, which document to update, how the catalogue is written and how far
references between interfaces are followed. Options of the command line override the configuration.
-/

namespace PropCatalog

/-- Where the component sources are. -/
structure Config.Source where
  dir : Text
  /-- The extensions of source files, without the dot. -/
  extensions : List Text
  recursive : Bool
  /-- What the name of a component is followed by in the name of its properties interface. -/
  suffix : Text
  deriving DecidableEq, Repr

/-- How the catalogue is written. -/
structure Config.Output where
  heading : Text
  fenceLanguage : Text
  descriptions : Bool
  deriving DecidableEq, Repr

structure Config where
  source : Config.Source
  target : Document.Target
  output : Config.Output
  /-- The depth up to which references between interfaces are followed. -/
  cap : Nat
  deriving DecidableEq, Repr

namespace Config

def Source.standard : Source where
  dir := "src/components/templates".toList
  extensions := ["tsx".toList, "ts".toList]
  recursive := false
  suffix := Template.Reader.standard.suffix

def targetStandard : Document.Target where
  file := "docs/agent-prompt.md".toList
  startMarker := "<!-- TEMPLATE_SCHEMAS:START -->".toList
  endMarker := "<!-- TEMPLATE_SCHEMAS:END -->".toList
  legacyHeading := "## Available Templates".toList

def Output.standard : Output where
  heading := "Available Templates".toList
  fenceLanguage := Template.BlockStyle.standard.fenceLanguage
  descriptions := Template.BlockStyle.standard.descriptions

/-- The configuration when nothing is configured. -/
def standard : Config where
  source := .standard
  target := targetStandard
  output := .standard
  cap := Example.defaultCap

def reader (config : Config) : Template.Reader :=
  ⟨config.source.suffix, config.cap⟩

def blockStyle (config : Config) : Template.BlockStyle :=
  ⟨config.output.fenceLanguage, config.output.descriptions⟩

/-! ## Values that cannot work -/

/-- A value that a configuration may not have. -/
inductive InvalidValue where
  | startMarkerBlank
  | endMarkerBlank
  | markersEqual
  | headingUnmarked
  | fenceLanguageBacktick
  deriving DecidableEq, Repr

namespace InvalidValue

def key : InvalidValue → Text
  | startMarkerBlank => "target.start_marker".toList
  | endMarkerBlank => "target.end_marker".toList
  | markersEqual => "target.end_marker".toList
  | headingUnmarked => "target.legacy_heading".toList
  | fenceLanguageBacktick => "output.fence_lang".toList

def requirement : InvalidValue → Text
  | startMarkerBlank => "must not be empty".toList
  | endMarkerBlank => "must not be empty".toList
  | markersEqual => "must differ from target.start_marker".toList
  | headingUnmarked => "must be a markdown heading starting with '#'".toList
  | fenceLanguageBacktick => "must not contain backticks".toList

def message (problem : InvalidValue) : Text :=
  "Invalid configuration value for '".toList ++ problem.key ++ "': ".toList ++ problem.requirement

end InvalidValue

/-- Checks a configuration; the first value that cannot work is reported. -/
def validate (config : Config) : Except InvalidValue Unit :=
  if Text.trim config.target.startMarker = [] then .error .startMarkerBlank
  else if Text.trim config.target.endMarker = [] then .error .endMarkerBlank
  else if config.target.startMarker = config.target.endMarker then .error .markersEqual
  else if config.target.legacyHeading.head? ≠ some '#' then .error .headingUnmarked
  else if '\x60' ∈ config.output.fenceLanguage then .error .fenceLanguageBacktick
  else .ok ()

/-! ## Overrides -/

/-- The values that the command line can override. -/
structure Overrides where
  input : Option Text
  target : Option Text
  cap : Option Nat
  recursive : Option Bool

def override (config : Config) (o : Overrides) : Config where
  source := { config.source with
    dir := o.input.getD config.source.dir
    recursive := o.recursive.getD config.source.recursive }
  target := { config.target with file := o.target.getD config.target.file }
  output := config.output
  cap := o.cap.getD config.cap

end Config

end PropCatalog
