import PropCatalog.Catalog.Update
import PropCatalog.Catalog.Watch
import PropCatalog.CommandLine.Arguments
import PropCatalog.Config.DefaultText

/-!
# Running commands

A command takes a workspace to another one, prints lines, and may fail. A file is written only when
all else has been done, so a command that fails leaves the files as they are.
-/

namespace PropCatalog.CommandLine

open Catalog (Failure Plan)
open Files (Workspace)

/-- What a command has done. -/
structure Outcome where
  workspace : Workspace
  lines : List Text
  failure : Option Failure
  /-- Whether the command now waits for changes of the sources. -/
  watching : Bool

namespace Outcome

def exitCode (o : Outcome) : Nat :=
  match o.failure with
  | some failure => failure.exitCode
  | none => 0

def stdout (o : Outcome) : Text :=
  o.lines.flatMap fun line => line ++ ['\n']

def stderr (o : Outcome) : Text :=
  match o.failure with
  | some failure => "Error: ".toList ++ failure.message ++ ['\n']
  | none => []

/-- The outcome with lines printed before. -/
def after (lines : List Text) (o : Outcome) : Outcome :=
  { o with lines := lines ++ o.lines }

/-- A command that fails and prints nothing. -/
def fail (ws : Workspace) (failure : Failure) : Outcome :=
  ⟨ws, [], some failure, false⟩

/-- A command that ends well after printing lines. -/
def done (ws : Workspace) (lines : List Text) : Outcome :=
  ⟨ws, lines, none, false⟩

end Outcome

def tick : Text := "✓ ".toList

def cross : Text := "✗ ".toList

def report (output : Catalog.Output) : List Text :=
  (output.listed.map fun t =>
    "  ".toList ++ tick ++ t.name ++ " (".toList ++ Nat.toDigits 10 t.propertyCount ++
      " properties)".toList) ++
  (output.skipped.map fun s => "  Skipped ".toList ++ s.path ++ ": ".toList ++ s.reason.message) ++
  ["  Generated ".toList ++ Nat.toDigits 10 output.listed.length ++ " template(s)".toList]

/-- The configuration that the source options ask for. -/
def configOf (ws : Workspace) (options : SourceOptions) : Except Failure Config :=
  match Config.load ws options.config with
  | .error problem => .error (.config problem)
  | .ok config =>
    .ok (config.override
      ⟨options.input, options.target, options.cap, if options.recursive then some true else none⟩)

/-- The line that tells that a legacy section is taken over. -/
def legacyLines (config : Config) (plan : Plan) : List Text :=
  match plan.splice.region.kind with
  | .markers => []
  | .legacy =>
    ["  Replacing legacy '".toList ++ config.target.legacyHeading ++
      "' section with marked region".toList]

/-- The lines about what writing the document at a path has done. -/
def writtenLines (path : Text) : Catalog.Written → List Text
  | .written bytes =>
    [tick ++ "Updated ".toList ++ path ++ " (".toList ++ Nat.toDigits 10 bytes ++ " bytes)".toList]
  | .unchanged => [tick ++ path ++ " is already up-to-date".toList]
  | .dryRun content =>
    let rule := List.replicate 60 '─'
    ["[dry-run] Would write to ".toList ++ path ++ [':'], rule, content, rule]

/-- Writes the catalogue into the document once. -/
def generate (ws : Workspace) (config : Config) (filter : Option Text) (dryRun : Bool) : Outcome :=
  let scanning := "Scanning ".toList ++ config.source.dir
  match Catalog.plan ws config filter with
  | .error failure => (Outcome.fail ws failure).after [scanning]
  | .ok plan =>
    let planned := scanning :: report plan.output ++ legacyLines config plan
    match Catalog.write ws dryRun config.target.file plan.splice.content with
    | (ws, .error problem) => (Outcome.fail ws (.write problem)).after planned
    | (ws, .ok written) => (Outcome.done ws (writtenLines config.target.file written)).after planned

def watchingLines : List Text :=
  [[], "Watching for changes...".toList]

/-- Writes the catalogue into the document and starts to watch the sources. -/
def generateAndWatch (ws : Workspace) (config : Config) (filter : Option Text) (dryRun : Bool) :
    Outcome :=
  let first := (generate ws config filter dryRun).after
    ["Starting watch mode...".toList, "  Watching: ".toList ++ config.source.dir,
      "  Press Ctrl+C to stop".toList, []]
  if first.failure.isSome then first
  else
    match Catalog.startWatch first.workspace config.source.dir with
    | .error failure => { first with failure := some failure }
    | .ok () =>
      { first with
        lines := first.lines ++ watchingLines
        watching := true }

/-- Answers an event of the watched sources: the catalogue is written again. Failures are told and
do not end the watch. -/
def answerEvent (ws : Workspace) (config : Config) (filter : Option Text) (dryRun : Bool)
    (event : Catalog.WatchEvent) : Outcome :=
  match event.errorMessage? with
  | some message => ⟨ws, ["Watch error: ".toList ++ message], none, true⟩
  | none =>
    let changed :=
      match event.path? with
      | some path => [[], "File changed: ".toList ++ path]
      | none => []
    let o := generate ws config filter dryRun
    let failed :=
      match o.failure with
      | some failure => ["Generation error: ".toList ++ failure.message]
      | none => []
    ⟨o.workspace, changed ++ o.lines ++ failed ++ watchingLines, none, true⟩

def init (ws : Workspace) (output : Text) (force : Bool) : Outcome :=
  if ws.exists? output && !force then
    (Outcome.fail ws (.configExists output)).after ["  Use --force to overwrite".toList]
  else
    match ws.writeText output Config.defaultText with
    | .error error => .fail ws (.configUnwritable error)
    | .ok ws => .done ws [tick ++ "Created configuration file: ".toList ++ output]

/-- Checks that the document holds the catalogue of the sources. -/
def check (ws : Workspace) (config : Config) (filter : Option Text) : Outcome :=
  let checking := "Checking template section...".toList
  match Catalog.plan ws config filter with
  | .error failure => (Outcome.fail ws failure).after [checking]
  | .ok plan =>
    let planned := checking :: report plan.output
    if plan.splice.changed then
      (Outcome.fail ws .outOfDate).after (planned ++
        [cross ++ config.target.file ++ " is out of date".toList,
          "  Run 'propdoc generate' to update".toList])
    else (Outcome.done ws [tick ++ "Template section is up-to-date".toList]).after planned

def run (ws : Workspace) : Command → Outcome
  | .generate source watch dryRun =>
    match configOf ws source with
    | .error failure => .fail ws failure
    | .ok config =>
      if watch then generateAndWatch ws config source.filter dryRun
      else generate ws config source.filter dryRun
  | .init output force => init ws output force
  | .check source =>
    match configOf ws source with
    | .error failure => .fail ws failure
    | .ok config => check ws config source.filter

def versionLine : Text := "propdoc 0.1.0".toList

def helpLines : List Text :=
  ["Document UI template props as example schemas".toList, [],
    "Usage: propdoc [OPTIONS] <COMMAND>".toList, [],
    "Commands:".toList,
    "  generate  Regenerate the template section of the target document".toList,
    "  init      Initialize a new propdoc configuration file".toList,
    "  check     Check that the target document is up-to-date".toList]

end PropCatalog.CommandLine
