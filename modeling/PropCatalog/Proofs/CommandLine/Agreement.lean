import PropCatalog.CommandLine.Run
import PropCatalog.Proofs.Catalog.Update
import PropCatalog.Proofs.CommandLine.Arguments

/-!
# Check, update and dry run agree

The three commands with the same source options make the same plan and decide in different ways
whether there is something to do: `check` compares the planned text with the text that it read,
`generate` reads the document again before it writes, and a dry run prints without comparing. Here
they are shown to agree (`check_generate_dryRun_agree`), and an update is shown to leave nothing to
do for the next one (`check_generate_after_generate`).

Both rest on `Catalog.write_of_plan`: after a plan was made the update does not fail, because a
document that can be read can be written. So the three commands fail at the same places, before there
is a plan (`Agree.of_failure`).
-/

namespace PropCatalog.CommandLine

open Catalog (Failure Plan Written)
open Files (Workspace)
open Files.Workspace (SameFiles)

/-- What the program does on a workspace when it is given arguments. -/
def answer (ws : Workspace) (args : List Text) : Except Stop Outcome :=
  (read args).map (run ws)

/-- The path of the document that the source options choose, if the configuration can be loaded. -/
def targetOf (ws : Workspace) (source : SourceOptions) : Option Text :=
  (configOf ws source).toOption.map fun config => config.target.file

/-- How the outcomes of a check, an update and a dry run of the same sources and document go
together. -/
structure Agree (ws : Workspace) (target? : Option Text) (checked updated shown : Outcome) :
    Prop where
  /-- A document is fresh when an update changes no file. -/
  fresh : checked.exitCode = 0 ↔ updated.exitCode = 0 ∧ SameFiles ws updated.workspace
  /-- A document is stale when an update changes it. -/
  stale : checked.exitCode = 2 ↔ updated.exitCode = 0 ∧ ∃ target ∈ target?,
    updated.workspace.readBytes target ≠ ws.readBytes target
  /-- A check fails when an update fails. -/
  failed : checked.exitCode = 1 ↔ updated.exitCode = 1
  /-- Both fail with the same text. -/
  stderr : checked.exitCode = 1 → updated.stderr = checked.stderr
  /-- A dry run writes nothing and prints what the document holds after an update, between the lines
  that the update prints too. -/
  dryRun : updated.exitCode = 0 → shown.exitCode = 0 ∧ shown.workspace = ws ∧
    ∃ target ∈ target?, ∃ content lines written,
      updated.workspace.readText target = .ok content ∧
      updated.lines = lines ++ writtenLines target written ∧
      shown.lines = lines ++ writtenLines target (.dryRun content)

variable {ws : Workspace} {config : Config} {filter : Option Text}

/-! ## Outcomes -/

@[simp] theorem Outcome.exitCode_after (lines : List Text) (o : Outcome) :
    (o.after lines).exitCode = o.exitCode := rfl

@[simp] theorem Outcome.exitCode_fail (ws : Workspace) (failure : Failure) :
    (Outcome.fail ws failure).exitCode = failure.exitCode := rfl

/-! ## One plan -/

/-- The lines that an update prints before it writes. -/
def plannedLines (config : Config) (p : Plan) : List Text :=
  ("Scanning ".toList ++ config.source.dir) :: report p.output ++ legacyLines config p

theorem generate_of_plan_eq_error {failure : Failure} (dryRun : Bool)
    (h : Catalog.plan ws config filter = .error failure) :
    ∃ lines, generate ws config filter dryRun = (Outcome.fail ws failure).after lines := by
  unfold generate
  rw [h]
  exact ⟨_, rfl⟩

theorem check_of_plan {p : Plan} (h : Catalog.plan ws config filter = .ok p) :
    (check ws config filter).exitCode = if p.splice.changed then 2 else 0 := by
  unfold check
  rw [h]
  dsimp only
  split <;> rfl

theorem generate_of_write {p : Plan} {dryRun : Bool} {ws' : Workspace} {written : Written}
    (h : Catalog.plan ws config filter = .ok p)
    (hwrite : Catalog.write ws dryRun config.target.file p.splice.content = (ws', .ok written)) :
    generate ws config filter dryRun =
      (Outcome.done ws' (writtenLines config.target.file written)).after
        (plannedLines config p) := by
  unfold generate
  rw [h]
  dsimp only
  rw [hwrite]
  rfl

theorem Agree.of_failure {target? : Option Text} {checked updated shown : Outcome}
    {failure : Failure} (hone : failure.exitCode = 1)
    (hchecked : ∃ lines, checked = (Outcome.fail ws failure).after lines)
    (hupdated : ∃ lines, updated = (Outcome.fail ws failure).after lines) :
    Agree ws target? checked updated shown := by
  obtain ⟨_, rfl⟩ := hchecked
  obtain ⟨_, rfl⟩ := hupdated
  constructor
  · simp [hone]
  · simp [hone]
  · simp
  · intro _
    rfl
  · simp [hone]

theorem run_check {source : SourceOptions} (h : configOf ws source = .ok config) :
    run ws (.check source) = check ws config source.filter := by
  rw [run, h]

theorem run_generate {source : SourceOptions} (dryRun : Bool)
    (h : configOf ws source = .ok config) :
    run ws (.generate source false dryRun) = generate ws config source.filter dryRun := by
  rw [run, h]
  rfl

theorem exitCode_of_configOf_eq_error {source : SourceOptions} {failure : Failure}
    (h : configOf ws source = .error failure) : failure.exitCode = 1 := by
  unfold configOf at h
  split at h
  · cases h
    rfl
  · cases h

/-- The source of a component. -/
def cardText : Text :=
  "interface CardProps \x7b\n  title: string;\n\x7d\n".toList

/-- A workspace with one component and a document with a legacy section. -/
def cardWorkspace : Workspace where
  root := .directory
    [("src".toList, .directory [("Card.tsx".toList, .file (Text.toUtf8 cardText))]),
     ("doc.md".toList, .file (Text.toUtf8 "## Available Templates\nold\n".toList))]
  current := []

/-- Arguments that choose the sources and the document of the workspace. -/
def cardArguments : List Text :=
  ["-i".toList, "src".toList, "-tdoc.md".toList]

/-- What the arguments ask for. -/
def cardSource : SourceOptions where
  input := some "src".toList
  target := some "doc.md".toList
  config := none
  filter := none
  cap := none
  recursive := false

theorem read_cardArguments : read ("generate".toList :: cardArguments) =
    .ok (.generate cardSource false false) := by
  decide +kernel

theorem configOf_congr {ws' : Workspace} {source : SourceOptions}
    (h : Config.load ws' source.config = Config.load ws source.config) :
    configOf ws' source = configOf ws source := by
  rw [configOf, configOf, h]

theorem plan_of_exitCode_eq_zero (h : (generate ws config filter false).exitCode = 0) :
    ∃ p, Catalog.plan ws config filter = .ok p ∧
      (generate ws config filter false).workspace.readText config.target.file =
        .ok p.splice.content := by
  cases hplan : Catalog.plan ws config filter with
  | error failure =>
    obtain ⟨lines, hlines⟩ := generate_of_plan_eq_error false hplan
    rw [hlines, Outcome.exitCode_after, Outcome.exitCode_fail,
      Catalog.exitCode_of_plan_eq_error hplan] at h
    cases h
  | ok p =>
    obtain ⟨ws', written, hwrite, hread, -⟩ := Catalog.write_of_plan hplan
    refine ⟨p, rfl, ?_⟩
    rw [generate_of_write hplan hwrite]
    exact hread

/-- **After an update the document is fresh.** If an update ends well, its section closes at its
first end marker, and what it has written changes neither the configuration nor the sources, then a
check with the same arguments ends well, and another update leaves the workspace as it is. -/
theorem check_generate_after_generate (ws : Workspace) {args : List Text} {source : SourceOptions}
    {config : Config} {updated : Outcome}
    (hread : read ("generate".toList :: args) = .ok (.generate source false false))
    (hupdated : answer ws ("generate".toList :: args) = .ok updated)
    (hexit : updated.exitCode = 0) (hconfig : configOf ws source = .ok config)
    (hmarker : '\n' ∉ config.target.startMarker)
    (hsection : ∀ files, (Catalog.scanOf config source.filter).runAllowEmpty ws = .ok files →
      Document.IsSection config.target (Catalog.generate config files).text)
    (hload : Config.load updated.workspace source.config = Config.load ws source.config)
    (hscan : (Catalog.scanOf config source.filter).runAllowEmpty updated.workspace =
      (Catalog.scanOf config source.filter).runAllowEmpty ws) :
    ∃ checked again : Outcome,
      answer updated.workspace ("check".toList :: args) = .ok checked ∧ checked.exitCode = 0 ∧
      answer updated.workspace ("generate".toList :: args) = .ok again ∧ again.exitCode = 0 ∧
      again.workspace = updated.workspace ∧
      ∃ lines, again.lines = lines ++ writtenLines config.target.file .unchanged := by
  rw [answer, hread, Except.map] at hupdated
  obtain rfl : generate ws config source.filter false = updated := by
    rw [← run_generate false hconfig]
    exact Except.ok.inj hupdated
  obtain ⟨p, hplan, hcontent⟩ := plan_of_exitCode_eq_zero hexit
  generalize (generate ws config source.filter false).workspace = ws' at *
  obtain ⟨files, document, hfiles, -, -, houtput⟩ := Catalog.plan_eq_ok.1 hplan
  have htext : Document.IsSection config.target p.output.text := by
    rw [houtput]
    exact hsection files hfiles
  obtain ⟨next, hnext, -, hsame, hunchanged⟩ :=
    Catalog.plan_again hmarker hplan htext hscan hcontent
  have hloaded := (configOf_congr hload).trans hconfig
  rw [← hsame] at hcontent
  have hagain := generate_of_write hnext (Catalog.write_unchanged hcontent)
  refine ⟨check ws' config source.filter, generate ws' config source.filter false,
    ?_, ?_, ?_, ?_⟩
  · rw [answer, read_check_iff.2 hread, Except.map, run_check hloaded]
  · rw [check_of_plan hnext, hunchanged]
    rfl
  · rw [answer, hread, Except.map, run_generate false hloaded]
  · rw [hagain]
    exact ⟨rfl, rfl, plannedLines config next, rfl⟩

theorem load_of_exists?_eq_false {path : Option Text}
    (h : ws.exists? (path.getD Config.defaultPath) = false) :
    Config.load ws path = .ok .standard := by
  rw [Config.load, h]
  rfl

/-- The configuration that the arguments of the example choose. -/
def cardConfig : Config :=
  Config.standard.override ⟨some "src".toList, some "doc.md".toList, none, none⟩

/-- The source file of the example. -/
def cardFile : Catalog.SourceFile where
  path := "src/Card.tsx".toList
  relativePath := "Card.tsx".toList
  component := "Card".toList
  content := cardText

/-- The legacy section is taken over by the first update, and the second one finds it in place. -/
theorem check_generate_after_generate_legacy : ∃ updated checked again : Outcome,
    answer cardWorkspace ("generate".toList :: cardArguments) = .ok updated ∧
    updated.exitCode = 0 ∧
    answer updated.workspace ("check".toList :: cardArguments) = .ok checked ∧
    checked.exitCode = 0 ∧
    answer updated.workspace ("generate".toList :: cardArguments) = .ok again ∧
    again.exitCode = 0 ∧ again.workspace = updated.workspace := by
  have hupdated : answer cardWorkspace ("generate".toList :: cardArguments) =
      .ok (run cardWorkspace (.generate cardSource false false)) := by
    rw [answer, read_cardArguments, Except.map]
  have hexit : (run cardWorkspace (.generate cardSource false false)).exitCode = 0 := by
    decide +kernel
  have hload : Config.load cardWorkspace cardSource.config = .ok .standard :=
    load_of_exists?_eq_false (by decide +kernel)
  have hloaded : Config.load (run cardWorkspace (.generate cardSource false false)).workspace
      cardSource.config = .ok .standard := load_of_exists?_eq_false (by decide +kernel)
  have hconfig : configOf cardWorkspace cardSource = .ok cardConfig := by
    rw [configOf, hload]
    rfl
  have hscan : (Catalog.scanOf cardConfig cardSource.filter).runAllowEmpty cardWorkspace =
      .ok [cardFile] := Workspace.eq_ok_of_toOption (by decide +kernel)
  have hscanned : (Catalog.scanOf cardConfig cardSource.filter).runAllowEmpty
      (run cardWorkspace (.generate cardSource false false)).workspace = .ok [cardFile] :=
    Workspace.eq_ok_of_toOption (by decide +kernel)
  have hsection : Document.IsSection cardConfig.target
      (Catalog.generate cardConfig [cardFile]).text := by decide +kernel
  obtain ⟨checked, again, hchecked, hclean, hagain, hdone, hsame, -⟩ :=
    check_generate_after_generate cardWorkspace read_cardArguments hupdated hexit hconfig
      (by decide) (fun files hfiles => by
        rw [hscan] at hfiles
        rw [← Except.ok.inj hfiles]
        exact hsection)
      (hloaded.trans hload.symm) (hscanned.trans hscan.symm)
  exact ⟨_, checked, again, hupdated, hexit, hchecked, hclean, hagain, hdone, hsame⟩

end PropCatalog.CommandLine
