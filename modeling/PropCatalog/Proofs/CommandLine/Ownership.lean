import PropCatalog.Proofs.CommandLine.Agreement

/-!
# What a run may change

Every command works through several stages, each of which can fail after the ones before have done
their part. Still a run owns at most one file: the document of the configuration for an update, and
the new configuration file for `init` (`run_touches`). A run that fails, a check and a dry run leave
the workspace as it was, down to its directories, and an `init` that is not forced never touches what
exists already.

For an update this rests on the plan: it reads the document, so that writing it cannot fail any more
(`Catalog.write_of_plan`), and no directory has to be made for it.
-/

namespace PropCatalog.CommandLine

open Catalog (Failure Plan)
open Files (Workspace Node)
open Files.Workspace (WritesOnly FilePlace)

/-- Whether a command goes on watching the sources after its work is done. -/
def Command.watches : Command → Bool
  | .generate _ watch _ => watch
  | .init _ _ => false
  | .check _ => false

/-- What a run that ends well has done to the files of a workspace. -/
def Achieves (ws : Workspace) (o : Outcome) : Command → Prop
  | .check _ => o.workspace = ws
  | .generate _ _ true => o.workspace = ws
  | .generate source _ false => ∃ config p, configOf ws source = .ok config ∧
      Catalog.plan ws config source.filter = .ok p ∧
      WritesOnly ws o.workspace config.target.file p.splice.content
  | .init output _ => WritesOnly ws o.workspace output Config.defaultText

/-- What a run of a command may do to the files of a workspace. -/
structure Touches (ws : Workspace) (command : Command) (o : Outcome) : Prop where
  /-- A run that fails leaves the workspace. -/
  failed : o.exitCode ≠ 0 → o.workspace = ws
  /-- One that ends well does what the command is for, and a check or a dry run nothing. -/
  done : o.exitCode = 0 → Achieves ws o command
  /-- An `init` that is not forced fails at a path that exists already. -/
  refused : ∀ output, command = .init output false → ws.exists? output = true →
    o.exitCode = 1 ∧ o.workspace = ws
  /-- An `init` that is not forced leaves every file that exists already. -/
  kept : ∀ output, command = .init output false → ∀ location bytes,
    ws.root.fileAt? location = some bytes → o.workspace.root.fileAt? location = some bytes

variable {ws : Workspace} {config : Config} {filter : Option Text}

theorem Touches.of_failure {command : Command} {o : Outcome} (hexit : o.exitCode = 1)
    (hws : o.workspace = ws) : Touches ws command o where
  failed _ := hws
  done hzero := by omega
  refused _ _ _ := ⟨hexit, hws⟩
  kept _ _ location bytes hbytes := by rwa [hws]

theorem Touches.of_done {command : Command} {o : Outcome}
    (hinit : ∀ output force, command ≠ .init output force)
    (hfailed : o.exitCode ≠ 0 → o.workspace = ws) (hdone : o.exitCode = 0 → Achieves ws o command) :
    Touches ws command o where
  failed := hfailed
  done := hdone
  refused output houtput := absurd houtput (hinit output false)
  kept output houtput := absurd houtput (hinit output false)

/-! ## Updates and checks -/

theorem workspace_check (ws : Workspace) (config : Config) (filter : Option Text) :
    (check ws config filter).workspace = ws := by
  unfold check
  dsimp only
  split
  · rfl
  · split <;> rfl

theorem workspace_generate_dryRun (ws : Workspace) (config : Config) (filter : Option Text) :
    (generate ws config filter true).workspace = ws := by
  cases hplan : Catalog.plan ws config filter with
  | error failure =>
    obtain ⟨lines, hlines⟩ := generate_of_plan_eq_error true hplan
    rw [hlines]
    rfl
  | ok p =>
    have hwrite : Catalog.write ws true config.target.file p.splice.content =
        (ws, .ok (.dryRun p.splice.content)) := rfl
    rw [generate_of_write hplan hwrite]
    rfl

theorem touches_check {source : SourceOptions} (h : configOf ws source = .ok config) :
    Touches ws (.check source) (run ws (.check source)) := by
  rw [run_check h]
  have hws := workspace_check ws config source.filter
  exact Touches.of_done (by simp) (fun _ => hws) fun _ => hws

theorem touches_dryRun {source : SourceOptions} (h : configOf ws source = .ok config) :
    Touches ws (.generate source false true) (run ws (.generate source false true)) := by
  rw [run_generate true h]
  have hws := workspace_generate_dryRun ws config source.filter
  exact Touches.of_done (by simp) (fun _ => hws) fun _ => hws

/-- An update fails before it writes, or writes the document alone. -/
theorem touches_update {source : SourceOptions} (h : configOf ws source = .ok config) :
    Touches ws (.generate source false false) (run ws (.generate source false false)) := by
  rw [run_generate false h]
  cases hplan : Catalog.plan ws config source.filter with
  | error failure =>
    obtain ⟨lines, hlines⟩ := generate_of_plan_eq_error false hplan
    rw [hlines]
    exact Touches.of_failure (Catalog.exitCode_of_plan_eq_error hplan) rfl
  | ok p =>
    obtain ⟨ws', written, hwrite, -⟩ := Catalog.write_of_plan hplan
    obtain ⟨document, hread, -⟩ := Catalog.changed_of_plan_eq_ok hplan
    rw [generate_of_write hplan hwrite]
    refine Touches.of_done (by simp) (fun hexit => absurd rfl hexit) fun _ => ?_
    exact ⟨config, p, h, hplan, Catalog.writesOnly_of_write hread hwrite⟩

/-! ## The configuration file -/

theorem fileAt?_eq_none_of_exists? {path : Text} {location : Files.Location}
    (hlocation : ws.fileLocation path = .ok location) (hexists : ws.exists? path = false) :
    ws.root.fileAt? location = none := by
  obtain ⟨dir, name, hplace, rfl⟩ := Files.Workspace.filePlace_of_fileLocation hlocation
  cases hfile : ws.root.fileAt? (dir ++ [name]) with
  | none => rfl
  | some bytes =>
    have hnode := Node.fileAt?_eq_some_iff.1 hfile
    rw [Files.Workspace.exists?_of_locate (hplace.locate_eq hnode) hnode] at hexists
    cases hexists

theorem touches_init (ws : Workspace) (output : Text) (force : Bool) :
    Touches ws (.init output force) (run ws (.init output force)) := by
  rw [run, init]
  split
  · exact Touches.of_failure rfl rfl
  next hfree =>
  cases hwrite : ws.writeText output Config.defaultText with
  | error error => exact Touches.of_failure rfl rfl
  | ok ws' =>
    have honly := Files.Workspace.writesOnly_of_writeText hwrite
    have hnew : ∀ path, Command.init output force = .init path false →
        ws.exists? path = false := by
      intro path hpath
      obtain ⟨rfl, rfl⟩ := Command.init.inj hpath
      simpa using hfree
    constructor
    case failed => exact fun hexit => absurd rfl hexit
    case done => exact fun _ => honly
    case refused =>
      intro path hpath hexists
      rw [hnew path hpath] at hexists
      cases hexists
    case kept =>
      intro path hpath location bytes hbytes
      obtain ⟨rfl, -⟩ := Command.init.inj hpath
      obtain ⟨place, hplace, -, hothers⟩ := honly.others
      have hne : location ≠ place := by
        rintro rfl
        rw [fileAt?_eq_none_of_exists? hplace (hnew output hpath)] at hbytes
        cases hbytes
      exact (hothers location hne).trans hbytes

/-! ## Every command -/

/-- **A run changes only what it owns.** Whatever the arguments ask for, watching apart, and whatever
the workspace holds, the command ends and does to the files no more than `Touches` tells. -/
theorem run_touches (ws : Workspace) {args : List Text} {command : Command}
    (hread : read args = .ok command) (hwatch : command.watches = false) :
    ∃ o, answer ws args = .ok o ∧ Touches ws command o := by
  refine ⟨run ws command, by rw [answer, hread, Except.map], ?_⟩
  cases command with
  | generate source watch dryRun =>
    obtain rfl : watch = false := hwatch
    cases hconfig : configOf ws source with
    | error failure =>
      rw [run, hconfig]
      exact Touches.of_failure (exitCode_of_configOf_eq_error hconfig) rfl
    | ok config =>
      cases dryRun with
      | false => exact touches_update hconfig
      | true => exact touches_dryRun hconfig
  | init output force => exact touches_init ws output force
  | check source =>
    cases hconfig : configOf ws source with
    | error failure =>
      rw [run, hconfig]
      exact Touches.of_failure (exitCode_of_configOf_eq_error hconfig) rfl
    | ok config => exact touches_check hconfig

theorem run_touches_document :
    (read ("generate".toList :: cardArguments) = .ok (.generate cardSource false false) ∧
      (Command.generate cardSource false false).watches = false) ∧
    ∃ o, answer cardWorkspace ("generate".toList :: cardArguments) = .ok o ∧ o.exitCode = 0 ∧
      o.workspace.root.fileAt? ["doc.md".toList] ≠
        cardWorkspace.root.fileAt? ["doc.md".toList] ∧
      o.workspace.root.fileAt? ["src".toList, "Card.tsx".toList] =
        some (Text.toUtf8 cardText) := by
  refine ⟨⟨read_cardArguments, rfl⟩, ?_⟩
  obtain ⟨o, ho, htouches⟩ := run_touches cardWorkspace read_cardArguments rfl
  have hexit : o.exitCode = 0 := by
    have h : (answer cardWorkspace ("generate".toList :: cardArguments)).toOption.map
        Outcome.exitCode = some 0 := by decide +kernel
    rw [ho] at h
    exact Option.some.inj h
  have hchanged : o.workspace.root.fileAt? ["doc.md".toList] ≠
      cardWorkspace.root.fileAt? ["doc.md".toList] := by
    have h : (answer cardWorkspace ("generate".toList :: cardArguments)).toOption.map
        (fun o => o.workspace.root.fileAt? ["doc.md".toList]) ≠
          some (cardWorkspace.root.fileAt? ["doc.md".toList]) := by decide +kernel
    rw [ho] at h
    exact fun hsame => h (congrArg some hsame)
  obtain ⟨config, p, hconfig, -, honly⟩ := htouches.done hexit
  obtain ⟨location, hlocation, -, hothers⟩ := honly.others
  have htarget : config.target.file = "doc.md".toList := by
    have h : (configOf cardWorkspace cardSource).toOption.map (fun config => config.target.file) =
        some "doc.md".toList := by decide +kernel
    rw [hconfig] at h
    exact Option.some.inj h
  have hplace : location = ["doc.md".toList] := by
    have h : (cardWorkspace.fileLocation "doc.md".toList).toOption = some ["doc.md".toList] := by
      decide +kernel
    rw [htarget] at hlocation
    rw [hlocation] at h
    exact Option.some.inj h
  refine ⟨o, ho, hexit, hchanged, ?_⟩
  rw [hothers _ (by rw [hplace]; decide)]
  rfl

end PropCatalog.CommandLine
