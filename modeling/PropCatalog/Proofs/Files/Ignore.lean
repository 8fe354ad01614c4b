import PropCatalog.Files.Walk
import PropCatalog.Proofs.Files.Workspace

/-!
# Trees without ignore files

Without ignore files (`NoIgnoreFiles`) the levels that a walk makes for the directories in and above
its own are silent (`isSilent_ofDirectory`, `isSilent_of_mem_levelsAbove`), and where all levels are
silent no entry is ignored (`isIgnored_eq_false`).
-/

namespace PropCatalog.Files

variable {ws : Workspace} {location : Location}

/-- The directory that a file `.git` leads to, with the files of the repository that are shared. -/
def Workspace.sharedRepository? (ws : Workspace) (bytes : Bytes) : Option Text := do
  let inner ← IgnoreLevel.namedDirectory? bytes
  let shared ← (ws.readBytes (Path.join inner "commondir".toList)).toOption
  IgnoreLevel.sharedDirectory inner shared

/-- No file tells to leave out entries. -/
structure Workspace.NoIgnoreFiles (ws : Workspace) : Prop where
  plain (dir : Location) : ws.root.fileAt? (dir ++ [".ignore".toList]) = none
  git (dir : Location) : ws.root.fileAt? (dir ++ [".gitignore".toList]) = none
  /-- A repository has none in its directory `.git`. -/
  exclude (dir : Location) :
    ws.root.fileAt? (dir ++ [".git".toList, "info".toList, "exclude".toList]) = none
  /-- It has none where its file `.git` leads. -/
  linked {dir : Location} {bytes : Bytes} {repository : Text} :
    ws.root.fileAt? (dir ++ [".git".toList]) = some bytes →
      ws.sharedRepository? bytes = some repository →
        ∀ content, ws.readBytes (Path.join repository "info/exclude".toList) ≠ .ok content

theorem Node.mem_entryFiles {entries : List (Name × Node)} {name : Name} {child : Node}
    {bytes : Bytes} (hchild : (name, child) ∈ entries) (h : (location, bytes) ∈ child.files) :
    (name :: location, bytes) ∈ entryFiles entries := by
  induction entries with
  | nil => cases hchild
  | cons entry entries ih =>
    obtain ⟨other, first⟩ := entry
    rw [entryFiles, List.mem_append]
    rcases List.mem_cons.1 hchild with heq | hrest
    · obtain ⟨rfl, rfl⟩ := Prod.mk.inj heq
      exact Or.inl (List.mem_map.2 ⟨_, h, rfl⟩)
    · exact Or.inr (ih hrest)

theorem Node.mem_files {node : Node} {bytes : Bytes} (h : node.fileAt? location = some bytes) :
    (location, bytes) ∈ node.files := by
  rw [fileAt?_eq_some_iff] at h
  induction location generalizing node with
  | nil =>
    obtain rfl := Option.some.inj h
    simp [files]
  | cons name rest ih =>
    obtain ⟨child, hchild, hrest⟩ := Option.bind_eq_some_iff.1 h
    cases node with
    | file => cases hchild
    | directory entries =>
      obtain ⟨before, after, rfl, -⟩ := List.lookup_eq_some_iff.1 hchild
      rw [files]
      exact mem_entryFiles (by simp) (ih hrest)

/-- The names of the files that tell to leave out entries or lead to such files. -/
def ignoreNames : List Name :=
  [".ignore".toList, ".gitignore".toList, "exclude".toList, ".git".toList]

theorem Workspace.noIgnoreFiles_of_names
    (h : ∀ f ∈ ws.root.files, f.1.getLast?.all (· ∉ ignoreNames) = true) : ws.NoIgnoreFiles := by
  have hnone {dir : Location} {bytes : Bytes} {name : Name}
      (hfile : ws.root.fileAt? (dir ++ [name]) = some bytes) : name ∉ ignoreNames := by
    have hlast := h _ (Node.mem_files hfile)
    simpa using hlast
  refine ⟨fun dir => ?_, fun dir => ?_, fun dir => ?_, fun hfile _ => absurd ?_ (hnone hfile)⟩
  · exact Option.eq_none_iff_forall_ne_some.2 fun bytes hfile => hnone hfile (by decide)
  · exact Option.eq_none_iff_forall_ne_some.2 fun bytes hfile => hnone hfile (by decide)
  · refine Option.eq_none_iff_forall_ne_some.2 fun bytes hfile => ?_
    rw [List.append_cons, List.append_cons] at hfile
    exact hnone hfile (by decide)
  · decide

theorem Node.fileAt?_concat {node dir : Node} (hdir : node.get? location = some dir)
    (name : Name) : node.fileAt? (location ++ [name]) = dir.childFile? name := by
  rw [fileAt?, get?_append, hdir, Option.bind_some, get?_cons, childFile?]
  cases dir.child? name <;> rfl

/-- The level tells nothing about any entry. -/
structure IgnoreLevel.IsSilent (level : IgnoreLevel) : Prop where
  plain : level.plain = .empty
  git : level.git = .empty
  exclude : level.exclude = .empty

theorem Workspace.eq_append_of_foldlM_follow {names : List Name} {found : Location}
    (hnames : ∀ name ∈ names, name ≠ ['.'] ∧ name ≠ ['.', '.'])
    (h : names.foldlM ws.follow location = .ok found) : found = location ++ names := by
  induction names generalizing location with
  | nil =>
    rw [List.foldlM_nil, pure_eq_ok] at h
    rw [List.append_nil, h]
  | cons name names ih =>
    obtain ⟨⟨hdot, hdots⟩, hnames⟩ := List.forall_mem_cons.1 hnames
    rw [List.foldlM_cons, bind_eq_ok] at h
    obtain ⟨next, hnext, hrest⟩ := h
    rcases (follow_eq_ok.1 hnext).2 with ⟨h, -⟩ | ⟨h, -⟩ | ⟨-, rfl, -⟩
    · exact absurd h hdot
    · exact absurd h hdots
    · rw [ih hnames hrest, List.append_assoc]
      rfl

theorem Workspace.exists_fileAt?_of_readBytes {path : Text} {before names : List Name}
    {bytes : Bytes} (h : ws.readBytes path = .ok bytes)
    (hparts : Path.parts path = before ++ names)
    (hnames : ∀ name ∈ names, name ≠ ['.'] ∧ name ≠ ['.', '.']) :
    ∃ dir, ws.root.fileAt? (dir ++ names) = some bytes := by
  obtain ⟨location, hlocate, hfile⟩ := readBytes_eq_ok.1 h
  obtain ⟨-, -, hfold, -⟩ := locate_eq_ok.1 hlocate
  rw [hparts, List.foldlM_append, bind_eq_ok] at hfold
  obtain ⟨dir, -, hnames'⟩ := hfold
  obtain rfl := eq_append_of_foldlM_follow hnames hnames'
  exact ⟨dir, hfile⟩

theorem IgnoreFile.inDirectory_eq_empty {dir : Node} {name : Name}
    (hdir : ws.root.get? location = some dir) (h : ws.root.fileAt? (location ++ [name]) = none) :
    inDirectory dir name = .empty := by
  rw [Node.fileAt?_concat hdir] at h
  rw [inDirectory, h]

namespace IgnoreLevel

theorem readBytes_excludePath? (h : ws.NoIgnoreFiles) {dir : Node} {path exclude : Text}
    (hdir : ws.root.get? location = some dir) (hexclude : excludePath? ws path dir = some exclude) :
    (ws.readBytes exclude).toOption = none := by
  suffices hno : ∀ content, ws.readBytes exclude ≠ .ok content by
    cases hread : ws.readBytes exclude with
    | error e => rfl
    | ok content => exact absurd hread (hno content)
  intro content hcontent
  unfold excludePath? at hexclude
  split at hexclude
  next bytes hchild =>
    have hfile : ws.root.fileAt? (location ++ [".git".toList]) = some bytes := by
      rw [Node.fileAt?_concat hdir, Node.childFile?, hchild]
    simp only [bind, Option.bind_eq_some_iff, pure, Option.some.injEq] at hexclude
    obtain ⟨inner, hinner, shared, hshared, repository, hrepository, rfl⟩ := hexclude
    have hlinked : ws.sharedRepository? bytes = some repository := by
      rw [Workspace.sharedRepository?, hinner, Option.bind_eq_bind, Option.bind_some, hshared,
        Option.bind_eq_bind, Option.bind_some, hrepository]
    exact h.linked hfile hlinked content hcontent
  next =>
    obtain rfl := Option.some.inj hexclude
    have hgit : Path.parts ".git".toList = [".git".toList] := by decide
    have hinfo : Path.parts "info/exclude".toList = ["info".toList, "exclude".toList] := by decide
    have hparts : Path.parts (Path.join (Path.join path ".git".toList) "info/exclude".toList) =
        Path.parts path ++ [".git".toList, "info".toList, "exclude".toList] := by
      rw [Path.parts_join, Path.parts_join, hgit, hinfo, List.append_assoc]
      rfl
    obtain ⟨dir, hdir⟩ := Workspace.exists_fileAt?_of_readBytes hcontent hparts (by decide)
    rw [h.exclude dir] at hdir
    cases hdir

theorem isSilent_ofDirectory (h : ws.NoIgnoreFiles) {dir : Node}
    (hdir : ws.root.get? location = some dir) (useGit isAbove : Bool) (path : Text) :
    (ofDirectory ws useGit isAbove path dir).IsSilent where
  plain := IgnoreFile.inDirectory_eq_empty hdir (h.plain location)
  git := by
    cases useGit with
    | false => rfl
    | true => exact IgnoreFile.inDirectory_eq_empty hdir (h.git location)
  exclude := by
    cases useGit with
    | false => rfl
    | true =>
      simp only [ofDirectory, if_true]
      cases hexclude : excludePath? ws path dir with
      | none => rfl
      | some exclude => simp [readBytes_excludePath? h hdir hexclude]

theorem IsSilent.messages_eq_nil {level : IgnoreLevel} (h : level.IsSilent) :
    level.messages = [] := by
  rw [messages, h.plain, h.git, h.exclude]
  rfl

theorem firstVerdict?_eq_none {file : IgnoreLevel → IgnoreFile} {levels : List IgnoreLevel}
    (h : ∀ level ∈ levels, file level = .empty) (entry : EntryPath) (isDirectory : Bool) :
    firstVerdict? file entry isDirectory levels = none := by
  rw [firstVerdict?, List.findSome?_eq_none_iff]
  intro level hlevel
  rw [h level hlevel]
  rfl

theorem insideRepository_subset (levels : List IgnoreLevel) :
    insideRepository levels ⊆ levels := by
  fun_induction insideRepository levels with
  | case1 => simp
  | case2 level outer _ => simp
  | case3 level outer _ _ _ => simp
  | case4 level outer _ _ ih => exact List.cons_subset_cons level ih

/-- Nothing is ignored where every level is silent. -/
theorem isIgnored_eq_false {levels : List IgnoreLevel} (h : ∀ level ∈ levels, level.IsSilent)
    (entry : EntryPath) (isDirectory : Bool) : isIgnored levels entry isDirectory = false := by
  have hinner : ∀ level ∈ insideRepository levels, level.IsSilent :=
    fun level hlevel => h level (insideRepository_subset levels hlevel)
  have hplain := firstVerdict?_eq_none (fun level hl => (h level hl).plain) entry isDirectory
  have hgit := firstVerdict?_eq_none (fun level hl => (hinner level hl).git) entry isDirectory
  have hexclude :=
    firstVerdict?_eq_none (fun level hl => (hinner level hl).exclude) entry isDirectory
  simp only [isIgnored, hplain, hgit, hexclude, Option.getD_none]

end IgnoreLevel

namespace Walk

theorem isSilent_of_mem_levelsAbove (h : ws.NoIgnoreFiles) {o : Options}
    {levels : List IgnoreLevel} {before rest : Location} {dir : Node}
    (hlevels : ∀ level ∈ levels, level.IsSilent) (hdir : ws.root.get? before = some dir) :
    ∀ level ∈ levelsAbove ws o levels before rest dir, level.IsSilent := by
  induction rest generalizing levels before dir with
  | nil => exact hlevels
  | cons next rest ih =>
    have hsilent := IgnoreLevel.isSilent_ofDirectory h hdir o.useGit true
      ('/' :: Path.ofNames before)
    have hall := List.forall_mem_cons.2 ⟨hsilent, hlevels⟩
    rw [levelsAbove]
    cases hinner : dir.child? next with
    | none => exact hall
    | some inner =>
      have hget : ws.root.get? (before ++ [next]) = some inner := by
        rw [Node.get?_append, hdir]
        simp [Node.get?, hinner]
      exact ih hall hget

end Walk

end PropCatalog.Files
