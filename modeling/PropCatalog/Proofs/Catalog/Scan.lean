import PropCatalog.Catalog.Scan
import PropCatalog.Proofs.Files.Walk
import PropCatalog.Proofs.Text.Occurrence
import Mathlib.Data.List.Sort

/-!
# What a scan finds

A scan keeps of the files of a walk those that are sources, and keeps them in the order of the walk.
So it finds exactly the source files that the filter matches, in the order of their paths, part by
part. As this order is strict, two scans that find the same files find the same list: a filter and
the limit to the directory itself only take files away (`runAllowEmpty_exact`).
-/

namespace PropCatalog.Catalog

open Files

/-- The path of one file comes before that of another, part by part. -/
def Precedes (a b : SourceFile) : Prop :=
  Path.parts a.relativePath < Path.parts b.relativePath

instance : Std.Irrefl Precedes where
  irrefl file := List.lt_irrefl (Path.parts file.relativePath)

instance : Std.Antisymm Precedes where
  antisymm a _ hab hba :=
    absurd (List.lt_trans hab hba) (List.lt_irrefl (Path.parts a.relativePath))

namespace Scan

/-- The file passes the filter of a scan. -/
def passes (filter : Option Pattern.Glob) (file : SourceFile) : Bool :=
  filter.all fun glob => glob.isMatch file.relativePath

/-- The file lies in the directory of the scan itself. -/
def isDirect (file : SourceFile) : Bool :=
  (Path.parts file.relativePath).length = 1

/-- A source file stands for a file below the directory of the scan, or right in it: `before` are the
names of the directories on the way, and the name of the file is a component with an extension. -/
structure IsSourceAt (scan : Scan) (dir : Node) (file : SourceFile) (before : List Name)
    (name : Name) (extension : Text) (bytes : Files.Bytes) : Prop where
  get? : dir.get? (before ++ [name]) = some (.file bytes)
  depth : scan.recursive = true ∨ before = []
  name_eq : name = file.component ++ '.' :: extension
  /-- The extension is what stands behind the last dot. -/
  noDot : '.' ∉ extension
  mem_extensions : extension ∈ scan.extensions
  isComponentName : isComponentName file.component = true
  relativePath_eq : file.relativePath = Path.ofNames (before ++ [name])
  path_eq : file.path = (before ++ [name]).foldl Path.join scan.dir
  content_eq : file.content = Text.repairUtf8 bytes

/-- The file is a source file of the scan, wherever below the directory it lies. -/
def IsSource (scan : Scan) (dir : Node) (file : SourceFile) : Prop :=
  ∃ before name extension bytes, IsSourceAt scan dir file before name extension bytes

/-! ## Names of source files -/

theorem component?_eq_some_iff {extensions : List Text} {name : Name} {component : Text} :
    component? extensions name = some component ↔
      ∃ extension ∈ extensions, name = component ++ '.' :: extension ∧ '.' ∉ extension ∧
        isComponentName component = true := by
  have hcut (stem extension : Text) : Text.cutLast? ['.'] name = some (stem, extension) ↔
      name = stem ++ '.' :: extension ∧ '.' ∉ extension := by
    rw [Text.cutLast?_eq_some_iff (by simp), List.append_assoc, List.singleton_append,
      List.tail_cons, List.singleton_infix_iff]
  constructor
  · intro h
    unfold component? Path.splitExtension at h
    cases hlast : Text.cutLast? ['.'] name with
    | none => simp [hlast] at h
    | some found =>
      obtain ⟨stem, extension⟩ := found
      obtain ⟨hname, hdot⟩ := (hcut stem extension).1 hlast
      cases hstem : stem.isEmpty with
      | true => simp [hlast, hstem] at h
      | false =>
        simp only [hlast, hstem, Bool.false_eq_true, if_false, Option.ite_none_right_eq_some,
          Bool.and_eq_true, decide_eq_true_eq, Option.some.injEq] at h
        obtain ⟨⟨hmem, hcomponent⟩, rfl⟩ := h
        exact ⟨extension, hmem, hname, hdot, hcomponent⟩
  · rintro ⟨extension, hmem, hname, hdot, hcomponent⟩
    have hlast := (hcut component extension).2 ⟨hname, hdot⟩
    have hstem : component.isEmpty = false := by
      cases component with
      | nil => cases hcomponent
      | cons => rfl
    simp [component?, Path.splitExtension, hlast, hstem, hmem, hcomponent]

/-! ## Files of a walk -/

variable {ws : Workspace} {scan : Scan} {filter : Option Pattern.Glob} {file : SourceFile}

theorem sourceFile?_eq_some_iff {extensions : List Text} {found : Found} :
    sourceFile? extensions filter found = some file ↔
      component? extensions (found.names.getLastD []) = some file.component ∧
        file.relativePath = Path.ofNames found.names ∧ file.path = found.path ∧
        file.content = Text.repairUtf8 found.bytes ∧ passes filter file = true := by
  obtain ⟨path, relativePath, component, content⟩ := file
  rw [sourceFile?]
  cases component? extensions (found.names.getLastD []) with
  | none => simp
  | some name =>
    simp only [bind, Option.bind_some, pure, Option.ite_none_right_eq_some, Option.some.injEq,
      SourceFile.mk.injEq, passes]
    constructor
    · rintro ⟨hpasses, rfl, rfl, rfl, rfl⟩
      exact ⟨rfl, rfl, rfl, rfl, hpasses⟩
    · rintro ⟨rfl, rfl, rfl, rfl, hpasses⟩
      exact ⟨hpasses, rfl, rfl, rfl, rfl⟩

theorem exists_isBelow_iff_isSource {o : Walk.Options} {dir : Node}
    (ho : o.recursive = scan.recursive) :
    (∃ found, Walk.IsBelow o scan.dir [] dir found ∧
        sourceFile? scan.extensions filter found = some file) ↔
      IsSource scan dir file ∧ passes filter file = true := by
  constructor
  · rintro ⟨_, ⟨rest, bytes, hrest, hget, hdepth, rfl⟩, hsource⟩
    obtain ⟨hcomponent, hrelative, hpath, hcontent, hpasses⟩ := sourceFile?_eq_some_iff.1 hsource
    obtain ⟨before, name, rfl⟩ : ∃ before name, rest = before ++ [name] :=
      ⟨rest.dropLast, rest.getLast hrest, (List.dropLast_append_getLast hrest).symm⟩
    rw [List.nil_append] at hcomponent hrelative
    rw [List.getLastD_concat, component?_eq_some_iff] at hcomponent
    obtain ⟨extension, hextension, hname, hdot, hcomponent⟩ := hcomponent
    have hdepth : scan.recursive = true ∨ before = [] := by
      rw [← ho]
      exact hdepth.imp_right fun hlength => by simpa using hlength
    exact ⟨⟨before, name, extension, bytes, hget, hdepth, hname, hdot, hextension, hcomponent,
      hrelative, hpath, hcontent⟩, hpasses⟩
  · rintro ⟨⟨before, name, extension, bytes, h⟩, hpasses⟩
    refine ⟨⟨(before ++ [name]).foldl Path.join scan.dir, before ++ [name], bytes⟩, ?_, ?_⟩
    · refine ⟨before ++ [name], bytes, by simp, h.get?, ?_, rfl⟩
      rw [ho]
      exact h.depth.imp_right fun hbefore => by simp [hbefore]
    · rw [sourceFile?_eq_some_iff, List.getLastD_concat, component?_eq_some_iff]
      exact ⟨⟨extension, h.mem_extensions, h.name_eq, h.noDot, h.isComponentName⟩, h.relativePath_eq,
        h.path_eq, h.content_eq, hpasses⟩

/-- A scan of a directory succeeds, finds exactly the source files that pass the filter and
goes up in the order of their paths. -/
theorem exists_runAllowEmpty_eq_ok (scan : Scan) {entries : List (Name × Node)}
    (hfree : ws.NoIgnoreFiles) (hroot : ws.root.WellFormed) (hinput : Walk.isInput scan.dir = false)
    (hdir : ws.find scan.dir = .ok (.directory entries)) (hfilter : scan.glob? = .ok filter) :
    ∃ files, scan.runAllowEmpty ws = .ok files ∧
      (∀ file, file ∈ files ↔ IsSource scan (.directory entries) file ∧ passes filter file = true) ∧
      files.Pairwise Precedes := by
  obtain ⟨location, hlocate, hnode⟩ := Workspace.find_eq_ok.1 hdir
  obtain ⟨found, hfound, hmem, hsorted⟩ :=
    Walk.exists_files_eq_ok hfree hroot hinput hlocate hnode ⟨scan.recursive, scan.useGit⟩
  have hnames : ∀ f ∈ found, ∀ name ∈ f.names, name ≠ [] ∧ '/' ∉ name := by
    intro f hf
    obtain ⟨rest, bytes, -, hget, -, rfl⟩ := (hmem f).1 hf
    exact (hroot.get? hnode).names_of_get? hget
  refine ⟨found.filterMap (sourceFile? scan.extensions filter), ?_, ?_, ?_⟩
  · have hisDirectory : ws.isDirectory scan.dir = true := by
      rw [Workspace.isDirectory, hdir]
      rfl
    rw [runAllowEmpty, hfilter, hisDirectory, hfound]
    rfl
  · intro file
    rw [List.mem_filterMap, ← exists_isBelow_iff_isSource (o := ⟨scan.recursive, scan.useGit⟩) rfl]
    simp only [hmem]
  · rw [List.pairwise_filterMap]
    refine hsorted.imp_of_mem fun {a b} ha hb hlt file hfile file' hfile' => ?_
    rw [Precedes, (sourceFile?_eq_some_iff.1 hfile).2.1, (sourceFile?_eq_some_iff.1 hfile').2.1,
      Path.parts_ofNames (hnames a ha), Path.parts_ofNames (hnames b hb)]
    exact hlt

theorem isSource_unfiltered_iff {dir : Node} :
    IsSource { scan with filter := none } dir file ↔ IsSource scan dir file := by
  constructor
  · rintro ⟨before, name, extension, bytes, h⟩
    exact ⟨before, name, extension, bytes, { h with }⟩
  · rintro ⟨before, name, extension, bytes, h⟩
    exact ⟨before, name, extension, bytes, { h with }⟩

theorem isSource_direct_iff {dir : Node} (hdir : dir.WellFormed) :
    IsSource { scan with recursive := false } dir file ↔
      IsSource { scan with recursive := true } dir file ∧ isDirect file = true := by
  have hdirect {scan : Scan} {before : List Name} {name : Name} {extension : Text}
      {bytes : Files.Bytes} (h : IsSourceAt scan dir file before name extension bytes) :
      isDirect file = true ↔ before = [] := by
    rw [isDirect, h.relativePath_eq, Path.parts_ofNames (hdir.names_of_get? h.get?)]
    simp
  constructor
  · rintro ⟨before, name, extension, bytes, h⟩
    have hbefore : before = [] := h.depth.resolve_left (by simp)
    exact ⟨⟨before, name, extension, bytes, { h with depth := Or.inl rfl }⟩,
      (hdirect h).2 hbefore⟩
  · rintro ⟨⟨before, name, extension, bytes, h⟩, hdepth⟩
    exact ⟨before, name, extension, bytes, { h with depth := Or.inr ((hdirect h).1 hdepth) }⟩

/-- **A scan is exact and ordered.** It finds the source files below its directory, or in it, that
the filter matches, each one once and in the order of the paths; without the filter it finds those
that the filter drops as well, and a scan of the directory alone finds what a recursive one finds
there. Only if nothing is found does it fail. The path of the directory is no lone hyphen, from
which a walk comes to nothing. -/
theorem runAllowEmpty_exact {entries : List (Name × Node)} (hfree : ws.NoIgnoreFiles)
    (hroot : ws.root.WellFormed) (hinput : Walk.isInput scan.dir = false)
    (hdir : ws.find scan.dir = .ok (.directory entries)) (hfilter : scan.glob? = .ok filter) :
    ∃ files, scan.runAllowEmpty ws = .ok files ∧
      (∀ file, file ∈ files ↔ IsSource scan (.directory entries) file ∧ passes filter file = true) ∧
      files.Nodup ∧ files.Pairwise Precedes ∧
      (∃ all, { scan with filter := none : Scan }.runAllowEmpty ws = .ok all ∧
        files = all.filter (passes filter)) ∧
      (∃ direct deep, { scan with recursive := false : Scan }.runAllowEmpty ws = .ok direct ∧
        { scan with recursive := true : Scan }.runAllowEmpty ws = .ok deep ∧
        direct = deep.filter isDirect) ∧
      scan.run ws = if files.isEmpty then .error (.noFiles scan.dir) else .ok files := by
  obtain ⟨location, -, hnode⟩ := Workspace.find_eq_ok.1 hdir
  have hwell := hroot.get? hnode
  obtain ⟨files, hrun, hmem, hsorted⟩ :=
    exists_runAllowEmpty_eq_ok scan hfree hroot hinput hdir hfilter
  obtain ⟨all, hall, hmemAll, hsortedAll⟩ :=
    exists_runAllowEmpty_eq_ok { scan with filter := none } hfree hroot hinput hdir rfl
  obtain ⟨direct, hdirect, hmemDirect, hsortedDirect⟩ :=
    exists_runAllowEmpty_eq_ok { scan with recursive := false } hfree hroot hinput hdir hfilter
  obtain ⟨deep, hdeep, hmemDeep, hsortedDeep⟩ :=
    exists_runAllowEmpty_eq_ok { scan with recursive := true } hfree hroot hinput hdir hfilter
  have hfiltered : files = all.filter (passes filter) := by
    refine hsorted.eq_of_mem_iff (hsortedAll.filter _) fun file => ?_
    rw [hmem, List.mem_filter, hmemAll, isSource_unfiltered_iff]
    simp [passes]
  have hshallow : direct = deep.filter isDirect := by
    refine hsortedDirect.eq_of_mem_iff (hsortedDeep.filter _) fun file => ?_
    rw [hmemDirect, List.mem_filter, hmemDeep, isSource_direct_iff hwell]
    exact and_right_comm
  have hfails : scan.run ws = if files.isEmpty then .error (.noFiles scan.dir) else .ok files := by
    rw [run, hrun]
    cases files <;> rfl
  exact ⟨files, hrun, hmem, hsorted.nodup, hsorted, ⟨all, hall, hfiltered⟩,
    ⟨direct, deep, hdirect, hdeep, hshallow⟩, hfails⟩

/-- A directory next to a file whose name goes on from its own. -/
def sampleEntries : List (Name × Node) :=
  [("a.tsx".toList, .file []), ("a".toList, .directory [("B.tsx".toList, .file [])]),
    ("C.tsx".toList, .file []), ("a-b.tsx".toList, .file [])]

def sampleTree : Workspace where
  root := .directory [("src".toList, .directory sampleEntries)]
  current := []

def sampleScan : Scan :=
  { Scan.standard "src".toList with recursive := true, filter := some "a*".toList }

/-- What a walk finds there, by the names on the way. -/
def sampleFound : List Files.Found :=
  [["a.tsx".toList], ["a".toList, "B.tsx".toList], ["C.tsx".toList], ["a-b.tsx".toList]].map
    fun names => ⟨names.foldl Path.join sampleScan.dir, names, []⟩

/-- A source file without content. -/
def sampleSource (relativePath component : String) : SourceFile where
  path := ("src/" ++ relativePath).toList
  relativePath := relativePath.toList
  component := component.toList
  content := []

theorem isBelow_sampleEntries_iff {found : Files.Found} {useGit : Bool} :
    Walk.IsBelow ⟨true, useGit⟩ sampleScan.dir [] (.directory sampleEntries) found ↔
      found ∈ sampleFound := by
  rw [Walk.isBelow_directory_iff (by decide)]
  simp [sampleEntries, sampleFound, Walk.IsAtEntry, Walk.not_isBelow_file,
    Walk.isBelow_directory_iff]

/-- The path in the directory `a` comes first, although a dot comes before a slash. -/
theorem runAllowEmpty_exact_sample : sampleTree.NoIgnoreFiles ∧ sampleTree.root.WellFormed ∧
    Walk.isInput sampleScan.dir = false ∧
    sampleTree.find sampleScan.dir = .ok (.directory sampleEntries) ∧
    sampleScan.glob? = .ok (some ⟨[.char 'a', .run]⟩) ∧
    ∃ files, sampleScan.runAllowEmpty sampleTree = .ok files ∧
      files.map SourceFile.relativePath = ["a/B.tsx".toList, "a.tsx".toList] ∧
      files.Nodup ∧ files.Pairwise Precedes ∧ sampleScan.run sampleTree = .ok files := by
  have hfree : sampleTree.NoIgnoreFiles := Workspace.noIgnoreFiles_of_names (by decide)
  have hsource : (Node.directory sampleEntries).WellFormed := by
    refine .directory (by decide) (by decide) ?_
    simp only [sampleEntries, List.forall_mem_cons, List.not_mem_nil, false_implies, implies_true,
      and_true]
    exact ⟨.file [], .directory (by decide) (by decide) (by simpa using .file []), .file [],
      .file []⟩
  have hroot : sampleTree.root.WellFormed :=
    .directory (by decide) (by decide) (by simpa using hsource)
  have hinput : Walk.isInput sampleScan.dir = false := by decide
  have hdir : sampleTree.find sampleScan.dir = .ok (.directory sampleEntries) := rfl
  have hfilter : sampleScan.glob? = .ok (some ⟨[.char 'a', .run]⟩) := by
    have htokens : Pattern.Glob.tokensFrom [] 0 none "a*".toList = .ok [.char 'a', .run] :=
      Workspace.eq_ok_of_toOption (by decide +kernel)
    have hglob : Pattern.Glob.ofText "a*".toList = .ok ⟨[.char 'a', .run]⟩ := by
      rw [Pattern.Glob.ofText, htokens]
      rfl
    have hpattern : sampleScan.filter = some "a*".toList := rfl
    simp only [glob?, hpattern, hglob]
  obtain ⟨files, hrun, hmem, hnodup, hsorted, -, -, hall⟩ :=
    runAllowEmpty_exact hfree hroot hinput hdir hfilter
  -- two files that are found can stand in one order only
  have hkept : sampleFound.filterMap
      (sourceFile? sampleScan.extensions (some ⟨[.char 'a', .run]⟩)) =
        [sampleSource "a.tsx" "a", sampleSource "a/B.tsx" "B"] := rfl
  have hpair : [sampleSource "a/B.tsx" "B", sampleSource "a.tsx" "a"].Pairwise Precedes :=
    List.pairwise_pair.2 (by decide : Path.parts "a/B.tsx".toList < Path.parts "a.tsx".toList)
  obtain rfl : files = [sampleSource "a/B.tsx" "B", sampleSource "a.tsx" "a"] := by
    refine hsorted.eq_of_mem_iff hpair fun file => ?_
    rw [hmem, ← exists_isBelow_iff_isSource (o := ⟨true, sampleScan.useGit⟩) rfl]
    simp only [isBelow_sampleEntries_iff]
    rw [← List.mem_filterMap, hkept, List.mem_pair, List.mem_pair, or_comm]
  exact ⟨hfree, hroot, hinput, hdir, hfilter, _, hrun, rfl, hnodup, hsorted, hall⟩

end Scan

end PropCatalog.Catalog
