import PropCatalog.Files.Workspace
import PropCatalog.Proofs.Files.Path
import PropCatalog.Proofs.Files.Tree
import PropCatalog.Proofs.Text.Utf8

/-!
# Reading and writing files

When a path can be read and when it can be written, and what is read after writing. Both follow the
parts of the path through the tree, and differ at the last one: reading needs a file there, writing
needs a directory around it and no directory in its place (`FilePlace`). A file that can be read can
be written (`FilePlace.of_locate`), and what was written is read (`readText_of_writeText`), because
a file in the place of nothing or of a file keeps the shape of the tree, so that every path leads
where it led before (`follow_of_keepsShape`). Writing a file leaves all other files as they are
(`writesOnly_of_writeText`).
-/

namespace PropCatalog.Files.Workspace

open Node (KeepsShape)

/-! ## Steps that may fail -/

theorem bind_eq_ok {ε α β : Type} {x : Except ε α} {f : α → Except ε β} {b : β} :
    x >>= f = .ok b ↔ ∃ a, x = .ok a ∧ f a = .ok b := by
  cases x with
  | error e => simp [bind, Except.bind]
  | ok a => simp [bind, Except.bind]

theorem check_bind_eq_ok {ε β : Type} {x : Except ε Unit} {y : Except ε β} {b : β} :
    (do x; y) = .ok b ↔ x = .ok () ∧ y = .ok b := by
  cases x with
  | error e => simp [bind, Except.bind]
  | ok u => simp [bind, Except.bind]

theorem pure_eq_ok {ε α : Type} {a b : α} : (pure a : Except ε α) = .ok b ↔ a = b := by
  simp [pure, Except.pure]

theorem eq_ok_of_toOption {ε α : Type} {x : Except ε α} {a : α} (h : x.toOption = some a) :
    x = .ok a := by
  cases x with
  | error e => cases h
  | ok b => rw [Option.some.inj h]

theorem throw_ne_ok {ε α : Type} {e : ε} {a : α} : (throw e : Except ε α) ≠ .ok a := by
  intro h
  cases h

theorem throw_bind_ne_ok {ε α β : Type} {e : ε} {f : α → Except ε β} {b : β} :
    throw e >>= f ≠ .ok b := by
  intro h
  cases h

variable {ws ws' : Workspace} {path content : Text} {location found dir : Location} {name : Name}

/-- Every file of the one workspace is a file of the other one with the same content. -/
def SameFiles (before after : Workspace) : Prop :=
  ∀ location, after.root.fileAt? location = before.root.fileAt? location

/-! ## Following a path -/

theorem requireDirectory_eq_ok : ws.requireDirectory location = .ok () ↔
      ∃ entries, ws.root.get? location = some (.directory entries) := by
  unfold requireDirectory
  split <;> simp_all

theorem follow_eq_ok {part : Name} : ws.follow location part = .ok found ↔
    (∃ entries, ws.root.get? location = some (.directory entries)) ∧
      (part = ['.'] ∧ location = found ∨
        part = ['.', '.'] ∧ location.dropLast = found ∨
        (part ≠ ['.'] ∧ part ≠ ['.', '.'] ∧ requireName part = .ok ()) ∧
          location ++ [part] = found ∧ ∃ node, ws.root.get? (location ++ [part]) = some node) := by
  rw [follow, check_bind_eq_ok, requireDirectory_eq_ok]
  refine and_congr_right fun _ => ?_
  by_cases hdot : part = ['.']
  · simp [hdot, pure_eq_ok]
  by_cases hdots : part = ['.', '.']
  · simp [hdots, pure_eq_ok]
  rw [if_neg hdot, if_neg hdots, check_bind_eq_ok]
  cases hnode : ws.root.get? (location ++ [part]) with
  | none => simp [hdot, hdots, throw_ne_ok]
  | some node => simp [hdot, hdots, pure_eq_ok]

theorem follow_of_keepsShape {part : Name} (hshape : KeepsShape ws.root ws'.root)
    (h : ws.follow location part = .ok found) : ws'.follow location part = .ok found := by
  rw [follow_eq_ok] at h ⊢
  obtain ⟨⟨entries, hdir⟩, hpart⟩ := h
  refine ⟨?_, ?_⟩
  · obtain ⟨node, hnode, hkind⟩ := hshape _ _ hdir
    obtain ⟨inside, rfl⟩ := Node.isDirectory_iff.1 hkind
    exact ⟨inside, hnode⟩
  · rcases hpart with hstay | hup | ⟨hname, hfound, node, hnode⟩
    · exact Or.inl hstay
    · exact Or.inr (Or.inl hup)
    · obtain ⟨node', hnode', -⟩ := hshape _ _ hnode
      exact Or.inr (Or.inr ⟨hname, hfound, node', hnode'⟩)

theorem foldlM_follow_of_keepsShape {parts : List Name} (hshape : KeepsShape ws.root ws'.root)
    (h : parts.foldlM ws.follow location = .ok found) :
    parts.foldlM ws'.follow location = .ok found := by
  induction parts generalizing location with
  | nil => exact h
  | cons part parts ih =>
    rw [List.foldlM_cons, bind_eq_ok] at h ⊢
    obtain ⟨next, hnext, hrest⟩ := h
    exact ⟨next, follow_of_keepsShape hshape hnext, ih hrest⟩

theorem foldlM_follow_append_dots {parts : List Name} {k : Nat}
    (h : (parts ++ List.replicate k ['.']).foldlM ws.follow location = .ok found) :
    parts.foldlM ws.follow location = .ok found := by
  induction k generalizing found with
  | zero => simpa using h
  | succ k ih =>
    rw [List.replicate_succ', ← List.append_assoc, List.foldlM_append, bind_eq_ok] at h
    obtain ⟨next, hnext, hdot⟩ := h
    rw [List.foldlM_cons] at hdot
    simp only [List.foldlM_nil, bind_pure] at hdot
    rcases (follow_eq_ok.1 hdot).2 with ⟨-, rfl⟩ | ⟨hne, -⟩ | ⟨⟨hne, -⟩, -⟩
    · exact ih hnext
    · exact absurd hne (by decide)
    · exact absurd rfl hne

theorem locate_eq_ok : ws.locate path = .ok location ↔
    requirePath path = .ok () ∧ path ≠ [] ∧
      (Path.parts path).foldlM ws.follow (ws.startOf path) = .ok location ∧
      (Path.endsWithSlash path = true →
        ∃ entries, ws.root.get? location = some (.directory entries)) := by
  rw [locate, check_bind_eq_ok]
  refine and_congr_right fun _ => ?_
  rcases eq_or_ne path [] with rfl | hne
  · exact iff_of_false throw_bind_ne_ok fun h => h.1 rfl
  have hfull : path.isEmpty = false := by simpa using hne
  simp only [hfull, Bool.false_eq_true, if_false]
  rw [bind_eq_ok]
  cases hslash : Path.endsWithSlash path with
  | false => simp [hne, pure_eq_ok]
  | true =>
    simp only [if_true, check_bind_eq_ok, requireDirectory_eq_ok, pure_eq_ok]
    constructor
    · rintro ⟨a, hfold, hdir, rfl⟩
      exact ⟨hne, hfold, fun _ => hdir⟩
    · rintro ⟨-, hfold, hdir⟩
      exact ⟨location, hfold, hdir trivial, rfl⟩

/-! ## Reading -/

theorem find_eq_ok {node : Node} : ws.find path = .ok node ↔
    ∃ location, ws.locate path = .ok location ∧ ws.root.get? location = some node := by
  rw [find, bind_eq_ok]
  refine exists_congr fun location => and_congr_right fun _ => ?_
  cases ws.root.get? location with
  | none => simp [throw_ne_ok]
  | some found => simp [pure_eq_ok]

theorem readBytes_eq_ok {bytes : Bytes} : ws.readBytes path = .ok bytes ↔
    ∃ location, ws.locate path = .ok location ∧ ws.root.fileAt? location = some bytes := by
  rw [readBytes, find, bind_assoc, bind_eq_ok]
  refine exists_congr fun location => and_congr_right fun _ => ?_
  rw [Node.fileAt?_eq_some_iff]
  cases ws.root.get? location with
  | none => simp [throw_bind_ne_ok]
  | some node => cases node <;> simp [pure_eq_ok, throw_ne_ok]

theorem readText_eq_ok : ws.readText path = .ok content ↔
    ∃ bytes, ws.readBytes path = .ok bytes ∧ Text.ofUtf8? bytes = some content := by
  rw [readText, bind_eq_ok]
  refine exists_congr fun bytes => and_congr_right fun _ => ?_
  cases Text.ofUtf8? bytes with
  | none => simp [throw_ne_ok]
  | some s => simp [pure_eq_ok]

/-! ## The place of a file -/

/-- A path leads to a name in a directory where a file is or can be made. -/
structure FilePlace (ws : Workspace) (path : Text) (dir : Location) (name : Name) : Prop where
  /-- The path is looked up at all. -/
  path_ok : requirePath path = .ok ()
  ne_nil : path ≠ []
  noSlash : Path.endsWithSlash path = false
  /-- The parts before the name lead to the directory. -/
  leads : ∃ before, Path.parts path = before ++ [name] ∧
    before.foldlM ws.follow (ws.startOf path) = .ok dir
  directory : ∃ entries, ws.root.get? dir = some (.directory entries)
  name_ok : requireName name = .ok ()
  name_ne : name ≠ ['.'] ∧ name ≠ ['.', '.']
  /-- No directory has the name. -/
  free : ∀ inside, ws.root.get? (dir ++ [name]) ≠ some (.directory inside)

theorem filePlace_of_fileLocation (h : ws.fileLocation path = .ok location) :
    ∃ dir name, FilePlace ws path dir name ∧ location = dir ++ [name] := by
  rw [fileLocation, check_bind_eq_ok] at h
  obtain ⟨hpath, h⟩ := h
  rcases eq_or_ne path [] with rfl | hne
  · exact absurd h throw_bind_ne_ok
  have hfull : path.isEmpty = false := by simpa using hne
  simp only [hfull, Bool.false_eq_true, if_false] at h
  split at h
  · exact absurd h throw_ne_ok
  next last before hparts =>
  rw [bind_eq_ok] at h
  obtain ⟨dir, hdir, h⟩ := h
  rw [check_bind_eq_ok, requireDirectory_eq_ok] at h
  obtain ⟨hdirectory, h⟩ := h
  split at h
  · exact absurd h throw_bind_ne_ok
  next hplain =>
  simp only [Bool.or_eq_true, decide_eq_true_eq, not_or, Bool.not_eq_true] at hplain
  rw [check_bind_eq_ok] at h
  obtain ⟨hname, h⟩ := h
  have hreverse : Path.parts path = before.reverse ++ [last] := by
    simpa using congrArg List.reverse hparts
  split at h
  · exact absurd h throw_ne_ok
  next hfree =>
  refine ⟨dir, last, ?_, (pure_eq_ok.1 h).symm⟩
  exact {
    path_ok := hpath
    ne_nil := hne
    noSlash := hplain.1.1
    leads := ⟨before.reverse, hreverse, hdir⟩
    directory := hdirectory
    name_ok := hname
    name_ne := ⟨hplain.1.2, hplain.2⟩
    free := hfree }

namespace FilePlace

variable (h : FilePlace ws path dir name)

include h

theorem fileLocation_eq : ws.fileLocation path = .ok (dir ++ [name]) := by
  obtain ⟨before, hparts, hdir⟩ := h.leads
  have hfull : path.isEmpty = false := by simpa using h.ne_nil
  have hreverse : (Path.parts path).reverse = name :: before.reverse := by simp [hparts]
  rw [fileLocation, check_bind_eq_ok]
  refine ⟨h.path_ok, ?_⟩
  simp only [hfull, Bool.false_eq_true, if_false, hreverse, List.reverse_reverse]
  rw [bind_eq_ok]
  refine ⟨dir, hdir, ?_⟩
  rw [check_bind_eq_ok, requireDirectory_eq_ok]
  refine ⟨h.directory, ?_⟩
  rw [if_neg (by simp [h.noSlash, h.name_ne]), check_bind_eq_ok]
  refine ⟨h.name_ok, ?_⟩
  split
  · next inside hinside => exact absurd hinside (h.free inside)
  · rfl

theorem writeText_eq (content : Text) : ws.writeText path content =
    .ok { ws with root := Node.put (.file (Text.toUtf8 content)) (dir ++ [name]) ws.root } := by
  rw [writeText, h.fileLocation_eq]
  rfl

theorem locate_put (bytes : Bytes) :
    locate { ws with root := Node.put (.file bytes) (dir ++ [name]) ws.root } path =
      .ok (dir ++ [name]) := by
  obtain ⟨before, hparts, hdir⟩ := h.leads
  obtain ⟨entries, hentries⟩ := h.directory
  have hshape := Node.keepsShape_put bytes hentries h.free
  rw [locate_eq_ok]
  refine ⟨h.path_ok, h.ne_nil, ?_, fun hslash => ?_⟩
  · rw [hparts, List.foldlM_append, bind_eq_ok]
    refine ⟨dir, foldlM_follow_of_keepsShape hshape hdir, ?_⟩
    simp only [List.foldlM_cons, List.foldlM_nil, bind_pure]
    rw [follow_eq_ok]
    obtain ⟨node, hnode, hkind⟩ := hshape _ _ hentries
    refine ⟨?_, Or.inr (Or.inr ⟨⟨h.name_ne.1, h.name_ne.2, h.name_ok⟩, rfl, .file bytes, ?_⟩)⟩
    · obtain ⟨inside, rfl⟩ := Node.isDirectory_iff.1 hkind
      exact ⟨inside, hnode⟩
    · exact Node.get?_put (.file bytes) hentries
  · rw [h.noSlash] at hslash
    cases hslash

theorem readBytes_put (bytes : Bytes) :
    readBytes { ws with root := Node.put (.file bytes) (dir ++ [name]) ws.root } path =
      .ok bytes := by
  obtain ⟨entries, hentries⟩ := h.directory
  rw [readBytes_eq_ok]
  refine ⟨_, h.locate_put bytes, ?_⟩
  rw [Node.fileAt?_eq_some_iff]
  exact Node.get?_put (.file bytes) hentries

end FilePlace

/-! ## One file and the others -/

/-- After the change the file at a path holds a text, and every other file is the same as before. -/
structure WritesOnly (before after : Workspace) (path content : Text) : Prop where
  /-- The text is read at the path. -/
  reads : after.readText path = .ok content
  /-- The path names the file at one location, and no other location is concerned. -/
  others : ∃ location, before.fileLocation path = .ok location ∧
    after.locate path = .ok location ∧
    ∀ other ≠ location, after.root.fileAt? other = before.root.fileAt? other

theorem FilePlace.locate_eq {node : Node} (h : FilePlace ws path dir name)
    (hnode : ws.root.get? (dir ++ [name]) = some node) : ws.locate path = .ok (dir ++ [name]) := by
  obtain ⟨before, hparts, hdir⟩ := h.leads
  rw [locate_eq_ok]
  refine ⟨h.path_ok, h.ne_nil, ?_, fun hslash => ?_⟩
  · rw [hparts, List.foldlM_append, bind_eq_ok]
    refine ⟨dir, hdir, ?_⟩
    simp only [List.foldlM_cons, List.foldlM_nil, bind_pure]
    rw [follow_eq_ok]
    exact ⟨h.directory, Or.inr (Or.inr ⟨⟨h.name_ne.1, h.name_ne.2, h.name_ok⟩, rfl, node, hnode⟩)⟩
  · rw [h.noSlash] at hslash
    cases hslash

theorem FilePlace.writesOnly_put (h : FilePlace ws path dir name) (content : Text) :
    WritesOnly ws { ws with root := Node.put (.file (Text.toUtf8 content)) (dir ++ [name]) ws.root }
      path content := by
  obtain ⟨entries, hentries⟩ := h.directory
  constructor
  · rw [readText_eq_ok]
    exact ⟨_, h.readBytes_put _, Text.ofUtf8?_toUtf8 content⟩
  · refine ⟨dir ++ [name], h.fileLocation_eq, h.locate_put _, fun other hother => ?_⟩
    exact Node.fileAt?_put_of_ne _ hentries h.free hother

theorem writesOnly_of_writeText (h : ws.writeText path content = .ok ws') :
    WritesOnly ws ws' path content := by
  rw [writeText, bind_eq_ok] at h
  obtain ⟨location, hlocation, h⟩ := h
  obtain ⟨dir, name, hplace, rfl⟩ := filePlace_of_fileLocation hlocation
  obtain rfl := pure_eq_ok.1 h
  exact hplace.writesOnly_put content

theorem readText_of_writeText (h : ws.writeText path content = .ok ws') :
    ws'.readText path = .ok content :=
  (writesOnly_of_writeText h).reads

/-! ## Files that can be read -/

theorem exists_parts_eq_concat (hne : path ≠ []) (hslash : Path.endsWithSlash path = false) :
    ∃ before name, Path.parts path = before ++ [name] := by
  obtain ⟨name, hname, hno, rfl | ⟨dir, rfl⟩⟩ := Path.exists_name hne hslash
  · exact ⟨[], _, Path.parts_name hname hno⟩
  · exact ⟨Path.parts dir, name, by rw [Path.parts_append_slash, Path.parts_name hname hno]⟩

/-- A file that can be read can be written. Its path ends with a name, because dots and a slash
at the end lead to directories. -/
theorem FilePlace.of_locate {bytes : Bytes} (h : ws.locate path = .ok location)
    (hfile : ws.root.get? location = some (.file bytes)) :
    ∃ dir name, FilePlace ws path dir name ∧ location = dir ++ [name] := by
  obtain ⟨hpath, hne, hfold, hend⟩ := locate_eq_ok.1 h
  have hnot : ∀ entries, ws.root.get? location ≠ some (.directory entries) := by
    intro entries hentries
    rw [hfile] at hentries
    cases hentries
  have hslash : Path.endsWithSlash path = false := by
    rw [← Bool.not_eq_true]
    intro hslash
    obtain ⟨entries, hentries⟩ := hend hslash
    exact hnot entries hentries
  obtain ⟨before, name, hparts⟩ := exists_parts_eq_concat hne hslash
  rw [hparts, List.foldlM_append, bind_eq_ok] at hfold
  obtain ⟨dir, hdir, hlast⟩ := hfold
  simp only [List.foldlM_cons, List.foldlM_nil, bind_pure] at hlast
  obtain ⟨⟨entries, hentries⟩, hname⟩ := follow_eq_ok.1 hlast
  rcases hname with ⟨-, rfl⟩ | ⟨-, rfl⟩ | ⟨⟨hdot, hdots, hname⟩, rfl, -⟩
  · -- a dot leads to the directory itself
    exact absurd hentries (hnot entries)
  · -- two dots lead to the directory around a directory, or stay at the root
    rcases eq_or_ne dir [] with rfl | hinner
    · exact absurd hentries (hnot entries)
    · obtain ⟨outer, houter⟩ := Node.get?_dropLast hinner hentries
      exact absurd houter (hnot outer)
  · refine ⟨dir, name, ?_, rfl⟩
    exact {
      path_ok := hpath
      ne_nil := hne
      noSlash := hslash
      leads := ⟨before, hparts, hdir⟩
      directory := ⟨entries, hentries⟩
      name_ok := hname
      name_ne := ⟨hdot, hdots⟩
      free := hnot }

theorem exists_filePlace_of_readText (h : ws.readText path = .ok content) :
    ∃ dir name bytes, FilePlace ws path dir name ∧ ws.locate path = .ok (dir ++ [name]) ∧
      ws.root.fileAt? (dir ++ [name]) = some bytes ∧ Text.ofUtf8? bytes = some content := by
  obtain ⟨bytes, hbytes, hcontent⟩ := readText_eq_ok.1 h
  obtain ⟨location, hlocate, hfile⟩ := readBytes_eq_ok.1 hbytes
  obtain ⟨dir, name, hplace, rfl⟩ := FilePlace.of_locate hlocate (Node.fileAt?_eq_some_iff.1 hfile)
  exact ⟨dir, name, bytes, hplace, hlocate, hfile, hcontent⟩

theorem writesOnly_of_readText (h : ws.readText path = .ok content) :
    WritesOnly ws ws path content := by
  obtain ⟨dir, name, bytes, hplace, hlocate, -⟩ := exists_filePlace_of_readText h
  exact ⟨h, dir ++ [name], hplace.fileLocation_eq, hlocate, fun other _ => rfl⟩

/-! ## The parent of a file -/

theorem requirePath_eq_ok : requirePath path = .ok () ↔
    '\x00' ∉ path ∧ (Text.toUtf8 path).length ≤ pathLimit := by
  unfold requirePath
  split
  · simp_all
  · split <;> simp_all

theorem requirePath_of_prefix {start : Text} (h : requirePath path = .ok ())
    (hpre : start <+: path) : requirePath start = .ok () := by
  obtain ⟨rest, rfl⟩ := hpre
  rw [requirePath_eq_ok] at h ⊢
  obtain ⟨hnul, hlength⟩ := h
  refine ⟨fun hmem => hnul (List.mem_append_left rest hmem), ?_⟩
  rw [Text.toUtf8, List.flatMap_append, List.length_append] at hlength
  exact le_trans (Nat.le_add_right _ _) hlength

theorem exists?_of_locate {node : Node} (h : ws.locate path = .ok location)
    (hnode : ws.root.get? location = some node) : ws.exists? path = true := by
  have hfind : ws.find path = .ok node := by
    rw [find, bind_eq_ok]
    exact ⟨location, h, by rw [hnode]; rfl⟩
  rw [exists?, hfind]

theorem FilePlace.spelling (h : FilePlace ws path dir name) : name ≠ [] ∧ '/' ∉ name ∧
    (path = name ∨ ∃ lead, path = lead ++ '/' :: name ∧
      (Path.parts lead).foldlM ws.follow (ws.startOf path) = .ok dir) := by
  obtain ⟨before, hparts, hdir⟩ := h.leads
  obtain ⟨last, hlast, hno, rfl | ⟨lead, rfl⟩⟩ := Path.exists_name h.ne_nil h.noSlash
  · rw [Path.parts_name hlast hno] at hparts
    obtain rfl : path = name := by
      have hconcat : [] ++ [path] = before ++ [name] := hparts
      exact List.singleton_inj.1 (List.append_inj' hconcat rfl).2
    exact ⟨hlast, hno, Or.inl rfl⟩
  · rw [Path.parts_append_slash, Path.parts_name hlast hno] at hparts
    obtain ⟨rfl, hname⟩ := List.append_inj' hparts rfl
    obtain rfl := List.singleton_inj.1 hname
    exact ⟨hlast, hno, Or.inr ⟨lead, rfl, hdir⟩⟩

theorem exists?_root (hroot : ∃ entries, ws.root = .directory entries) :
    ws.exists? ['/'] = true := by
  obtain ⟨entries, hentries⟩ := hroot
  have hfound : ws.root.get? [] = some (.directory entries) := congrArg some hentries
  refine exists?_of_locate (locate_eq_ok.2 ⟨by decide, by decide, rfl, fun _ => ?_⟩) hfound
  exact ⟨entries, hfound⟩

theorem FilePlace.exists?_parent (h : FilePlace ws path dir name) {parent : Text}
    (hparent : Path.parent? path = some parent) : parent = [] ∨ ws.exists? parent = true := by
  obtain ⟨entries, hentries⟩ := h.directory
  obtain ⟨hname, hno, rfl | ⟨lead, rfl, hlead⟩⟩ := h.spelling
  · rw [Path.parent?_name hname hno h.name_ne.1] at hparent
    exact Or.inl (Option.some.inj hparent).symm
  rw [Path.parent?_append_name hname hno h.name_ne.1] at hparent
  split at hparent
  · -- nothing but slashes and dots before the name: the parent is the root
    obtain rfl := Option.some.inj hparent
    refine Or.inr (exists?_root ?_)
    cases hroot : ws.root with
    | directory outer => exact ⟨outer, rfl⟩
    | file bytes =>
      rw [hroot] at hentries
      cases dir <;> simp [Node.get?, Node.child?] at hentries
  · -- the parent has the parts before the name, without dots at the end, which lead nowhere else
    obtain rfl := Option.some.inj hparent
    refine or_iff_not_imp_left.2 fun hne => ?_
    obtain ⟨k, hk⟩ := Path.parts_dropEmptyParts lead.reverse
    rw [List.reverse_reverse] at hk
    rw [hk] at hlead
    have hpre : (Path.dropEmptyParts lead.reverse).reverse <+: lead ++ '/' :: name := by
      have hsuffix := List.reverse_prefix.2 (Path.dropEmptyParts_suffix lead.reverse)
      rw [List.reverse_reverse] at hsuffix
      exact hsuffix.trans (List.prefix_append _ _)
    have hstart : ws.startOf (Path.dropEmptyParts lead.reverse).reverse =
        ws.startOf (lead ++ '/' :: name) := by
      obtain ⟨rest, hrest⟩ := hpre
      obtain ⟨c, t, hc⟩ := List.exists_cons_of_ne_nil hne
      rw [← hrest, hc]
      rfl
    refine exists?_of_locate (locate_eq_ok.2 ⟨?_, hne, ?_, fun _ => ⟨entries, hentries⟩⟩) hentries
    · exact requirePath_of_prefix h.path_ok hpre
    · rw [hstart]
      exact foldlM_follow_append_dots hlead

end PropCatalog.Files.Workspace
