import PropCatalog.Proofs.Files.Ignore

/-!
# What a walk finds

Without ignore files a walk leaves nothing out: it comes to every file below its directory, or to
every file in it, and to nothing else (`mem_below`). Only the entries of one directory are put in
order, by their names. The files below an entry stay together and all have the name of the entry at
the same place, so that the whole walk is in the order of the names on the way (`pairwise_below`).
-/

namespace PropCatalog.Files

variable {ws : Workspace} {location : Location}

/-! ## Names in directories -/

/-- In every directory of the tree an entry has a name, and no two have the same. -/
inductive Node.WellFormed : Node → Prop
  | file (bytes : Bytes) : WellFormed (.file bytes)
  | directory {entries : List (Name × Node)} (nodup : (entries.map Prod.fst).Nodup)
      (names : ∀ e ∈ entries, e.1 ≠ [] ∧ '/' ∉ e.1) (inner : ∀ e ∈ entries, WellFormed e.2) :
      WellFormed (.directory entries)

theorem lookup_eq_some_iff_mem {entries : List (Name × Node)} {name : Name} {node : Node}
    (h : (entries.map Prod.fst).Nodup) :
    entries.lookup name = some node ↔ (name, node) ∈ entries := by
  induction entries with
  | nil => simp
  | cons entry entries ih =>
    obtain ⟨other, first⟩ := entry
    obtain ⟨hnot, hnodup⟩ := List.nodup_cons.1 h
    rw [List.lookup_cons]
    by_cases hname : name = other
    · subst hname
      have hmem : (name, node) ∉ entries := fun hmem =>
        hnot (List.mem_map.2 ⟨_, hmem, rfl⟩)
      simp [hmem, eq_comm]
    · have hbeq : (name == other) = false := by simpa using hname
      simp [hbeq, ih hnodup, hname]

theorem Node.WellFormed.get? {node found : Node} (h : node.WellFormed)
    (hfound : node.get? location = some found) : found.WellFormed := by
  induction location generalizing node with
  | nil =>
    obtain rfl := Option.some.inj hfound
    exact h
  | cons name rest ih =>
    rw [Node.get?_cons] at hfound
    obtain ⟨child, hchild, hrest⟩ := Option.bind_eq_some_iff.1 hfound
    cases h with
    | file bytes => cases hchild
    | directory nodup names inner =>
      exact ih (inner _ ((lookup_eq_some_iff_mem nodup).1 hchild)) hrest

theorem Node.WellFormed.names_of_get? {node found : Node} (h : node.WellFormed)
    (hfound : node.get? location = some found) : ∀ name ∈ location, name ≠ [] ∧ '/' ∉ name := by
  induction location generalizing node with
  | nil => simp
  | cons name rest ih =>
    rw [Node.get?_cons] at hfound
    obtain ⟨child, hchild, hrest⟩ := Option.bind_eq_some_iff.1 hfound
    cases h with
    | file bytes => cases hchild
    | directory nodup names inner =>
      have hmem := (lookup_eq_some_iff_mem nodup).1 hchild
      exact List.forall_mem_cons.2 ⟨names _ hmem, ih (inner _ hmem) hrest⟩

namespace Walk

/-! ## The order of names -/

theorem nameLE_total (a b : Name) : (nameLE a b || nameLE b a) = true := by
  fun_induction nameLE a b with
  | case1 => simp
  | case2 => simp [nameLE]
  | case3 c a d b ih =>
    rcases Std.lt_trichotomy c d with hlt | rfl | hgt
    · simp [hlt]
    · simpa [nameLE] using ih
    · simp [nameLE, hgt]

theorem nameLE_trans (a b c : Name) (hab : nameLE a b = true) (hbc : nameLE b c = true) :
    nameLE a c = true := by
  induction a generalizing b c with
  | nil => rfl
  | cons x a ih =>
    cases b with
    | nil => cases hab
    | cons y b =>
      cases c with
      | nil => cases hbc
      | cons z c =>
        simp only [nameLE, Bool.or_eq_true, Bool.and_eq_true, decide_eq_true_eq] at hab hbc ⊢
        rcases hab with hxy | ⟨rfl, hab⟩
        · rcases hbc with hyz | ⟨rfl, -⟩
          · exact Or.inl (Char.lt_trans hxy hyz)
          · exact Or.inl hxy
        · rcases hbc with hyz | ⟨rfl, hbc⟩
          · exact Or.inl hyz
          · exact Or.inr ⟨rfl, ih b c hab hbc⟩

theorem lt_of_nameLE {a b : Name} (h : nameLE a b = true) (hne : a ≠ b) : a < b := by
  induction a generalizing b with
  | nil =>
    obtain ⟨d, b, rfl⟩ := List.exists_cons_of_ne_nil hne.symm
    exact List.nil_lt_cons d b
  | cons c a ih =>
    cases b with
    | nil => cases h
    | cons d b =>
      simp only [nameLE, Bool.or_eq_true, Bool.and_eq_true, decide_eq_true_eq] at h
      rw [List.cons_lt_cons_iff]
      rcases h with hlt | ⟨rfl, h⟩
      · exact Or.inl hlt
      · exact Or.inr ⟨rfl, ih h fun heq => hne (by rw [heq])⟩

/-! ## One directory -/

/-- What a walk finds at and below one entry of a directory when nothing is ignored. -/
def atEntry (w : Setting) (levels : List IgnoreLevel) (path : Text) (names : List Name)
    (name : Name) : Node → List Found
  | .file bytes => [⟨Path.join path name, names ++ [name], bytes⟩]
  | .directory entries =>
    if w.options.recursive then
      below w
        (.ofDirectory w.ws w.options.useGit false (Path.join path name) (.directory entries) ::
          levels)
        (Path.join path name) (names ++ [name]) (.directory entries)
    else []

theorem belowEntries_eq_map {levels : List IgnoreLevel}
    (hlevels : ∀ level ∈ levels, level.IsSilent) (w : Setting) (path : Text) (names : List Name)
    (entries : List (Name × Node)) :
    belowEntries w levels path names entries =
      entries.map fun e => (e.1, atEntry w levels path names e.1 e.2) := by
  induction entries with
  | nil => simp [belowEntries]
  | cons entry entries ih =>
    obtain ⟨name, bytes | inside⟩ := entry
    · simp [belowEntries, atEntry, IgnoreLevel.isIgnored_eq_false hlevels, ih]
    · cases hrecursive : w.options.recursive <;>
        simp [belowEntries, atEntry, IgnoreLevel.isIgnored_eq_false hlevels, ih, hrecursive]

/-- The entries of a directory in the order of the walk. -/
def inOrder (entries : List (Name × Node)) : List (Name × Node) :=
  entries.mergeSort fun a b => nameLE a.1 b.1

theorem mem_inOrder {entries : List (Name × Node)} {e : Name × Node} :
    e ∈ inOrder entries ↔ e ∈ entries :=
  List.mem_mergeSort

theorem pairwise_inOrder {entries : List (Name × Node)} (h : (entries.map Prod.fst).Nodup) :
    (inOrder entries).Pairwise fun a b => a.1 < b.1 := by
  have hsorted : (inOrder entries).Pairwise fun a b => nameLE a.1 b.1 = true :=
    List.pairwise_mergeSort (fun a b c => nameLE_trans a.1 b.1 c.1)
      (fun a b => nameLE_total a.1 b.1) entries
  have hnodup : (inOrder entries).Pairwise fun a b => a.1 ≠ b.1 := by
    rw [← List.pairwise_map (f := Prod.fst) (R := (· ≠ ·))]
    exact ((List.mergeSort_perm entries _).map Prod.fst).nodup_iff.2 h
  exact hsorted.imp₂ (fun a b => lt_of_nameLE) hnodup

theorem below_directory {levels : List IgnoreLevel} (hlevels : ∀ level ∈ levels, level.IsSilent)
    (w : Setting) (path : Text) (names : List Name) (entries : List (Name × Node)) :
    below w levels path names (.directory entries) =
      (inOrder entries).flatMap fun e => atEntry w levels path names e.1 e.2 := by
  rw [below, belowEntries_eq_map hlevels, inOrder, ← List.map_mergeSort, List.flatMap_map]
  simp

/-! ## All that is found -/

/-- What a walk finds below a node is a file there, or right in it, under the names on the way. -/
def IsBelow (o : Options) (path : Text) (names : List Name) (node : Node) (found : Found) : Prop :=
  ∃ rest bytes, rest ≠ [] ∧ node.get? rest = some (.file bytes) ∧
    (o.recursive = true ∨ rest.length = 1) ∧
    found = ⟨rest.foldl Path.join path, names ++ rest, bytes⟩

/-- What a walk finds at an entry of a directory is the entry itself if it is a file, or something
below it. -/
def IsAtEntry (o : Options) (path : Text) (names : List Name) (name : Name) (node : Node)
    (found : Found) : Prop :=
  (∃ bytes, node = .file bytes ∧ found = ⟨Path.join path name, names ++ [name], bytes⟩) ∨
    o.recursive = true ∧ IsBelow o (Path.join path name) (names ++ [name]) node found

variable {o : Options} {path : Text} {names : List Name} {name : Name} {node : Node}
  {entries : List (Name × Node)} {found : Found}

theorem not_isBelow_file (bytes : Bytes) : ¬ IsBelow o path names (.file bytes) found := by
  rintro ⟨rest, content, hrest, hget, -⟩
  obtain ⟨name, rest, rfl⟩ := List.exists_cons_of_ne_nil hrest
  cases hget

theorem isBelow_directory_iff (h : (entries.map Prod.fst).Nodup) :
    IsBelow o path names (.directory entries) found ↔
      ∃ e ∈ entries, IsAtEntry o path names e.1 e.2 found := by
  constructor
  · rintro ⟨rest, bytes, hrest, hget, hdepth, rfl⟩
    obtain ⟨name, rest, rfl⟩ := List.exists_cons_of_ne_nil hrest
    rw [Node.get?_cons] at hget
    obtain ⟨child, hchild, hget⟩ := Option.bind_eq_some_iff.1 hget
    refine ⟨(name, child), (lookup_eq_some_iff_mem h).1 hchild, ?_⟩
    rcases eq_or_ne rest [] with rfl | hne
    · exact Or.inl ⟨bytes, Option.some.inj hget, rfl⟩
    · have hrecursive : o.recursive = true := by
        rcases hdepth with hrecursive | hlength
        · exact hrecursive
        · exact absurd (by simpa using hlength) hne
      exact Or.inr ⟨hrecursive, rest, bytes, hne, hget, Or.inl hrecursive, by simp⟩
  · rintro ⟨⟨name, child⟩, hmem, hat | hbelow⟩
    · obtain ⟨bytes, rfl, rfl⟩ := hat
      have hlookup := (lookup_eq_some_iff_mem h).2 hmem
      exact ⟨[name], bytes, by simp, by simp [Node.get?, Node.child?, hlookup], Or.inr rfl, rfl⟩
    · obtain ⟨hrecursive, rest, bytes, -, hget, -, rfl⟩ := hbelow
      have hlookup := (lookup_eq_some_iff_mem h).2 hmem
      refine ⟨name :: rest, bytes, by simp, ?_, Or.inl hrecursive, by simp⟩
      rw [Node.get?_cons, Node.child?, hlookup]
      exact hget

variable {w : Setting} {levels : List IgnoreLevel}

theorem mem_atEntry_of_mem_below (hfree : w.ws.NoIgnoreFiles)
    (hlevels : ∀ level ∈ levels, level.IsSilent) (hat : w.ws.root.get? location = some node)
    (hbelow : ∀ inner : List IgnoreLevel, (∀ level ∈ inner, level.IsSilent) →
      (found ∈ below w inner (Path.join path name) (names ++ [name]) node ↔
        IsBelow w.options (Path.join path name) (names ++ [name]) node found)) :
    found ∈ atEntry w levels path names name node ↔
      IsAtEntry w.options path names name node found := by
  cases node with
  | file bytes =>
    simp only [atEntry, IsAtEntry, List.mem_singleton, Node.file.injEq, exists_eq_left',
      not_isBelow_file, and_false, or_false]
  | directory inside =>
    have hsilent := IgnoreLevel.isSilent_ofDirectory hfree hat w.options.useGit false
      (Path.join path name)
    have hiff := hbelow _ (List.forall_mem_cons.2 ⟨hsilent, hlevels⟩)
    cases hrecursive : w.options.recursive with
    | false => simp [atEntry, IsAtEntry, hrecursive]
    | true => simpa [atEntry, IsAtEntry, hrecursive] using hiff

theorem get?_entry (h : (entries.map Prod.fst).Nodup)
    (hat : w.ws.root.get? location = some (.directory entries)) {e : Name × Node}
    (he : e ∈ entries) : w.ws.root.get? (location ++ [e.1]) = some e.2 := by
  rw [Node.get?_append, hat]
  simp [Node.get?, Node.child?, (lookup_eq_some_iff_mem h).2 he]

/-- A walk without ignore files finds exactly the files below its directory. -/
theorem mem_below (hfree : w.ws.NoIgnoreFiles) (hlevels : ∀ level ∈ levels, level.IsSilent)
    (hnode : node.WellFormed) (hat : w.ws.root.get? location = some node) :
    found ∈ below w levels path names node ↔ IsBelow w.options path names node found := by
  induction hnode generalizing levels path names location with
  | file bytes => exact iff_of_false (by simp [below]) (not_isBelow_file bytes)
  | @directory entries nodup hnames inner ih =>
    rw [below_directory hlevels, List.mem_flatMap, isBelow_directory_iff nodup]
    refine exists_congr fun e => ?_
    rw [mem_inOrder]
    refine and_congr_right fun he => ?_
    have hentry := get?_entry nodup hat he
    exact mem_atEntry_of_mem_below hfree hlevels hentry fun inner hinner => ih e he hinner hentry

theorem exists_names_of_mem_atEntry (hfree : w.ws.NoIgnoreFiles)
    (hlevels : ∀ level ∈ levels, level.IsSilent) (hnode : node.WellFormed)
    (hat : w.ws.root.get? location = some node)
    (hfound : found ∈ atEntry w levels path names name node) :
    ∃ rest, found.names = names ++ name :: rest := by
  rw [mem_atEntry_of_mem_below hfree hlevels hat
    fun inner hinner => mem_below hfree hinner hnode hat] at hfound
  rcases hfound with ⟨bytes, -, rfl⟩ | ⟨-, rest, bytes, -, -, -, rfl⟩
  · exact ⟨[], rfl⟩
  · exact ⟨rest, by simp⟩

/-- A walk without ignore files goes up in the order of the names on the way. -/
theorem pairwise_below (hfree : w.ws.NoIgnoreFiles) (hlevels : ∀ level ∈ levels, level.IsSilent)
    (hnode : node.WellFormed) (hat : w.ws.root.get? location = some node) :
    (below w levels path names node).Pairwise fun a b => a.names < b.names := by
  induction hnode generalizing levels path names location with
  | file bytes => simp [below]
  | @directory entries nodup hnames inner ih =>
    rw [below_directory hlevels, List.pairwise_flatMap]
    constructor
    · rintro ⟨name, bytes | inside⟩ he
      · simp [atEntry]
      · rw [mem_inOrder] at he
        have hentry := get?_entry nodup hat he
        have hsilent := IgnoreLevel.isSilent_ofDirectory hfree hentry w.options.useGit false
          (Path.join path name)
        rw [atEntry]
        split
        · exact ih _ he (List.forall_mem_cons.2 ⟨hsilent, hlevels⟩) hentry
        · exact List.Pairwise.nil
    · -- the names of two entries differ right after those of the directory
      refine (pairwise_inOrder nodup).imp_of_mem fun {e e'} he he' hlt a ha b hb => ?_
      rw [mem_inOrder] at he he'
      obtain ⟨rest, hrest⟩ := exists_names_of_mem_atEntry hfree hlevels (inner e he)
        (get?_entry nodup hat he) ha
      obtain ⟨rest', hrest'⟩ := exists_names_of_mem_atEntry hfree hlevels (inner e' he')
        (get?_entry nodup hat he') hb
      rw [hrest, hrest']
      exact List.append_left_lt (List.cons_lt_cons_iff.2 (Or.inl hlt))

/-- A walk from a directory succeeds, finds exactly the files there and goes up in the order of
their names. -/
theorem exists_files_eq_ok (hfree : ws.NoIgnoreFiles) (hroot : ws.root.WellFormed)
    (hinput : isInput path = false) (hlocate : ws.locate path = .ok location)
    (hnode : ws.root.get? location = some node) (o : Options) :
    ∃ found, files ws o path = .ok found ∧ (∀ f, f ∈ found ↔ IsBelow o path [] node f) ∧
      found.Pairwise fun a b => a.names < b.names := by
  let outer := levelsAbove ws o [] [] location ws.root
  have houter : ∀ level ∈ outer, level.IsSilent :=
    isSilent_of_mem_levelsAbove hfree (by simp) rfl
  have hmessages : outer.reverse.flatMap IgnoreLevel.messages = [] := by
    rw [List.flatMap_eq_nil_iff]
    exact fun level hlevel => (houter level (List.mem_reverse.1 hlevel)).messages_eq_nil
  have hsilent := IgnoreLevel.isSilent_ofDirectory hfree hnode o.useGit false path
  have hlevels := List.forall_mem_cons.2 ⟨hsilent, houter⟩
  let w : Setting := ⟨ws, o, '/' :: Path.ofNames location⟩
  refine ⟨below w (.ofDirectory ws o.useGit false path node :: outer) path [] node, ?_, ?_, ?_⟩
  · simp only [files, hinput, hlocate, Bool.false_eq_true, if_false]
    rw [hmessages, hnode]
  · exact fun f => mem_below (w := w) hfree hlevels (hroot.get? hnode) hnode
  · exact pairwise_below (w := w) hfree hlevels (hroot.get? hnode) hnode

end Walk

end PropCatalog.Files
