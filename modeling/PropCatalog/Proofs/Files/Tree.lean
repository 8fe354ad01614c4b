import PropCatalog.Files.Tree
import Mathlib.Data.List.Basic

/-!
# Putting a file into a tree

What a tree holds after `put`. The node that was put is found at its location (`get?_put`). A file
that was put into a directory, where there was none or another file, keeps the shape of the tree:
every node that was there is still there and is a directory or a file as before (`keepsShape_put`);
and the files at all other locations are the same as before (`fileAt?_put_of_ne`).
-/

namespace PropCatalog.Files.Node

/-- The content of the file at a location. -/
def fileAt? (location : Location) (node : Node) : Option Bytes :=
  match node.get? location with
  | some (.file bytes) => some bytes
  | _ => none

theorem fileAt?_eq_some_iff {location : Location} {node : Node} {bytes : Bytes} :
    node.fileAt? location = some bytes ↔ node.get? location = some (.file bytes) := by
  unfold fileAt?
  split <;> simp_all

/-- Every node of the first tree is in the second one, as a directory or a file like before. -/
def KeepsShape (before after : Node) : Prop :=
  ∀ location node, before.get? location = some node →
    ∃ node', after.get? location = some node' ∧ node'.isDirectory = node.isDirectory

/-! ## Locations -/

theorem isDirectory_iff {node : Node} :
    node.isDirectory = true ↔ ∃ entries, node = .directory entries := by
  cases node <;> simp [isDirectory]

theorem get?_cons (name : Name) (rest : Location) (node : Node) :
    node.get? (name :: rest) = (node.child? name).bind (get? rest) := rfl

theorem get?_append (a b : Location) (node : Node) :
    node.get? (a ++ b) = (node.get? a).bind (get? b) := by
  induction a generalizing node with
  | nil => rfl
  | cons name a ih =>
    rw [List.cons_append, get?_cons, get?_cons]
    cases node.child? name with
    | none => rfl
    | some child => exact ih child

theorem get?_dropLast {location : Location} {node found : Node} (hne : location ≠ [])
    (h : node.get? location = some found) :
    ∃ entries, node.get? location.dropLast = some (.directory entries) := by
  rw [← List.dropLast_append_getLast hne, get?_append] at h
  obtain ⟨parent, hparent, hchild⟩ := Option.bind_eq_some_iff.1 h
  cases parent with
  | file bytes => simp [get?, child?] at hchild
  | directory entries => exact ⟨entries, hparent⟩

/-! ## Changing an entry -/

theorem lookup_alterEntry (name other : Name) (change : Option Node → Node)
    (entries : List (Name × Node)) :
    (alterEntry name (fun old => some (change old)) entries).lookup other =
      if other = name then some (change (entries.lookup name)) else entries.lookup other := by
  induction entries with
  | nil =>
    by_cases h : other = name
    · simp [alterEntry, h]
    · have hne : (other == name) = false := by simpa using h
      simp [alterEntry, List.lookup_cons, h, hne]
  | cons entry entries ih =>
    obtain ⟨n, node⟩ := entry
    rw [alterEntry]
    by_cases hn : n = name
    · subst hn
      by_cases h : other = n
      · simp [h]
      · have hother : (other == n) = false := by simpa using h
        simp [List.lookup_cons, h, hother]
    · have hname : (name == n) = false := by simpa using Ne.symm hn
      rw [if_neg hn, List.lookup_cons, ih, List.lookup_cons, List.lookup_cons, hname]
      by_cases h : other = n
      · subst h
        simp [hn]
      · have hother : (other == n) = false := by simpa using h
        simp [hother]

variable {dir : Location} {name : Name} {node : Node} {entries : List (Name × Node)}

theorem put_cons (new : Node) (rest : Location) :
    put new (name :: rest) (.directory entries) =
      .directory (alterEntry name (fun old => some (put new rest (old.getD (.directory []))))
        entries) := rfl

theorem KeepsShape.alterEntry {change : Option Node → Node}
    (h : ∀ child, entries.lookup name = some child → KeepsShape child (change (some child))) :
    KeepsShape (.directory entries)
      (.directory (alterEntry name (fun old => some (change old)) entries)) := by
  intro location found hfound
  cases location with
  | nil =>
    obtain rfl := Option.some.inj hfound
    exact ⟨_, rfl, rfl⟩
  | cons other rest =>
    rw [get?_cons] at hfound
    obtain ⟨child, hchild, hrest⟩ := Option.bind_eq_some_iff.1 hfound
    rw [get?_cons, child?, lookup_alterEntry]
    by_cases hname : other = name
    · subst hname
      have hlookup : entries.lookup other = some child := hchild
      rw [if_pos rfl, hlookup]
      exact h child hlookup rest found hrest
    · rw [if_neg hname]
      exact ⟨found, hfound, rfl⟩

theorem keepsShape_file (before after : Bytes) : KeepsShape (.file before) (.file after) := by
  intro location found hfound
  cases location with
  | nil =>
    obtain rfl := Option.some.inj hfound
    exact ⟨_, rfl, rfl⟩
  | cons name rest => simp [get?_cons, child?] at hfound

/-! ## Putting into a directory -/

theorem get?_put (new : Node) (h : node.get? dir = some (.directory entries)) :
    (put new (dir ++ [name]) node).get? (dir ++ [name]) = some new := by
  induction dir generalizing node with
  | nil =>
    obtain rfl := Option.some.inj h
    rw [List.nil_append, put_cons, get?_cons, child?, lookup_alterEntry, if_pos rfl]
    rfl
  | cons d dir ih =>
    rw [get?_cons] at h
    obtain ⟨child, hchild, hrest⟩ := Option.bind_eq_some_iff.1 h
    cases node with
    | file bytes => simp [child?] at hchild
    | directory outer =>
      have hlookup : outer.lookup d = some child := hchild
      rw [List.cons_append, put_cons, get?_cons, child?, lookup_alterEntry, if_pos rfl, hlookup]
      exact ih hrest

theorem keepsShape_put (bytes : Bytes) (h : node.get? dir = some (.directory entries))
    (hfree : ∀ inside, node.get? (dir ++ [name]) ≠ some (.directory inside)) :
    KeepsShape node (put (.file bytes) (dir ++ [name]) node) := by
  induction dir generalizing node with
  | nil =>
    obtain rfl := Option.some.inj h
    rw [List.nil_append, put_cons]
    refine KeepsShape.alterEntry fun child hchild => ?_
    cases child with
    | file old => exact keepsShape_file old bytes
    | directory inside =>
      refine absurd ?_ (hfree inside)
      simp [get?_cons, child?, hchild, get?]
  | cons d dir ih =>
    rw [get?_cons] at h
    obtain ⟨child, hchild, hrest⟩ := Option.bind_eq_some_iff.1 h
    cases node with
    | file old => simp [child?] at hchild
    | directory outer =>
      have hlookup : outer.lookup d = some child := hchild
      rw [List.cons_append, put_cons]
      refine KeepsShape.alterEntry fun child' hchild' => ?_
      obtain rfl := Option.some.inj (hlookup.symm.trans hchild')
      refine ih hrest fun inside hinside => hfree inside ?_
      rw [List.cons_append, get?_cons, hchild]
      exact hinside

theorem fileAt?_alterEntry_file_of_ne {other : Location} (bytes : Bytes) (hother : other ≠ [name])
    (hfree : ∀ inside, entries.lookup name ≠ some (.directory inside)) :
    (Node.directory (alterEntry name (fun _ => some (.file bytes)) entries)).fileAt? other =
      (Node.directory entries).fileAt? other := by
  cases other with
  | nil => rfl
  | cons o rest =>
    rw [fileAt?, fileAt?, get?_cons, get?_cons, child?, child?, lookup_alterEntry]
    by_cases ho : o = name
    · subst ho
      -- below a file there is nothing, before and after
      obtain ⟨r, rest, rfl⟩ : ∃ r rest', rest = r :: rest' :=
        List.exists_cons_of_ne_nil fun hrest => hother (by rw [hrest])
      rw [if_pos rfl]
      cases hold : entries.lookup o with
      | none => rfl
      | some old =>
        cases old with
        | file old => rfl
        | directory inside => exact absurd hold (hfree inside)
    · rw [if_neg ho]

/-- A file that was put into a directory changes no other file. -/
theorem fileAt?_put_of_ne {other : Location} (bytes : Bytes)
    (h : node.get? dir = some (.directory entries))
    (hfree : ∀ inside, node.get? (dir ++ [name]) ≠ some (.directory inside))
    (hother : other ≠ dir ++ [name]) :
    (put (.file bytes) (dir ++ [name]) node).fileAt? other = node.fileAt? other := by
  induction dir generalizing node other with
  | nil =>
    obtain rfl := Option.some.inj h
    refine fileAt?_alterEntry_file_of_ne bytes hother fun inside hinside => hfree inside ?_
    rw [List.nil_append, get?_cons, child?, hinside]
    rfl
  | cons d dir ih =>
    rw [get?_cons] at h
    obtain ⟨child, hchild, hrest⟩ := Option.bind_eq_some_iff.1 h
    cases node with
    | file old => simp [child?] at hchild
    | directory outer =>
      have hlookup : outer.lookup d = some child := hchild
      rw [List.cons_append, put_cons]
      cases other with
      | nil => rfl
      | cons o rest =>
        rw [fileAt?, fileAt?, get?_cons, get?_cons, child?, child?, lookup_alterEntry]
        -- only in the entry that is on the way something changes
        by_cases ho : o = d
        · subst ho
          rw [if_pos rfl, hlookup]
          refine ih hrest (fun inside hinside => hfree inside ?_) fun hrest => hother ?_
          · rw [List.cons_append, get?_cons, hchild]
            exact hinside
          · rw [hrest, List.cons_append]
        · rw [if_neg ho]

end PropCatalog.Files.Node
