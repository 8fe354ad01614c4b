import PropCatalog.Proofs.Example.Shape
import Mathlib.Logic.Relation

/-!
# The depth cap

A call of the resolver meets a type at a depth and calls itself for each type that the shape
follows, one level deeper. Neither the table nor the text of a type gets smaller on the way, so the
cap alone ends the run: the depths that are left get fewer with each call (`wellFounded_next`), no
call lies more than one level past the cap (`Call.Leads.depth_le`), and the objects of the example
stand inside one another at most as often as there are levels (`nesting_ofType_le`). An interface
that refers to itself uses all of them (`levels_le_nesting`).
-/

namespace PropCatalog.Example

variable {table : Interface.Table} {type name : Text} {properties : List Property} {p : Property}
  {depth cap n : Nat}

/-! ## Calls -/

/-- A type that is resolved, and the depth at which it is met. -/
structure Call where
  type : Text
  depth : Nat
  deriving DecidableEq, Repr

namespace Call

variable {call call' : Call}

/-- The calls that a call makes: one for each type that the shape follows, one level deeper in words
of 64 bits, and none past the cap. -/
def next (table : Interface.Table) (cap : Nat) (call : Call) : List Call :=
  if cap < call.depth then []
  else (shape table call.type).parts.map fun p => ⟨p.type, (call.depth + 1) % Word64.limit⟩

/-- The run of the first call makes the second one, as itself or through the calls that it makes. -/
def Leads (table : Interface.Table) (cap : Nat) : Call → Call → Prop :=
  Relation.ReflTransGen fun call call' => call' ∈ call.next table cap

theorem mem_next_iff (hcap : cap + 1 < Word64.limit) :
    call' ∈ call.next table cap ↔ call.depth ≤ cap ∧
      ∃ p ∈ (shape table call.type).parts, call' = ⟨p.type, call.depth + 1⟩ := by
  rw [next]
  by_cases hdepth : cap < call.depth
  · rw [if_pos hdepth]
    have hnot : ¬ call.depth ≤ cap := by omega
    simp [hnot]
  · have hword : (call.depth + 1) % Word64.limit = call.depth + 1 := Nat.mod_eq_of_lt (by omega)
    rw [if_neg hdepth, hword, List.mem_map]
    simp only [Nat.le_of_not_lt hdepth, true_and, eq_comm]

theorem wellFounded_next (hcap : cap + 1 < Word64.limit) (table : Interface.Table) :
    WellFounded fun call' call : Call => call' ∈ call.next table cap := by
  refine Subrelation.wf ?_ (measure fun call : Call => cap + 1 - call.depth).wf
  intro call' call hnext
  obtain ⟨hdepth, p, -, rfl⟩ := (mem_next_iff hcap).1 hnext
  show cap + 1 - (call.depth + 1) < cap + 1 - call.depth
  omega

theorem Leads.mem_of_closed {calls : List Call} (h : Leads table cap call call')
    (hclosed : ∀ c ∈ calls, ∀ c' ∈ c.next table cap, c' ∈ calls) (hmem : call ∈ calls) :
    call' ∈ calls := by
  induction h with
  | refl => exact hmem
  | tail _ hnext ih => exact hclosed _ ih _ hnext

/-- No call lies more than one level past the cap, unless the first one does. -/
theorem Leads.depth_le (hcap : cap + 1 < Word64.limit) (h : Leads table cap call call') :
    call'.depth ≤ max call.depth (cap + 1) := by
  induction h with
  | refl => exact Nat.le_max_left _ _
  | tail _ hnext _ =>
    obtain ⟨hdepth, p, -, rfl⟩ := (mem_next_iff hcap).1 hnext
    exact (Nat.succ_le_succ hdepth).trans (Nat.le_max_right _ _)

end Call

/-! ## Nesting -/

mutual

/-- How many objects of an example stand inside one another. -/
def nesting : Example → Nat
  | .scalar _ => 0
  | .array items => nestingItems items
  | .object fields => nestingFields fields + 1

def nestingItems : List Example → Nat
  | [] => 0
  | e :: rest => max (nesting e) (nestingItems rest)

def nestingFields : List (Field Example) → Nat
  | [] => 0
  | f :: rest => max (nesting f.value) (nestingFields rest)

end

theorem nestingFields_le_iff {fields : List (Field Example)} :
    nestingFields fields ≤ n ↔ ∀ f ∈ fields, f.value.nesting ≤ n := by
  induction fields with
  | nil => simp [nestingFields]
  | cons f fields ih => rw [nestingFields, Nat.max_le, ih, List.forall_mem_cons]

theorem nestingFields_fields_le_iff {f : Text → Example} :
    nestingFields (Shape.fields f properties) ≤ n ↔ ∀ p ∈ properties, (f p.type).nesting ≤ n := by
  rw [nestingFields_le_iff, Shape.fields, List.forall_mem_map]

theorem nesting_objectArray (fields : List (Field Example)) :
    nesting (.array [.object fields]) = nestingFields fields + 1 := by
  simp only [nesting, nestingItems, Nat.max_zero]

theorem nesting_le_of_shape {e : Example} (h : shape table type = .value e) : e.nesting ≤ 1 := by
  have hwords : (ofWords (Text.trim type)).nesting ≤ 1 := by
    unfold ofWords placeholder
    dsimp only
    split_ifs <;> simp [nesting, nestingFields]
  unfold shape at h
  dsimp only at h
  split at h
  · cases h
  · split_ifs at h
    · obtain rfl := Shape.value.inj h
      simp [placeholder, nesting, nestingItems]
    · obtain rfl := Shape.value.inj h
      simp [nesting, nestingItems]
    · split at h
      · obtain rfl := Shape.value.inj h
        simp [nesting, nestingItems]
      · cases h
    · split at h
      · cases h
      · obtain rfl := Shape.value.inj h
        exact hwords

/-- The levels bound the nesting. -/
theorem nesting_ofType_le (table : Interface.Table) (levels : Nat) (type : Text) :
    (ofType table levels type).nesting ≤ levels := by
  induction levels generalizing type with
  | zero => exact Nat.le_of_eq rfl
  | succ levels ih =>
    rw [ofType_succ]
    cases hshape : shape table type with
    | value e => exact (nesting_le_of_shape hshape).trans (Nat.le_add_left 1 levels)
    | object properties =>
      rw [Shape.fill, nesting]
      exact Nat.succ_le_succ (nestingFields_fields_le_iff.2 fun p _ => ih p.type)
    | objectArray properties =>
      rw [Shape.fill, nesting_objectArray]
      exact Nat.succ_le_succ (nestingFields_fields_le_iff.2 fun p _ => ih p.type)

/-- An interface that refers to itself uses all levels. -/
theorem levels_le_nesting (hname : Text.isIdent name = true)
    (hget : table.get? name = some properties) (hp : p ∈ properties)
    (hself : Text.trim p.type = name ∨ Text.trim p.type = name ++ ['[', ']']) (levels : Nat)
    (htype : Text.trim type = name ∨ Text.trim type = name ++ ['[', ']']) :
    levels ≤ (ofType table levels type).nesting := by
  induction levels generalizing type with
  | zero => exact Nat.zero_le _
  | succ levels ih =>
    -- the property that goes on has an example with all levels but one
    have hfields : levels ≤ nestingFields (Shape.fields (ofType table levels) properties) :=
      (ih hself).trans (nestingFields_fields_le_iff.1 le_rfl p hp)
    rw [ofType_succ]
    rcases htype with htype | htype
    · rw [shape_of_name htype hname hget, Shape.fill, nesting]
      omega
    · rw [shape_of_nameArray htype hname hget, Shape.fill, nesting_objectArray]
      omega

/-! ## The whole run -/

/-- **The cap bounds every run.** Whatever the table, the type and the depth: the run ends, each of
its calls has the value that the calls it makes give it, no depth is above the larger of the first
one and one past the cap, so that counting up never passes the last word, and objects stand inside
one another at most as often as there are depths from the first one to the cap. Past the cap the
value is the placeholder, and an interface with a property of its own type, or of an array of it,
attains the bound. -/
theorem resolve_within_cap (hcap : cap + 1 < Word64.limit) (table : Interface.Table) (type : Text)
    (depth : Nat) :
    Acc (fun call' call => call' ∈ Call.next table cap call) ⟨type, depth⟩ ∧
      (∀ call, Call.Leads table cap ⟨type, depth⟩ call →
        call.depth ≤ max depth (cap + 1) ∧
          (call.depth ≤ cap → call.depth + 1 < Word64.limit) ∧
          resolve table cap call.type call.depth =
            if cap < call.depth then placeholder
            else (shape table call.type).fill fun part =>
              resolve table cap part ((call.depth + 1) % Word64.limit)) ∧
      (resolve table cap type depth).nesting ≤ cap + 1 - depth ∧
      (cap < depth → resolve table cap type depth = placeholder) ∧
      ∀ properties, ∀ p ∈ properties, Text.isIdent (Text.trim type) = true →
        table.get? (Text.trim type) = some properties →
        (Text.trim p.type = Text.trim type ∨ Text.trim p.type = Text.trim type ++ ['[', ']']) →
        (resolve table cap type depth).nesting = cap + 1 - depth := by
  have hle : (resolve table cap type depth).nesting ≤ cap + 1 - depth := by
    rw [resolve, levelsFrom_eq hcap]
    exact nesting_ofType_le table _ type
  refine ⟨(Call.wellFounded_next hcap table).apply _, ?_, hle, ?_, ?_⟩
  · intro call hleads
    refine ⟨hleads.depth_le hcap, fun hdepth => by omega, resolve_eq_fill hcap table _ _⟩
  · intro hdepth
    exact resolve_of_lt hdepth table type
  · intro properties p hp hname hget hself
    refine Nat.le_antisymm hle ?_
    rw [resolve, levelsFrom_eq hcap]
    exact levels_le_nesting hname hget hp hself _ (Or.inl rfl)

/-- Two interfaces that refer to one another, the first one also to an array of itself, and one that
refers to none. -/
def cyclicTable : Interface.Table :=
  ⟨[("Node".toList, [⟨"label".toList, false, "string".toList⟩,
      ⟨"children".toList, true, "Node[]".toList⟩, ⟨"edge".toList, true, "Edge".toList⟩]),
    ("Edge".toList, [⟨"from".toList, false, "Node".toList⟩,
      ⟨"weights".toList, false, "\x7b value: number; to: Node \x7d[]".toList⟩]),
    ("Tag".toList, [⟨"text".toList, false, "string".toList⟩,
      ⟨"ranks".toList, true, "number[]".toList⟩])]⟩

/-- From depth 2 to the cap 4 three nodes stand inside one another, the last calls are made at depth
5, and at this depth there is nothing but the placeholder. -/
theorem resolve_within_cap_cyclic :
    (4 + 1 < Word64.limit ∧
      Call.Leads cyclicTable 4 ⟨"Node".toList, 2⟩ ⟨"Node".toList, 5⟩ ∧
      Text.isIdent (Text.trim "Node".toList) = true ∧ 4 < 5) ∧
    Acc (fun call' call => call' ∈ Call.next cyclicTable 4 call) ⟨"Node".toList, 2⟩ ∧
    5 ≤ max 2 (4 + 1) ∧
    (resolve cyclicTable 4 "Node".toList 2).nesting = 3 ∧
    resolve cyclicTable 4 "Node".toList 5 = placeholder := by
  have hcap : 4 + 1 < Word64.limit := by decide
  have hleads : Call.Leads cyclicTable 4 ⟨"Node".toList, 2⟩ ⟨"Node".toList, 5⟩ := by
    have hedge : (⟨"Edge".toList, 3⟩ : Call) ∈ Call.next cyclicTable 4 ⟨"Node".toList, 2⟩ := by
      decide +kernel
    have hweights : (⟨"\x7b value: number; to: Node \x7d[]".toList, 4⟩ : Call) ∈
        Call.next cyclicTable 4 ⟨"Edge".toList, 3⟩ := by
      decide +kernel
    have hnode : (⟨"Node".toList, 5⟩ : Call) ∈
        Call.next cyclicTable 4 ⟨"\x7b value: number; to: Node \x7d[]".toList, 4⟩ := by
      decide +kernel
    exact ((Relation.ReflTransGen.single hedge).tail hweights).tail hnode
  obtain ⟨hends, hcalls, -, -, hself⟩ := resolve_within_cap hcap cyclicTable "Node".toList 2
  obtain ⟨-, -, -, hpast, -⟩ := resolve_within_cap hcap cyclicTable "Node".toList 5
  exact ⟨⟨hcap, hleads, by decide, by decide⟩, hends, (hcalls _ hleads).1,
    hself _ ⟨"children".toList, true, "Node[]".toList⟩ (by decide) (by decide) rfl (by decide),
    hpast (by decide)⟩

end PropCatalog.Example
