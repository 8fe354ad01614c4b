import PropCatalog.Proofs.Example.Depth

/-!
# Raising the depth cap

A higher cap changes an example only where the lower one had cut it off. `Refines` is the relation
between the two: all that differs stands in the place of a placeholder of the first example. The
placeholder is also the example of a string, so the relation does not tell which of them were cut
off; but if no call of the run lay past the cap, then none was, and the examples are equal
(`ofType_eq_of_leads`).
-/

namespace PropCatalog.Example

variable {table : Interface.Table} {type : Text} {depth cap cap' levels : Nat}

/-! ## Refinement -/

mutual

/-- The second example is the first one with other examples in the place of some placeholders. -/
inductive Refines : Example → Example → Prop where
  | replace (e : Example) : Refines placeholder e
  | scalar (value : Json.Scalar) : Refines (.scalar value) (.scalar value)
  | array {items items' : List Example} (h : RefinesItems items items') :
      Refines (.array items) (.array items')
  | object {fields fields' : List (Field Example)} (h : RefinesFields fields fields') :
      Refines (.object fields) (.object fields')

/-- Arrays keep their length. -/
inductive RefinesItems : List Example → List Example → Prop where
  | nil : RefinesItems [] []
  | cons {e e' : Example} {rest rest' : List Example} (h : Refines e e')
      (hrest : RefinesItems rest rest') : RefinesItems (e :: rest) (e' :: rest')

/-- Fields keep their order, their names and whether they may be left out. -/
inductive RefinesFields : List (Field Example) → List (Field Example) → Prop where
  | nil : RefinesFields [] []
  | cons (name : Text) (optional : Bool) {e e' : Example} {rest rest' : List (Field Example)}
      (h : Refines e e') (hrest : RefinesFields rest rest') :
      RefinesFields (⟨name, optional, e⟩ :: rest) (⟨name, optional, e'⟩ :: rest')

end

mutual

theorem Refines.refl : ∀ e : Example, Refines e e
  | .scalar value => .scalar value
  | .array items => .array (RefinesItems.refl items)
  | .object fields => .object (RefinesFields.refl fields)

theorem RefinesItems.refl : ∀ items : List Example, RefinesItems items items
  | [] => .nil
  | e :: rest => .cons (Refines.refl e) (RefinesItems.refl rest)

theorem RefinesFields.refl : ∀ fields : List (Field Example), RefinesFields fields fields
  | [] => .nil
  | ⟨name, optional, e⟩ :: rest => .cons name optional (Refines.refl e) (RefinesFields.refl rest)

end

/-! ## Levels -/

theorem refinesFields_fields {f g : Text → Example} (h : ∀ part, Refines (f part) (g part))
    (properties : List Property) :
    RefinesFields (Shape.fields f properties) (Shape.fields g properties) := by
  induction properties with
  | nil => exact .nil
  | cons p properties ih => exact .cons p.name p.optional (h p.type) ih

theorem refines_fill {f g : Text → Example} (h : ∀ part, Refines (f part) (g part))
    (shape : Shape) : Refines (shape.fill f) (shape.fill g) := by
  cases shape with
  | value e => exact Refines.refl e
  | object properties => exact .object (refinesFields_fields h properties)
  | objectArray properties =>
    exact .array (.cons (.object (refinesFields_fields h properties)) .nil)

/-- More levels refine the example. -/
theorem refines_ofType {n : Nat} (hle : n ≤ levels) (table : Interface.Table) (type : Text) :
    Refines (ofType table n type) (ofType table levels type) := by
  induction n generalizing levels type with
  | zero =>
    rw [ofType]
    exact .replace _
  | succ n ih =>
    obtain ⟨levels, rfl⟩ : ∃ l, levels = l + 1 := ⟨levels - 1, by omega⟩
    rw [ofType_succ, ofType_succ]
    apply refines_fill
    intro part
    exact ih (by omega) part

/-- Levels that no call needs change nothing. -/
theorem ofType_eq_of_leads (hcap : cap + 1 < Word64.limit)
    (h : ∀ call, Call.Leads table cap ⟨type, depth⟩ call → call.depth ≤ cap)
    (hle : cap + 1 - depth ≤ levels) :
    ofType table levels type = ofType table (cap + 1 - depth) type := by
  have hdepth : depth ≤ cap := h ⟨type, depth⟩ .refl
  generalize hn : cap + 1 - depth = n at hle ⊢
  induction n generalizing levels type depth with
  | zero => omega
  | succ n ih =>
    obtain ⟨levels, rfl⟩ : ∃ l, levels = l + 1 := ⟨levels - 1, by omega⟩
    rw [ofType_succ, ofType_succ]
    apply Shape.fill_congr
    intro p hp
    -- the calls that the part leads to are calls of this run
    have hnext : (⟨p.type, depth + 1⟩ : Call) ∈ Call.next table cap ⟨type, depth⟩ :=
      (Call.mem_next_iff hcap).2 ⟨hdepth, p, hp, rfl⟩
    have hpart : ∀ call, Call.Leads table cap ⟨p.type, depth + 1⟩ call → call.depth ≤ cap :=
      fun call hleads => h call (Relation.ReflTransGen.head hnext hleads)
    exact ih hpart (hpart ⟨p.type, depth + 1⟩ .refl) (by omega) (by omega)

/-! ## The whole run -/

/-- **Raising the cap only refines the example.** With a higher cap the example is the one with the
lower cap in which some placeholders are replaced; and if no call of the run with the lower cap was
made past it, then the two are equal. -/
theorem resolve_refines_of_cap_le (hle : cap ≤ cap') (hcap' : cap' < Word64.limit)
    (table : Interface.Table) (type : Text) (depth : Nat) :
    Refines (resolve table cap type depth) (resolve table cap' type depth) ∧
      ((∀ call, Call.Leads table cap ⟨type, depth⟩ call → call.depth ≤ cap) →
        resolve table cap' type depth = resolve table cap type depth) := by
  have hlevels := levelsFrom_mono hle hcap' depth
  refine ⟨refines_ofType hlevels table type, ?_⟩
  intro hcalls
  by_cases hsame : cap = cap'
  · rw [hsame]
  · have hcap : cap + 1 < Word64.limit := by omega
    rw [levelsFrom_eq hcap] at hlevels
    rw [resolve, resolve, levelsFrom_eq hcap]
    exact ofType_eq_of_leads hcap hcalls hlevels

theorem resolve_refines_of_cap_le_cyclic :
    (2 ≤ 6 ∧ 6 < Word64.limit ∧
      ∀ call, Call.Leads cyclicTable 2 ⟨"Tag[]".toList, 1⟩ call → call.depth ≤ 2) ∧
    Refines (resolve cyclicTable 2 "Node".toList 0) (resolve cyclicTable 6 "Node".toList 0) ∧
    resolve cyclicTable 6 "Tag[]".toList 1 = resolve cyclicTable 2 "Tag[]".toList 1 := by
  have hlimit : 6 < Word64.limit := by decide
  have hcalls : ∀ call, Call.Leads cyclicTable 2 ⟨"Tag[]".toList, 1⟩ call → call.depth ≤ 2 := by
    intro call hleads
    have hclosed : ∀ c ∈ [⟨"Tag[]".toList, 1⟩, ⟨"string".toList, 2⟩, ⟨"number[]".toList, 2⟩],
        ∀ c' ∈ Call.next cyclicTable 2 c,
          c' ∈ [⟨"Tag[]".toList, 1⟩, ⟨"string".toList, 2⟩, ⟨"number[]".toList, 2⟩] := by
      decide +kernel
    have hmem := hleads.mem_of_closed hclosed (by decide)
    simp only [List.mem_cons, List.not_mem_nil, or_false] at hmem
    rcases hmem with rfl | rfl | rfl <;> decide
  have hle : 2 ≤ 6 := by decide
  obtain ⟨hrefines, -⟩ := resolve_refines_of_cap_le hle hlimit cyclicTable "Node".toList 0
  obtain ⟨-, hequal⟩ := resolve_refines_of_cap_le hle hlimit cyclicTable "Tag[]".toList 1
  exact ⟨⟨hle, hlimit, hcalls⟩, hrefines, hequal hcalls⟩

end PropCatalog.Example
