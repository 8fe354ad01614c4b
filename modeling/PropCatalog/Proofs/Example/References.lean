import PropCatalog.Proofs.Example.Shape

/-!
# What an example depends on

A type refers to a name if the rules may look the name up in the table for it: the text of the type,
the name of an array, and what the fields of an inline object array refer to. An example depends on
no other interfaces than those that are reached from its type through these references
(`resolve_congr_of_reachable`). The shape of a type only asks for the names that it refers to
(`shape_congr`), and what its parts reach is reached from the type (`Reachable.of_part`).
-/

namespace PropCatalog.Example

variable {table table' : Interface.Table} {type name name' : Text} {properties : List Property}
  {p : Property}

/-! ## References -/

/-- A type that takes the rule of inline object arrays; no named array has a brace. -/
structure IsInlineArray (type : Text) : Prop where
  opening : '{' ∈ Text.trim type
  closing : '}' ∈ Text.trim type
  brackets : ['[', ']'] <:+: Text.trim type

/-- The type refers to the name directly. -/
inductive Refers : (type name : Text) → Prop where
  | name (type : Text) : Refers type (Text.trim type)
  | array {type name : Text} (h : Text.trim type = name ++ ['[', ']']) : Refers type name
  /-- An inline object array refers to what the types of its fields refer to. -/
  | inline {type name : Text} {p : Property} (hinline : IsInlineArray type)
      (hp : p ∈ inlineProperties (Text.trim type)) (h : Refers p.type name) : Refers type name

/-- The names that the text of a type spells. -/
def spelledNames (type : Text) : List Text :=
  Text.trim type :: (Text.before? ['[', ']'] (Text.trim type)).toList

theorem refers_iff : Refers type name ↔ name ∈ spelledNames type ∨
    IsInlineArray type ∧ ∃ p ∈ inlineProperties (Text.trim type), Refers p.type name := by
  have hspelled : name ∈ spelledNames type ↔
      name = Text.trim type ∨ Text.trim type = name ++ ['[', ']'] := by
    rw [spelledNames, List.mem_cons, Option.mem_toList, Text.before?_eq_some_iff]
  rw [hspelled]
  constructor
  · intro h
    cases h with
    | name => exact Or.inl (Or.inl rfl)
    | array h => exact Or.inl (Or.inr h)
    | inline hinline hp h => exact Or.inr ⟨hinline, _, hp, h⟩
  · rintro ((rfl | h) | ⟨hinline, p, hp, h⟩)
    · exact .name type
    · exact .array h
    · exact .inline hinline hp h

/-- The type reaches the name, directly or through the members of the interfaces it reaches. -/
inductive Reachable (table : Interface.Table) (type : Text) : (name : Text) → Prop where
  | direct {name : Text} (h : Refers type name) : Reachable table type name
  | member {name name' : Text} {properties : List Property} {p : Property}
      (h : Reachable table type name) (hget : table.get? name = some properties)
      (hp : p ∈ properties) (hname : Refers p.type name') : Reachable table type name'

theorem Reachable.mem_of_closed {names : List Text} (h : Reachable table type name)
    (hdirect : ∀ name, Refers type name → name ∈ names)
    (hmembers : ∀ name ∈ names, ∀ p ∈ (table.get? name).getD [], ∀ name', Refers p.type name' →
      name' ∈ names) : name ∈ names := by
  induction h with
  | direct h => exact hdirect _ h
  | @member name name' properties p _ hget hp hname ih =>
    refine hmembers name ih p ?_ name' hname
    rw [hget]
    exact hp

/-! ## Shapes -/

/-- The shape asks for no names but those that the type refers to. -/
theorem shape_congr (h : ∀ name, Refers type name → table'.get? name = table.get? name) :
    shape table' type = shape table type := by
  have hname := h _ (.name type)
  have hbind : (namedArray? (Text.trim type)).bind table'.get? =
      (namedArray? (Text.trim type)).bind table.get? := by
    cases hnamed : namedArray? (Text.trim type) with
    | none => rfl
    | some element => exact h element (.array (namedArray?_eq_some hnamed))
  simp only [shape, hbind, hname]

theorem isInlineArray_of_mem (hcontains : Text.contains ['[', ']'] (Text.trim type) = true)
    (hp : p ∈ inlineProperties (Text.trim type)) : IsInlineArray type := by
  unfold inlineProperties at hp
  split at hp
  · cases hp
  · next before rest hopen =>
    split at hp
    · cases hp
    · next body after hclose =>
      have hopen := Text.cut?_eq_some hopen
      have hclose := Text.cutLast?_eq_some hclose
      exact ⟨by simp [hopen], by simp [hopen, hclose], Text.contains_iff.1 hcontains⟩

theorem mem_parts_shape (h : p ∈ (shape table type).parts) :
    (∃ name properties, Refers type name ∧ table.get? name = some properties ∧ p ∈ properties) ∨
      IsInlineArray type ∧ p ∈ inlineProperties (Text.trim type) := by
  unfold shape at h
  dsimp only at h
  split at h
  · next properties hbind =>
    obtain ⟨element, hnamed, hget⟩ := Option.bind_eq_some_iff.1 hbind
    exact Or.inl ⟨element, properties, .array (namedArray?_eq_some hnamed), hget, h⟩
  · split_ifs at h with _ _ hcontains
    · cases h
    · cases h
    · split at h
      · cases h
      · exact Or.inr ⟨isInlineArray_of_mem hcontains h, h⟩
    · split at h
      · next properties hget => exact Or.inl ⟨_, properties, .name type, hget, h⟩
      · cases h

/-- What a part reaches is reached from the type. -/
theorem Reachable.of_part (hp : p ∈ (shape table type).parts) (h : Reachable table p.type name) :
    Reachable table type name := by
  induction h with
  | direct hname =>
    rcases mem_parts_shape hp with ⟨other, properties, hother, hget, hmem⟩ | ⟨hinline, hmem⟩
    · exact .member (.direct hother) hget hmem hname
    · exact .direct (.inline hinline hmem hname)
  | member _ hget hmem hname ih => exact .member ih hget hmem hname

/-! ## Examples -/

theorem ofType_congr_of_reachable
    (h : ∀ name, Reachable table type name → table'.get? name = table.get? name) (levels : Nat) :
    ofType table' levels type = ofType table levels type := by
  induction levels generalizing type with
  | zero => rfl
  | succ levels ih =>
    rw [ofType_succ, ofType_succ, shape_congr fun name hname => h name (.direct hname)]
    apply Shape.fill_congr
    intro p hp
    apply ih
    intro name hname
    exact h name (hname.of_part hp)

/-- **An example depends on nothing but the interfaces that its type reaches.** Tables that agree on
these names, on which of them are interfaces and on their members, give the same example for every
cap and depth; so no change to an interface that is not reached changes the example, whether it is
added, removed or declared with other members. -/
theorem resolve_congr_of_reachable (table : Interface.Table) (type : Text) :
    (∀ table' : Interface.Table,
      (∀ name, Reachable table type name → table'.get? name = table.get? name) →
        ∀ cap depth, resolve table' cap type depth = resolve table cap type depth) ∧
      ∀ name, ¬ Reachable table type name → ∀ table' : Interface.Table,
        (∀ other, other ≠ name → table'.get? other = table.get? other) →
          ∀ cap depth, resolve table' cap type depth = resolve table cap type depth := by
  have hagree : ∀ table' : Interface.Table,
      (∀ name, Reachable table type name → table'.get? name = table.get? name) →
        ∀ cap depth, resolve table' cap type depth = resolve table cap type depth :=
    fun table' h cap depth => ofType_congr_of_reachable h _
  refine ⟨hagree, ?_⟩
  intro name hname table' hothers
  apply hagree
  intro other hother
  apply hothers
  rintro rfl
  exact hname hother

/-- The type of the items of a card. -/
def itemsType : Text := "\x7b label: string; link: Link \x7d[]".toList

/-- Cards and links that refer to one another, the cards in an inline object array, and notes that
no card leads to. -/
def linkedTable : Interface.Table :=
  ⟨[("Card".toList, [⟨"items".toList, false, itemsType⟩]),
    ("Link".toList, [⟨"href".toList, false, "string".toList⟩,
      ⟨"cards".toList, true, "Card[]".toList⟩]),
    ("Note".toList, [⟨"card".toList, false, "Card".toList⟩])]⟩

/-- The links and the cards with another interface instead of the notes. -/
def editedTable : Interface.Table :=
  ⟨[("Label".toList, [⟨"text".toList, false, "string".toList⟩]),
    ("Link".toList, [⟨"href".toList, false, "string".toList⟩,
      ⟨"cards".toList, true, "Card[]".toList⟩]),
    ("Card".toList, [⟨"items".toList, false, itemsType⟩])]⟩

/-- The types of the cards and links that are no inline object arrays. -/
def plainTypes : List Text := ["Card[]".toList, "string".toList, "Link".toList]

/-- All that is reached from an array of cards. -/
def linkedNames : List Text :=
  ["Card[]".toList, "Card".toList, itemsType, "\x7b label: string; link: Link \x7d".toList,
    "string".toList, "Link".toList]

theorem mem_linkedNames (h : Reachable linkedTable "Card[]".toList name) : name ∈ linkedNames := by
  have hplain : ∀ type ∈ plainTypes, ∀ name, Refers type name → name ∈ linkedNames := by
    intro type htype name h
    have hspells : ∀ type ∈ plainTypes, ∀ name ∈ spelledNames type, name ∈ linkedNames := by
      decide +kernel
    have hopening : ∀ type ∈ plainTypes, '{' ∉ Text.trim type := by decide +kernel
    rcases refers_iff.1 h with hspelled | ⟨hinline, -⟩
    · exact hspells type htype name hspelled
    · exact absurd hinline.opening (hopening type htype)
  have hitems : ∀ name, Refers itemsType name → name ∈ linkedNames := by
    intro name h
    have hspells : ∀ name ∈ spelledNames itemsType, name ∈ linkedNames := by decide +kernel
    have htypes : ∀ p ∈ inlineProperties (Text.trim itemsType), p.type ∈ plainTypes := by
      decide +kernel
    rcases refers_iff.1 h with hspelled | ⟨-, p, hp, h⟩
    · exact hspells name hspelled
    · exact hplain p.type (htypes p hp) name h
  refine h.mem_of_closed (hplain _ (by decide)) ?_
  intro name hname p hp name' h
  have htypes : ∀ name ∈ linkedNames, ∀ p ∈ (linkedTable.get? name).getD [],
      p.type = itemsType ∨ p.type ∈ plainTypes := by
    decide +kernel
  rcases htypes name hname p hp with htype | htype
  · exact hitems name' (htype ▸ h)
  · exact hplain p.type htype name' h

/-- Cards have the same example without the notes, and also with labels in their stead. -/
theorem resolve_congr_of_reachable_linked :
    ((∀ name, Reachable linkedTable "Card[]".toList name →
        editedTable.get? name = linkedTable.get? name) ∧
      ¬ Reachable linkedTable "Card[]".toList "Note".toList ∧
      ∀ other, other ≠ "Note".toList →
        Interface.Table.get? ⟨linkedTable.entries.take 2⟩ other = linkedTable.get? other) ∧
    resolve editedTable 5 "Card[]".toList 0 = resolve linkedTable 5 "Card[]".toList 0 ∧
    resolve ⟨linkedTable.entries.take 2⟩ 5 "Card[]".toList 0 =
      resolve linkedTable 5 "Card[]".toList 0 := by
  have hsame : ∀ name, Reachable linkedTable "Card[]".toList name →
      editedTable.get? name = linkedTable.get? name := by
    intro name h
    have hnames : ∀ name ∈ linkedNames, editedTable.get? name = linkedTable.get? name := by
      decide +kernel
    exact hnames name (mem_linkedNames h)
  have hnote : ¬ Reachable linkedTable "Card[]".toList "Note".toList := by
    intro h
    exact absurd (mem_linkedNames h) (by decide)
  have hothers : ∀ other, other ≠ "Note".toList →
      Interface.Table.get? ⟨linkedTable.entries.take 2⟩ other = linkedTable.get? other := by
    intro other hother
    have hentries : linkedTable.entries = linkedTable.entries.take 2 ++
        [("Note".toList, [⟨"card".toList, false, "Card".toList⟩])] := rfl
    rw [Interface.Table.get?, Interface.Table.get?, hentries, List.lookup_append, List.lookup_cons,
      beq_eq_false_iff_ne.2 hother]
    exact (Option.or_none).symm
  obtain ⟨hagree, hunreached⟩ := resolve_congr_of_reachable linkedTable "Card[]".toList
  exact ⟨⟨hsame, hnote, hothers⟩, hagree editedTable hsame 5 0,
    hunreached "Note".toList hnote _ hothers 5 0⟩

end PropCatalog.Example
