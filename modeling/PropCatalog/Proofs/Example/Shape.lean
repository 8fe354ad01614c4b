import PropCatalog.Example.OfType
import PropCatalog.Proofs.Interface.Declarations

/-!
# The shape of a type

With a level left, the rules look at the text of a type and at the names in the table, and come to
a value at once or to the properties of one object. This is the shape of the type. The example
follows from the shape and from the examples of the properties with one level less (`ofType_succ`),
so that a statement about examples needs one case for each kind of shape and an induction on the
levels. Up to the largest cap but one the levels are the depths that are left, and the recursion is
the one that counts the depth up as a word of 64 bits (`resolve_eq_fill`).
-/

namespace PropCatalog.Example

variable {table table' : Interface.Table} {type name : Text} {properties : List Property}
  {p : Property} {depth cap cap' : Nat}

/-- What the rules make of a type. -/
inductive Shape where
  /-- A value without properties. -/
  | value (e : Example)
  | object (properties : List Property)
  /-- An array with one object. -/
  | objectArray (properties : List Property)

namespace Shape

/-- The properties whose types are followed. -/
def parts : Shape → List Property
  | value _ => []
  | object properties => properties
  | objectArray properties => properties

/-- The fields of properties, where `f` gives the example of a type. -/
def fields (f : Text → Example) (properties : List Property) : List (Field Example) :=
  properties.map fun p => ⟨p.name, p.optional, f p.type⟩

/-- The example of a shape, where `f` gives the examples of the types that are followed. -/
def fill (f : Text → Example) : Shape → Example
  | value e => e
  | object properties => .object (fields f properties)
  | objectArray properties => .array [.object (fields f properties)]

theorem fill_congr {f g : Text → Example} {shape : Shape}
    (h : ∀ p ∈ shape.parts, f p.type = g p.type) : shape.fill f = shape.fill g := by
  have hfields : fields f shape.parts = fields g shape.parts := by
    apply List.map_congr_left
    intro p hp
    rw [h p hp]
  cases shape with
  | value e => rfl
  | object properties => exact congrArg Example.object hfields
  | objectArray properties => exact congrArg (fun fs => Example.array [.object fs]) hfields

end Shape

/-- The shape of a type, by the first rule that applies. -/
def shape (table : Interface.Table) (type : Text) : Shape :=
  let type := Text.trim type
  let element := namedArray? type
  match element.bind table.get? with
  | some properties => .objectArray properties
  | none =>
    if element = some "string".toList then .value (.array [placeholder])
    else if element = some "number".toList then .value (.array [.scalar (.number (.int 0))])
    else if Text.contains ['[', ']'] type then
      match inlineProperties type with
      | [] => .value (.array [])
      | properties => .objectArray properties
    else
      match table.get? type with
      | some properties => .object properties
      | none => .value (ofWords type)

theorem ofType_succ (table : Interface.Table) (levels : Nat) (type : Text) :
    ofType table (levels + 1) type = (shape table type).fill (ofType table levels) := by
  rw [ofType, shape]
  dsimp only
  cases (namedArray? (Text.trim type)).bind table.get? with
  | some properties => rfl
  | none =>
    dsimp only
    split_ifs
    · rfl
    · rfl
    · cases inlineProperties (Text.trim type) <;> rfl
    · cases table.get? (Text.trim type) <;> rfl

/-! ## Levels and depths -/

theorem levelsFrom_of_lt (h : cap < depth) : levelsFrom depth cap = 0 :=
  if_pos h

theorem levelsFrom_eq (hcap : cap + 1 < Word64.limit) (depth : Nat) :
    levelsFrom depth cap = cap + 1 - depth := by
  rw [levelsFrom, if_neg hcap.ne]
  split <;> omega

theorem levelsFrom_mono (hle : cap ≤ cap') (hcap' : cap' < Word64.limit) (depth : Nat) :
    levelsFrom depth cap ≤ levelsFrom depth cap' := by
  unfold levelsFrom
  split_ifs <;> omega

theorem resolve_of_lt (h : cap < depth) (table : Interface.Table) (type : Text) :
    resolve table cap type depth = placeholder := by
  rw [resolve, levelsFrom_of_lt h, ofType]

/-- The recursion on depths. A type past the cap is the placeholder, and any other type is
filled with the examples one level deeper, where depths are counted in words of 64 bits. -/
theorem resolve_eq_fill (hcap : cap + 1 < Word64.limit) (table : Interface.Table) (type : Text)
    (depth : Nat) :
    resolve table cap type depth =
      if cap < depth then placeholder
      else (shape table type).fill fun part =>
        resolve table cap part ((depth + 1) % Word64.limit) := by
  split_ifs with hdepth
  · exact resolve_of_lt hdepth table type
  · have hword : (depth + 1) % Word64.limit = depth + 1 := Nat.mod_eq_of_lt (by omega)
    have hlevels : cap + 1 - depth = cap + 1 - (depth + 1) + 1 := by omega
    simp only [resolve, levelsFrom_eq hcap, hword]
    rw [hlevels, ofType_succ]

/-! ## Names and arrays of them -/

theorem namedArray?_brackets (hname : Text.isIdent name = true) :
    namedArray? (name ++ ['[', ']']) = some name := by
  have hident : Text.ident? (name ++ ['[', ']']) = some (name, ['[', ']']) :=
    Text.ident?_append hname rfl
  rw [namedArray?, hident]
  rfl

theorem namedArray?_eq_some (h : namedArray? type = some name) : type = name ++ ['[', ']'] := by
  obtain ⟨⟨ident, rest⟩, hident, h⟩ := Option.bind_eq_some_iff.1 h
  dsimp only at h
  by_cases hrest : rest = ['[', ']']
  · rw [if_pos hrest] at h
    obtain rfl := Option.some.inj h
    rw [(Text.ident?_eq_some hident).1, hrest]
  · rw [if_neg hrest] at h
    cases h

theorem bracket_notMem_of_isIdent (hname : Text.isIdent name = true) : '[' ∉ name := by
  intro hmem
  exact absurd (Text.isIdentRest_of_mem hname hmem) (by decide)

theorem shape_of_name (htype : Text.trim type = name) (hname : Text.isIdent name = true)
    (hget : table.get? name = some properties) : shape table type = .object properties := by
  have hbracket := bracket_notMem_of_isIdent hname
  have hnamed : namedArray? name = none := by
    rw [Option.eq_none_iff_forall_ne_some]
    intro element helement
    rw [namedArray?_eq_some helement] at hbracket
    simp at hbracket
  have hcontains : Text.contains ['[', ']'] name = false := by
    have hmem : '[' ∈ ['[', ']'] := by decide
    rw [← Bool.not_eq_true, Text.contains_iff]
    exact Text.not_infix_of_notMem hmem hbracket
  simp only [shape, htype, hnamed, hcontains, hget]
  rfl

theorem shape_of_nameArray (htype : Text.trim type = name ++ ['[', ']'])
    (hname : Text.isIdent name = true) (hget : table.get? name = some properties) :
    shape table type = .objectArray properties := by
  simp only [shape, htype, namedArray?_brackets hname, Option.bind_some, hget]

end PropCatalog.Example
