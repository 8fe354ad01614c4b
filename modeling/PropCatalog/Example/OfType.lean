import PropCatalog.Example.Basic
import PropCatalog.Interface.Table
import PropCatalog.Word64

/-!
# Examples of types

The text of a type is turned into an example by the first rule that applies: an interface of the
same file, alone or as an array, gives an object of the examples of its properties; an inline object
array gives an object of its fields; other arrays are empty; and what is left is told by the words
`string`, `number` and `boolean` in it. Going into an interface or an inline object counts one
level, and a type met with no level left gives the placeholder.
-/

namespace PropCatalog.Example

/-- The name of an array type `Name[]`. -/
def namedArray? (type : Text) : Option Text := do
  let (name, rest) ← Text.ident? type
  if rest = ['[', ']'] then return name else none

/-- The properties of an inline object array `{ a: A; b: B }[]`: those that stand between its first
opening and its last closing brace. -/
def inlineProperties (type : Text) : List Property :=
  match Text.cut? ['{'] type with
  | none => []
  | some (_, rest) =>
    match Text.cutLast? ['}'] rest with
    | none => []
    | some (body, _) =>
      (Text.pieces (fun c => c = ';' || c = '\n') body).filterMap Property.ofMember?

/-- The example of a type that only its words tell about. Words count in either case. -/
def ofWords (type : Text) : Example :=
  let lower := type.map Char.toLower
  if Text.contains "string".toList lower then placeholder
  else if Text.contains "number".toList lower then .scalar (.number (.int 0))
  else if Text.contains "boolean".toList lower then .scalar (.bool false)
  else .object []

/-- The example of a type with a number of levels left. -/
def ofType (table : Interface.Table) : (levels : Nat) → (type : Text) → Example
  | 0, _ => placeholder
  | levels + 1, type =>
    let type := Text.trim type
    let object (properties : List Property) : Example :=
      .object (properties.map fun p => ⟨p.name, p.optional, ofType table levels p.type⟩)
    let element := namedArray? type
    match element.bind table.get? with
    | some properties => .array [object properties]
    | none =>
      if element = some "string".toList then .array [placeholder]
      else if element = some "number".toList then .array [.scalar (.number (.int 0))]
      else if Text.contains ['[', ']'] type then
        match inlineProperties type with
        | [] => .array []
        | properties => .array [object properties]
      else
        match table.get? type with
        | some properties => object properties
        | none => ofWords type

/-- The deepest level of references that is followed when nothing else is asked for. -/
def defaultCap : Nat := 2

/-- The number of levels from a depth up to the cap, both included. Depths are words of 64 bits, and
after the largest one counting starts again, so the largest cap lets no level be the last. -/
def levelsFrom (depth cap : Nat) : Nat :=
  if cap < depth then 0
  else if cap + 1 = Word64.limit then Word64.limit
  else cap + 1 - depth

/-- The example of a type met at a depth, where types are followed up to the depth `cap`. -/
def resolve (table : Interface.Table) (cap : Nat) (type : Text) (depth : Nat) : Example :=
  ofType table (levelsFrom depth cap) type

end PropCatalog.Example
