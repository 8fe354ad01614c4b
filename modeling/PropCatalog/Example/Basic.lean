import PropCatalog.Json.Value

/-!
# Example values

An example stands in for a payload: a value in which each field of an object also tells whether the
field may be left out. Fields keep their order, and a name may occur more than once.
-/

namespace PropCatalog

/-- A field of an example object. -/
structure Field (α : Type) where
  name : Text
  optional : Bool
  value : α
  deriving DecidableEq, Repr

/-- An example value. -/
inductive Example where
  /-- A value without parts. -/
  | scalar (value : Json.Scalar)
  | array (items : List Example)
  /-- Fields in the order of their declaration. -/
  | object (fields : List (Field Example))

namespace Example

/-- The text that stands for any string, and for a value past the depth cap. -/
def placeholder : Example := .scalar (.string "string".toList)

/-- The first field of a name. -/
def field? (name : Text) : Example → Option (Field Example)
  | .object fields => fields.find? fun f => f.name = name
  | _ => none

mutual

/-- The JSON value of an example. A name that an object has twice keeps its first place and its last
value. -/
def toJson : Example → Json.Value
  | .scalar s => .scalar s
  | .array items => .array (toJsonItems items)
  | .object fields => .object (toJsonFields [] fields)

def toJsonItems : List Example → List Json.Value
  | [] => []
  | e :: rest => toJson e :: toJsonItems rest

/-- Adds the JSON values of the fields to the fields before them. -/
def toJsonFields (before : List (Text × Json.Value)) :
    List (Field Example) → List (Text × Json.Value)
  | [] => before
  | f :: rest => toJsonFields (Json.setField f.name (toJson f.value) before) rest

/-- The example of a JSON value, in which no field may be left out. -/
def ofJson : Json.Value → Example
  | .scalar s => .scalar s
  | .array items => .array (ofJsonItems items)
  | .object fields => .object (ofJsonFields fields)

def ofJsonItems : List Json.Value → List Example
  | [] => []
  | v :: rest => ofJson v :: ofJsonItems rest

def ofJsonFields : List (Text × Json.Value) → List (Field Example)
  | [] => []
  | (name, v) :: rest => ⟨name, false, ofJson v⟩ :: ofJsonFields rest

end

end Example

end PropCatalog
