import PropCatalog.Json.Number

/-!
# JSON values

A value is a scalar, an array or an object. The fields of an object keep their order; a value that
was read has each field name once.
-/

namespace PropCatalog.Json

/-- A value without parts. -/
inductive Scalar where
  | null
  | bool (value : Bool)
  | number (value : Number)
  | string (value : Text)
  deriving DecidableEq, Repr

/-- A JSON value. -/
inductive Value where
  | scalar (value : Scalar)
  | array (items : List Value)
  /-- Values under names, in order. -/
  | object (fields : List (Text × Value))

/-- Puts a value under a name: in the place of the field of that name if there is one, and
otherwise at the end. -/
def setField {α : Type} (name : Text) (value : α) : List (Text × α) → List (Text × α)
  | [] => [(name, value)]
  | (n, v) :: rest => if n = name then (name, value) :: rest else (n, v) :: setField name value rest

namespace Value

/-- The value that a field name has in an object. -/
def field? (name : Text) : Value → Option Value
  | .object fields => fields.lookup name
  | _ => none

mutual

/-- The value with its whole numbers of safe size as integers, at every depth. -/
def wholeToInt : Value → Value
  | .scalar (.number n) => .scalar (.number n.wholeToInt)
  | .scalar s => .scalar s
  | .array items => .array (wholeToIntItems items)
  | .object fields => .object (wholeToIntFields fields)

def wholeToIntItems : List Value → List Value
  | [] => []
  | v :: rest => wholeToInt v :: wholeToIntItems rest

def wholeToIntFields : List (Text × Value) → List (Text × Value)
  | [] => []
  | (name, v) :: rest => (name, wholeToInt v) :: wholeToIntFields rest

end

end Value

end PropCatalog.Json
