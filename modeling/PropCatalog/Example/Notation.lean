import PropCatalog.Example.Basic
import PropCatalog.Json.Printer

/-!
# The notation of examples

An example is written on one line like JSON, with a space after each comma and colon, and with a
question mark between the name and the colon of a field that may be left out.
-/

namespace PropCatalog.Example

/-- The name of a field with its question mark and colon. -/
def fieldHead (name : Text) (optional : Bool) : Text :=
  Json.quote name ++ (if optional then ['?', ':', ' '] else [':', ' '])

mutual

/-- The text of an example. -/
def render : Example → Text
  | .scalar s => s.text
  | .array items => '[' :: renderItems items ++ [']']
  | .object fields => '{' :: renderFields fields ++ ['}']

def renderItems : List Example → Text
  | [] => []
  | [e] => render e
  | e :: rest => render e ++ ',' :: ' ' :: renderItems rest

def renderFields : List (Field Example) → Text
  | [] => []
  | [f] => fieldHead f.name f.optional ++ render f.value
  | f :: rest => fieldHead f.name f.optional ++ render f.value ++ ',' :: ' ' :: renderFields rest

end

end PropCatalog.Example
