import PropCatalog.Component.Defaults
import PropCatalog.Example.OfType
import PropCatalog.Literal.Basic
import PropCatalog.Template.Description

/-!
# Templates

A template documents one component: its name, its description, its properties and an example
payload. The example takes the default of a property where the component has one, and an example
of the declared type otherwise.
-/

namespace PropCatalog

/-- What is known about one component. -/
structure Template where
  name : Text
  /-- The description found in the source. -/
  description : Option Text
  properties : List Property
  payload : Example

namespace Template

/-- Why a source file has no template. -/
inductive Problem where
  | interfaceMissing (interface : Text)
  /-- None of the members of the properties interface declares a property. -/
  | noProperties (interface : Text)
  deriving DecidableEq, Repr

namespace Problem

def interface : Problem → Text
  | interfaceMissing interface => interface
  | noProperties interface => interface

def message : Problem → Text
  | interfaceMissing interface => "interface \x60".toList ++ interface ++ "\x60 not found".toList
  | noProperties interface =>
    "interface \x60".toList ++ interface ++ "\x60 has no parseable properties".toList

end Problem

/-- How templates are read from source files. -/
structure Reader where
  /-- What the name of a component is followed by in the name of its properties interface. -/
  suffix : Text
  cap : Nat

namespace Reader

/-- The reader that looks for `CardProps` for a component `Card`. -/
def standard : Reader := ⟨"Props".toList, Example.defaultCap⟩

def interfaceOf (reader : Reader) (component : Text) : Text :=
  component ++ reader.suffix

/-- The example of a property: that of its default expression if it has one, else that of its
type. -/
def exampleOf (reader : Reader) (table : Interface.Table) (defaults : Component.Defaults)
    (p : Property) : Example :=
  match defaults.lookup p.name with
  | some expression => .ofJson (Literal.evaluate expression).value
  | none => .resolve table reader.cap p.type 0

def read (reader : Reader) (component content : Text) : Except Problem Template :=
  let interface := reader.interfaceOf component
  let table := Interface.Table.ofSource content
  match table.get? interface with
  | none => .error (.interfaceMissing interface)
  | some [] => .error (.noProperties interface)
  | some properties =>
    let defaults := Component.defaults content component
    .ok {
      name := component
      description := description? content component interface
      properties
      payload :=
        .object (properties.map fun p => ⟨p.name, p.optional, reader.exampleOf table defaults p⟩) }

end Reader

end Template

end PropCatalog
