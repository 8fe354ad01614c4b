import PropCatalog.Text.Basic
import PropCatalog.Text.Word

/-!
# Properties

A member of an interface that declares a property is written `name: type` or `name?: type`, with an
optional `readonly` in front. Members of any other form declare no property.
-/

namespace PropCatalog

/-- A property declared by an interface. -/
structure Property where
  name : Text
  optional : Bool
  type : Text
  deriving DecidableEq, Repr

namespace Property

/-- Reads a name, an optional `?` and a colon; the text after the colon is returned as the type. -/
def signature? (s : Text) : Option Property := do
  let (name, rest) ← Text.ident? s
  match Text.trimStart rest with
  | '?' :: rest =>
    let type ← Text.after? [':'] (Text.trimStart rest)
    return ⟨name, true, type⟩
  | ':' :: type => return ⟨name, false, type⟩
  | _ => none

/-- Reads a signature after the word `readonly`, or else one that starts at once: `readonly` can be
the name of a property. -/
def declaration? (s : Text) : Option Property :=
  match (Text.after? "readonly".toList s).bind (Text.afterBlanks? signature?) with
  | some p => some p
  | none => signature? s

/-- The type text without the blanks around it and without one `;` at its end. -/
def typeText (s : Text) : Text :=
  let s := Text.trim s
  Text.trim ((Text.before? [';'] s).getD s)

/-- The property that a member declares; none for a member of another form or with no type. -/
def ofMember? (member : Text) : Option Property := do
  let p ← declaration? (Text.trim member)
  let type := typeText p.type
  if type = [] then none else return { p with type }

end Property

end PropCatalog
