import PropCatalog.Interface.Members
import PropCatalog.Interface.Property

/-!
# Interface declarations

An interface is declared by the word `interface`, a name and a body in braces. `Interface.find?`
reads the first declaration of a given name. `Interface.Table.ofSource` collects every interface
that a source text declares; of several declarations of a name the first one counts, and a name
whose first declaration is never closed is absent.
-/

namespace PropCatalog.Interface

/-- What follows the brace that opens a body, blanks before it skipped. -/
def openBrace? (s : Text) : Option Text :=
  Text.after? ['{'] (Text.trimStart s)

/-- The head of a declaration of the interface `name`, up to and with the opening brace. -/
def headOf? (name : Text) (before : Option Char) (s : Text) : Option Text :=
  if Text.isBoundary before s then
    (Text.after? "interface".toList s).bind
      (Text.afterBlanks? fun rest => (Text.after? name rest).bind openBrace?)
  else none

/-- The declaration whose head starts here: its name, and what follows its opening brace. -/
def declaration? (before : Option Char) (s : Text) : Option (Text × Text) :=
  if Text.isBoundary before s then
    (Text.after? "interface".toList s).bind
      (Text.afterBlanks? fun rest => do
        let (name, rest) ← Text.ident? rest
        let body ← openBrace? rest
        return (name, body))
  else none

/-- The properties of the first declaration of `name`; none if there is no declaration or its body
is not closed. -/
def find? (content name : Text) : Option (List Property) := do
  let (_, rest) ← Text.search (headOf? name) none content
  let (body, _) ← Bracket.body? rest
  return (members body).filterMap Property.ofMember?

/-! ## All declarations -/

/-- A head takes at least one character. -/
theorem declaration?_length {before : Option Char} {s name rest : Text}
    (h : declaration? before s = some (name, rest)) : rest.length < s.length := by
  unfold declaration? at h
  split at h
  · obtain ⟨t, ht, h⟩ := Option.bind_eq_some_iff.1 h
    obtain ⟨blanks, u, rfl, -, -, h⟩ := Text.afterBlanks?_eq_some h
    obtain ⟨⟨ident, v⟩, hident, h⟩ := Option.bind_eq_some_iff.1 h
    obtain ⟨body, hbody, heq⟩ := Option.bind_eq_some_iff.1 h
    obtain ⟨rfl, rfl⟩ := Prod.mk.inj (Option.some.inj heq)
    have hu := congrArg List.length (Text.ident?_eq_some hident).1
    have hv := congrArg List.length (Text.after?_eq_some_iff.1 hbody)
    have htrim := (List.dropWhile_suffix Text.isBlank (l := v)).length_le
    rw [Text.after?_eq_some_iff.1 ht]
    simp only [Text.trimStart, List.length_append, List.length_cons, List.length_nil] at *
    omega
  · cases h

/-- The declarations whose heads follow one another without overlap, the first one first: the name
of each and what follows its opening brace. -/
def declarations (before : Option Char) (s : Text) : List (Text × Text) :=
  match s with
  | [] => []
  | c :: s =>
    match _h : declaration? before (c :: s) with
    | some (name, rest) => (name, rest) :: declarations (some '{') rest
    | none => declarations (some c) s
termination_by s.length
decreasing_by
  · exact declaration?_length _h
  · simp

/-- The names of all declarations, in order. -/
def declaredNames (content : Text) : List Text :=
  (declarations none content).map Prod.fst

/-- The interfaces of one source text, each name once. -/
structure Table where
  /-- The names with their properties, in the order of declaration. -/
  entries : List (Text × List Property)

namespace Table

def get? (table : Table) (name : Text) : Option (List Property) :=
  table.entries.lookup name

def contains (table : Table) (name : Text) : Bool :=
  (table.get? name).isSome

/-- Adds an interface unless its name is taken. -/
def insertNew (table : Table) (name : Text) (properties : List Property) : Table :=
  if table.contains name then table else ⟨table.entries ++ [(name, properties)]⟩

/-- The table of every interface that a source text declares. -/
def ofSource (content : Text) : Table :=
  (declaredNames content).foldl
    (fun table name =>
      match find? content name with
      | some properties => table.insertNew name properties
      | none => table)
    ⟨[]⟩

end Table

end PropCatalog.Interface
