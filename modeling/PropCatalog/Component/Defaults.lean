import PropCatalog.Component.Entries
import PropCatalog.Text.Word

/-!
# Default expressions of a component

A component takes its properties as a destructured object in its first parameter, where a property
can be given a default: `function Card({ title, tone = 'calm' }: CardProps)`. The block that counts
is that of the definition with the component's name, else that of the default export, else the first
destructured parameter of any function or arrow.
-/

namespace PropCatalog.Component

/-- What follows the `(` and `{` that open a destructured first parameter. -/
def openBlock? (s : Text) : Option Text := do
  let rest ← Text.after? ['('] s
  Text.after? ['{'] (Text.trimStart rest)

/-- What follows the name of a function: its destructured first parameter. -/
def functionBlock? (s : Text) : Option Text :=
  openBlock? (Text.trimStart s)

/-- Skips a type annotation `: T` up to the `=` that must follow it; an annotation does not span
lines and does not contain `=`. -/
def annotation? (s : Text) : Option Text :=
  match s with
  | ':' :: s =>
    if (s.takeWhile fun c => c != '=' && c != '\n').isEmpty then none
    else some (s.dropWhile fun c => c != '=' && c != '\n')
  | s => some s

/-- What follows the name of a constant: an arrow with a destructured first parameter. -/
def arrowBlock? (s : Text) : Option Text := do
  let rest ← annotation? (Text.trimStart s)
  let rest := Text.trimStart (← Text.after? ['='] rest)
  match Text.after? "async".toList rest with
  | some rest => openBlock? (Text.trimStart rest)
  | none => openBlock? rest

/-- The block of a definition, by `function` or `const`, that starts here; `name?` reads the name.
-/
def definition? (name? : Text → Option Text) (before : Option Char) (s : Text) : Option Text :=
  if Text.isBoundary before s then
    match Text.after? "function".toList s with
    | some rest => Text.afterBlanks? (fun rest => (name? rest).bind functionBlock?) rest
    | none =>
      match Text.after? "const".toList s with
      | some rest => Text.afterBlanks? (fun rest => (name? rest).bind arrowBlock?) rest
      | none => none
  else none

/-- The block of a default-exported function, named or not, that starts here. -/
def defaultExport? (before : Option Char) (s : Text) : Option Text :=
  if Text.isBoundary before s then
    (Text.after? "export".toList s).bind <| Text.afterBlanks? fun rest =>
      (Text.after? "default".toList rest).bind <| Text.afterBlanks? fun rest => do
        let rest := Text.trimStart (← Text.after? "function".toList rest)
        match Text.ident? rest with
        | some (_, rest) => functionBlock? rest
        | none => functionBlock? rest
  else none

/-- The text from the block of the definition named `component` on. -/
def namedBlock? (content component : Text) : Option Text :=
  (Text.search (definition? (Text.after? component)) none content).map Prod.snd

/-- The text from the block of the first default-exported function on. -/
def defaultExportBlock? (content : Text) : Option Text :=
  (Text.search defaultExport? none content).map Prod.snd

/-- The text from the block of the first definition of any name on. -/
def anyBlock? (content : Text) : Option Text :=
  (Text.search (definition? fun s => (Text.ident? s).map Prod.snd) none content).map Prod.snd

def block? (content component : Text) : Option Text := do
  let rest ← match namedBlock? content component with
    | some rest => some rest
    | none =>
      match defaultExportBlock? content with
      | some rest => some rest
      | none => anyBlock? content
  let (block, _) ← Bracket.body? rest
  return block

/-- The name and the default expression of an entry `name = expression` or
`name: alias = expression`; none for an entry without a default. -/
def default? (entry : Text) : Option (Text × Text) := do
  let (name, rest) ← Text.ident? entry
  let rest := Text.trimStart rest
  let rest ← match rest with
    | ':' :: rest => (Text.ident? (Text.trimStart rest)).map fun (_, rest) => Text.trimStart rest
    | _ => some rest
  let expression := Text.trim (← Text.after? ['='] rest)
  if expression.isEmpty then none else return (name, expression)

/-- The defaults of a component, as pairs of a name and the text of an expression. -/
abbrev Defaults := List (Text × Text)

/-- Gives `name` the default `expression`, in place of an earlier one. -/
def Defaults.set (defaults : Defaults) (name expression : Text) : Defaults :=
  match defaults with
  | [] => [(name, expression)]
  | (n, e) :: rest =>
    if n = name then (name, expression) :: rest else (n, e) :: Defaults.set rest name expression

/-- The default expressions in the definition of `component`; the last default of a name counts. -/
def defaults (content component : Text) : Defaults :=
  match block? content component with
  | none => []
  | some block =>
    ((entries block).filterMap default?).foldl
      (fun d (name, expression) => d.set name expression) []

end PropCatalog.Component
