import PropCatalog.Component.Defaults
import PropCatalog.Interface.Table

/-!
# Descriptions

The description of a component is the first line with text of the documentation comment that ends
right above its properties interface, or else right above its definition. Lines that start with `@`
are tags and do not count.
-/

namespace PropCatalog.Template

/-- A recogniser that may have the word `export` in front. -/
def exported? (m : Option Char → Text → Option Text) (before : Option Char) (s : Text) :
    Option Text :=
  let withExport :=
    if Text.isBoundary before s then
      (Text.after? "export".toList s).bind (Text.afterBlanks? (m (some ' ')))
    else none
  match withExport with
  | some rest => some rest
  | none => m before s

/-- The start of a definition of `component` by `function` or `const`; the name must end at a word
boundary. -/
def namedDefinition? (component : Text) (before : Option Char) (s : Text) : Option Text :=
  if Text.isBoundary before s then
    let rest? :=
      match Text.after? "function".toList s with
      | some rest => some rest
      | none => Text.after? "const".toList s
    rest?.bind (Text.afterBlanks? fun rest => do
      let rest ← Text.after? component rest
      if Text.isBoundary (some (component.getLastD ' ')) rest then return rest
      else none)
  else none

/-- The start of such a definition, with the word `default` in front if it comes after `export`. -/
def exportedDefinition? (component : Text) (before : Option Char) (s : Text) : Option Text :=
  let withExport :=
    if Text.isBoundary before s then
      (Text.after? "export".toList s).bind <| Text.afterBlanks? fun rest =>
        match (Text.after? "default".toList rest).bind
            (Text.afterBlanks? (namedDefinition? component (some ' '))) with
        | some rest => some rest
        | none => namedDefinition? component (some ' ') rest
    else none
  match withExport with
  | some rest => some rest
  | none => namedDefinition? component before s

/-- The text of a line of a documentation comment, without the stars at its start. -/
def commentLine (line : Text) : Text :=
  Text.trim ((Text.trim line).dropWhile (· = '*'))

/-- The first line with text of the documentation comment that ends a text. -/
def docCommentAtEnd? (preceding : Text) : Option Text := do
  let body ← Text.before? ['*', '/'] (Text.trimEnd preceding)
  let (_, comment) ← Text.cutLast? ['/', '*', '*'] body
  ((Text.pieces (· = '\n') comment).map commentLine).find? fun line =>
    !line.isEmpty && !Text.startsWith ['@'] line

/-- The description above the first place that `m` recognises. -/
def descriptionAbove? (m : Option Char → Text → Option Text) (content : Text) : Option Text := do
  let (preceding, _) ← Text.search m none content
  docCommentAtEnd? preceding

/-- The description of a component with the given properties interface. -/
def description? (content component interface : Text) : Option Text :=
  match descriptionAbove? (exported? (Interface.headOf? interface)) content with
  | some description => some description
  | none => descriptionAbove? (exportedDefinition? component) content

end PropCatalog.Template
