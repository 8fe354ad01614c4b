import PropCatalog.Bracket

/-!
# Entries of a destructuring block

The parameters between the braces of `({ a, b = 1 })` are separated by commas outside brackets and
string literals. An entry that spans several lines is joined into one, its pieces separated by a
single space, and line comments are skipped. Rest entries (`...rest`) are left out.
-/

namespace PropCatalog.Component

/-- The part of an entry that has been read. -/
structure Pending where
  /-- The characters read, the last one first. -/
  reversed : Text
  /-- Whether a line has ended since the last character, so that a space is due. -/
  spaceDue : Bool

namespace Pending

def empty : Pending := ⟨[], false⟩

/-- Adds a character. Blanks at the start of the entry or of a continuation line are dropped. -/
def push (p : Pending) (c : Char) : Pending :=
  if Text.isBlank c && (p.spaceDue || p.reversed.isEmpty) then p
  else if p.spaceDue && !p.reversed.isEmpty then ⟨c :: ' ' :: p.reversed, false⟩
  else ⟨c :: p.reversed, false⟩

/-- Ends a line: the blanks before it are dropped and a space is due. -/
def endLine (p : Pending) : Pending :=
  ⟨p.reversed.dropWhile Text.isBlank, true⟩

/-- The finished entry, unless it is blank or a rest entry. -/
def finish (p : Pending) : List Text :=
  let entry := Text.trim p.reversed.reverse
  if entry.isEmpty || Text.startsWith ['.', '.', '.'] entry then [] else [entry]

end Pending

/-- What the reader of entries is inside of. -/
inductive Context where
  | code
  /-- A string literal that ends at the quote. -/
  | quoted (quote : Char)
  /-- The character after a backslash in such a literal. -/
  | escaped (quote : Char)
  | comment

def isQuote (c : Char) : Bool :=
  c = '\'' || c = '"' || c = '\x60'

/-- The entries of the text from a point where `p` has been read, at bracket depth `d`. -/
def entriesFrom (p : Pending) : (d : Nat) → (context : Context) → Text → List Text
  | _, _, [] => p.finish
  | d, .escaped quote, c :: s => entriesFrom (p.push c) d (.quoted quote) s
  | d, .quoted quote, c :: s =>
    entriesFrom (p.push c) d
      (if c = '\\' then .escaped quote else if c = quote then .code else .quoted quote) s
  | d, .comment, c :: s =>
    if c = '\n' then entriesFrom p.endLine d .code s else entriesFrom p d .comment s
  | d, .code, c :: s =>
    if isQuote c then entriesFrom (p.push c) d (.quoted c) s
    else if c = '/' && s.head? = some '/' then entriesFrom p d .comment s
    else if c = ',' && d = 0 then p.finish ++ entriesFrom .empty d .code s
    else if c = '\n' then entriesFrom p.endLine d .code s
    else entriesFrom (p.push c) (Bracket.depth d c) .code s

/-- The entries of a destructuring block, in order. -/
def entries (block : Text) : List Text :=
  entriesFrom .empty 0 .code block

end PropCatalog.Component
