import PropCatalog.Text.Word
import PropCatalog.Toml.Scalar
import PropCatalog.Toml.Table

/-!
# TOML documents

A document is a sequence of lines with headers and of keys with values. `Toml.read?` gives the
entries of its outermost table, or nothing if the document is wrong anywhere. Reading a value goes
deeper with each array and inline table that is opened, up to a limit.
-/

namespace PropCatalog.Toml

/-! ## Blanks and comments -/

/-- Text without the spaces and tabs at its head. -/
def skipSpaces (s : Text) : Text :=
  s.dropWhile fun c => c = ' ' || c = '\t'

/-- Skips spaces, newlines and comments. -/
def trivia? : (inComment : Bool) → Text → Option Text
  | _, [] => some []
  | inComment, c :: s =>
    if c = '\n' then trivia? false s
    else if c = '\r' then if s.head? = some '\n' then trivia? inComment s else none
    else if inComment then if isControl c then none else trivia? true s
    else if c = ' ' || c = '\t' then trivia? false s
    else if c = '#' then trivia? true s
    else some (c :: s)

/-- Skips the rest of a line, which may hold only spaces and a comment. -/
def endLine? : (inComment : Bool) → Text → Option Text
  | _, [] => some []
  | inComment, c :: s =>
    if c = '\n' then some s
    else if c = '\r' then if s.head? = some '\n' then endLine? inComment s else none
    else if inComment then if isControl c then none else endLine? true s
    else if c = ' ' || c = '\t' then endLine? false s
    else if c = '#' then endLine? true s
    else none

/-! ## Keys -/

/-- A character of a key without quotes. -/
def isBareKey (c : Char) : Bool :=
  c.isAlphanum || c = '_' || c = '-'

/-- Reads one key, with or without quotes. -/
def simpleKey? (s : Text) : Option (Text × Text) :=
  if s.head? = some '"' || s.head? = some '\'' then lineString? s
  else
    match s.takeWhile isBareKey with
    | [] => none
    | key => some (key, s.dropWhile isBareKey)

/-- The most parts of a dotted key, and the most arrays and inline tables that may be open at
once. -/
def nestingLimit : Nat := 80

/-- Reads the keys that follow in a dotted key, one dot before each, at most `room` of them. -/
def moreKeys? (room : Nat) (s : Text) : Option (List Text × Text) :=
  match skipSpaces s, room with
  | '.' :: rest, room + 1 => do
    let (key, rest) ← simpleKey? (skipSpaces rest)
    let (keys, rest) ← moreKeys? room rest
    return (key :: keys, rest)
  | '.' :: _, 0 => none
  | _, _ => some ([], s)
termination_by structural room

/-- Reads a dotted key: the keys before the last one, the last one, and what follows. -/
def dottedKey? (s : Text) : Option (List Text × Text × Text) := do
  let (first, s) ← simpleKey? (skipSpaces s)
  let (more, s) ← moreKeys? (nestingLimit - 1) s
  let keys := first :: more
  return (keys.dropLast, keys.getLastD [], s)

/-! ## Values -/

mutual

/-- Reads a value, with `depth` further containers allowed. The steps bound the length of the
reading. -/
def value? : (steps depth : Nat) → Text → Option (Value × Text)
  | 0, _, _ => none
  | steps + 1, depth, s =>
    match s with
    | '[' :: s =>
      match depth with
      | 0 => none
      | depth + 1 => do
        let s ← trivia? false s
        let (items, s) ← items? steps depth s
        return (.array items, s)
    | '{' :: s =>
      match depth with
      | 0 => none
      | depth + 1 => do
        let s ← trivia? false s
        let (entries, s) ← pairs? steps depth [] s
        return (.table (Node.toEntries entries), s)
    | s =>
      if s.head? = some '"' || s.head? = some '\'' then
        (string? s).map fun (value, s) => (.string value, s)
      else
        (atomValue? (atom s).1).map fun value => (value, (atom s).2)

/-- Reads the items of an array up to its closing bracket. -/
def items? : (steps depth : Nat) → Text → Option (List Value × Text)
  | 0, _, _ => none
  | steps + 1, depth, s =>
    match s with
    | ']' :: s => some ([], s)
    | s => do
      let (value, s) ← value? steps depth s
      let s ← trivia? false s
      match s with
      | ']' :: s => return ([value], s)
      | ',' :: s =>
        let s ← trivia? false s
        let (values, s) ← items? steps depth s
        return (value :: values, s)
      | _ => none

/-- Reads the entries of an inline table up to its closing brace. Newlines and comments may stand
around every key and value, and a comma may follow the last entry. -/
def pairs? : (steps depth : Nat) → List (Text × Node) → Text → Option (List (Text × Node) × Text)
  | 0, _, _, _ => none
  | steps + 1, depth, entries, s =>
    match s with
    | '}' :: s => some (entries, s)
    | s => do
      let (path, key, s) ← dottedKey? s
      let s ← Text.after? ['='] (← trivia? false s)
      let s ← trivia? false s
      let (value, s) ← value? steps depth s
      let entries ← Node.add? value path key entries
      let s ← trivia? false s
      match s with
      | '}' :: s => return (entries, s)
      | ',' :: s =>
        let s ← trivia? false s
        pairs? steps depth entries s
      | _ => none

end

/-! ## Lines -/

/-- A document that has been read up to some line. -/
structure Draft where
  /-- The entries of the outermost table. -/
  entries : List (Text × Node)
  /-- The keys of the table that is being filled. -/
  current : List Text

/-- Reads one line, blank, with a header or with a key and a value, and what belongs to it. -/
def line? (draft : Draft) (s : Text) : Option (Draft × Text) :=
  match skipSpaces s with
  | '[' :: '[' :: s => do
    let (path, key, s) ← dottedKey? s
    let s ← Text.after? [']', ']'] (skipSpaces s)
    let entries ← Node.atHeader? Node.openTables? key path draft.entries
    let s ← endLine? false s
    return (⟨entries, path ++ [key]⟩, s)
  | '[' :: s => do
    let (path, key, s) ← dottedKey? s
    let s ← Text.after? [']'] (skipSpaces s)
    let entries ← Node.atHeader? Node.openTable? key path draft.entries
    let s ← endLine? false s
    return (⟨entries, path ++ [key]⟩, s)
  | s =>
    match endLine? false s with
    | some s => some (draft, s)
    | none => do
      let (path, key, s) ← dottedKey? s
      let s ← Text.after? ['='] (skipSpaces s)
      let (value, s) ← value? (2 * s.length + 2) nestingLimit (skipSpaces s)
      let entries ← Node.atTable? (Node.add? value path key) draft.current draft.entries
      let s ← endLine? false s
      return (⟨entries, draft.current⟩, s)

/-- Reads the lines of a document. -/
def lines? (draft : Draft) (s : Text) : Option Draft :=
  if s.isEmpty then some draft
  else
    match line? draft s with
    | none => none
    | some (draft, rest) => if rest.length < s.length then lines? draft rest else none
termination_by s.length

/-- The entries of the outermost table of a document. One byte order mark may come first. -/
def read? (s : Text) : Option (List (Text × Value)) :=
  let s := match s with
    | '\ufeff' :: s => s
    | s => s
  (lines? ⟨[], []⟩ s).map fun draft => Node.toEntries draft.entries

end PropCatalog.Toml
