import PropCatalog.Pattern.Reach
import PropCatalog.Text.Utf8

/-!
# Patterns of ignore files

The patterns that ignore files are written with. They are read as characters and matched as bytes:
`?` stands for one byte other than a slash, `*` for any run of such bytes, `[...]` for one byte of a
set, `**` as a whole component for any number of directories, and `{a,b}` for one of several
patterns. A backslash takes the next character as it is. A bracket that is not closed stands for
itself, and so do all brackets after it.
-/

namespace PropCatalog.Pattern

/-- A part of a pattern of an ignore file. -/
inductive IgnoreToken where
  | byte (b : UInt8)
  /-- Any byte other than a slash. -/
  | any
  /-- Any run of bytes other than slashes. -/
  | run
  /-- Any number of directories at the start. -/
  | leading
  /-- Anything below a directory. -/
  | trailing
  /-- Any number of directories between two others. -/
  | between
  /-- A byte in one of the ranges, or in none of them. -/
  | set (negated : Bool) (ranges : List (UInt8 × UInt8))
  /-- One of several patterns; nothing if there are none. -/
  | choice (branches : List (List IgnoreToken))

namespace IgnoreToken

/-! ## Matching -/

def slash : UInt8 := 0x2F

mutual

/-- Which prefixes of a path are matched after one more part. -/
def next (path : List UInt8) : IgnoreToken → Reach → Reach
  | .byte b, reach => reach.one (· = b) path
  | .any, reach => reach.one (· ≠ slash) path
  | .run, reach => Reach.run (· ≠ slash) false path reach
  | .leading, reach => Reach.stretches (· = slash) false false path reach
  | .trailing, reach => Reach.run (fun _ => true) false path (reach.one (· = slash) path)
  | .between, reach =>
    Reach.stretches (· = slash) false false path (reach.one (· = slash) path)
  | .set negated ranges, reach =>
    reach.one (fun b => (ranges.any fun r => r.1 ≤ b && b ≤ r.2) != negated) path
  | .choice [], reach => reach
  | .choice branches, reach => nextOfAny path branches reach

/-- Which prefixes of a path are matched after some parts in a row. -/
def nextOfAll (path : List UInt8) : List IgnoreToken → Reach → Reach
  | [], reach => reach
  | t :: tokens, reach => if reach.any id then nextOfAll path tokens (next path t reach) else reach

/-- Which prefixes of a path are matched after one of several patterns. -/
def nextOfAny (path : List UInt8) : List (List IgnoreToken) → Reach → Reach
  | [], reach => reach.nowhere
  | branch :: branches, reach =>
    (nextOfAll path branch reach).either (nextOfAny path branches reach)

end

/-- Whether parts match a whole path. A lone `**` matches everything. -/
def isMatch (tokens : List IgnoreToken) (path : List UInt8) : Bool :=
  match tokens with
  | [.leading] => true
  | _ => (nextOfAll path tokens (Reach.start path)).isWhole

/-! ## Nesting

Patterns are matched as expressions, which may nest only so deep: every bracketed set, repetition,
group, choice and row of items counts. With a pattern that nests deeper a file has no pattern at
all.
-/

/-- The most an expression may nest. -/
def nestingLimit : Nat := 250

/-- The number of items that a part is in a row. -/
def items : IgnoreToken → Nat
  | .trailing => 2
  | .choice [] => 0
  | _ => 1

/-- The number of items of a row. -/
def rowItems : List IgnoreToken → Nat
  | [] => 0
  | t :: tokens => items t + rowItems tokens

/-- How deep a row nests whose parts nest at most `inner` deep. -/
def rowNesting (tokens : List IgnoreToken) (inner : Nat) : Nat :=
  if 2 ≤ rowItems tokens then inner + 1 else inner

mutual

/-- How deep a part nests. -/
def nesting : IgnoreToken → Nat
  | .byte _ => 0
  | .any => 1
  | .run => 2
  | .leading => 4
  | .trailing => 1
  | .between => 4
  | .set _ ranges => if ranges.length = 1 then 1 else 2
  | .choice [] => 0
  | .choice [branch] => rowNesting branch (innerNesting branch) + 1
  | .choice branches => branchNesting branches + 2

def innerNesting : List IgnoreToken → Nat
  | [] => 0
  | t :: tokens => max (nesting t) (innerNesting tokens)

def branchNesting : List (List IgnoreToken) → Nat
  | [] => 0
  | branch :: branches =>
    max (rowNesting branch (innerNesting branch)) (branchNesting branches)

end

/-- Whether the expression of a pattern nests too deep. -/
def isTooDeep (tokens : List IgnoreToken) : Bool :=
  nestingLimit < innerNesting tokens + 1

/-- A byte as an expression writes it: the marks of expressions behind a backslash, and a byte
beyond ASCII by its number. -/
def byteExpression (b : UInt8) : Text :=
  if 0x80 ≤ b then '\\' :: 'x' :: Nat.toDigits 16 b.toNat
  else
    let c := Char.ofNat b.toNat
    if "\\.+*?()|[]\x7b\x7d^$#&-~".toList.contains c then ['\\', c] else [c]

/-- A range of bytes as a set of an expression writes it. -/
def rangeExpression (low high : UInt8) : Text :=
  if low = high then byteExpression low
  else byteExpression low ++ '-' :: byteExpression high

mutual

/-- A part as an expression writes it. -/
def partExpression : IgnoreToken → Text
  | .byte b => byteExpression b
  | .any => "[^/]".toList
  | .run => "[^/]*".toList
  | .leading => "(?:/?|.*/)".toList
  | .trailing => "/.*".toList
  | .between => "(?:/|/.*/)".toList
  | .set negated ranges =>
    (if negated then ['[', '^'] else ['[']) ++
      (ranges.flatMap fun r => rangeExpression r.1 r.2) ++ [']']
  | .choice [] => []
  | .choice branches => "(?:".toList ++ Text.join ['|'] (branchExpressions branches) ++ [')']

def rowExpression : List IgnoreToken → Text
  | [] => []
  | t :: tokens => partExpression t ++ rowExpression tokens

def branchExpressions : List (List IgnoreToken) → List Text
  | [] => []
  | branch :: branches => rowExpression branch :: branchExpressions branches

end

def expression (tokens : List IgnoreToken) : Text :=
  "(?-u)^".toList ++ rowExpression tokens ++ ['$']

def isByte : IgnoreToken → Bool
  | .byte _ => true
  | _ => false

/-- What is compared with a path to tell whether a pattern matches it. -/
inductive Comparison where
  /-- A text: the pattern is a path, alone, below any directories or with anything below it. -/
  | text
  /-- First its ending after a dot, and then the expression of the pattern. -/
  | ending
  /-- The expression of the pattern, in one comparison for all such patterns of a file. -/
  | expression
  deriving DecidableEq

/-- What is compared with a path to tell whether a pattern matches it. -/
def comparison (tokens : List IgnoreToken) : Comparison :=
  let isPath (tokens : List IgnoreToken) : Bool := !tokens.isEmpty && tokens.all isByte
  let isBelow := match tokens with
    | .leading :: rest => isPath rest
    | _ => false
  let isAbove := match tokens.reverse with
    | .trailing :: rest => isPath rest
    | _ => false
  let beforeEnding := tokens.reverse.dropWhile fun
    | .byte b => b != slash && b != 0x2E
    | _ => false
  if isPath tokens || isBelow || isAbove then .text
  else
    match beforeEnding with
    | .byte b :: _ => if b = 0x2E then .ending else .expression
    | _ => .expression

/-- What is wrong with the patterns of a file if one of them nests too deep. Those with an ending
are looked at first, and of the others it is their number that is told. -/
def tooDeep? (patterns : List (List IgnoreToken)) : Option Text :=
  let endings := patterns.filter fun p => comparison p = .ending
  let expressions := patterns.filter fun p => comparison p = .expression
  match endings.find? isTooDeep with
  | some p =>
    some ("error parsing glob '".toList ++ expression p ++ "': error parsing pattern 0".toList)
  | none =>
    (expressions.findIdx? isTooDeep).map fun n =>
      "error parsing pattern ".toList ++ Nat.toDigits 10 n

/-! ## Reading -/

/-- Why a pattern is wrong. -/
inductive Problem where
  /-- A range whose ends are in the wrong order. -/
  | range (low high : Char)
  | unopened
  | unclosed
  | danglingEscape

def Problem.message : Problem → Text
  | .range low high =>
    "invalid range; '".toList ++ low :: "' > '".toList ++ high :: "'".toList
  | .unopened =>
    "unopened alternate group; missing '\x7b' (maybe escape '\x7d' with '[\x7d]'?)".toList
  | .unclosed =>
    "unclosed alternate group; missing '\x7d' (maybe escape '\x7b' with '[\x7b]'?)".toList
  | .danglingEscape => "dangling '\\'".toList

/-- The parts that stand for one character: its bytes. -/
def ofChar (c : Char) : List IgnoreToken :=
  (String.utf8EncodeChar c).map .byte

/-- The range of bytes of a range of characters: single characters are all their bytes, and in a
longer range it is the last byte of the first character and the first byte of the last one that
delimit. -/
def byteRanges (low high : Char) : List (UInt8 × UInt8) :=
  let a := String.utf8EncodeChar low
  let b := String.utf8EncodeChar high
  if low = high then a.map fun x => (x, x)
  else
    (a.dropLast.map fun x => (x, x)) ++ (a.getLastD 0, b.headD 0) :: (b.tail.map fun x => (x, x))

/-- The members of a set up to its closing bracket, and what follows it. The answer is none if the
set is not closed. In `members` the last range comes first; `inRange` tells that a hyphen has been
read after it. -/
def setMembers? (members : List (Char × Char)) (first inRange : Bool) :
    Text → Except Problem (Option (List (Char × Char) × Text))
  | [] => .ok none
  | c :: s =>
    if c = ']' && !first then
      .ok (some ((if inRange then ('-', '-') :: members else members).reverse, s))
    else if c = '-' && !first && !inRange then setMembers? members false true s
    else if inRange && c != ']' then
      match members with
      | (low, _) :: earlier =>
        if c < low then .error (.range low c)
        else setMembers? ((low, c) :: earlier) false false s
      | [] => setMembers? [(c, c)] false false s
    else setMembers? ((c, c) :: members) false false s

/-- Whether a part stands for nothing. -/
def isVoid : IgnoreToken → Bool
  | .choice [] => true
  | _ => false

/-- A pattern that has been read up to some character. -/
structure Draft where
  /-- The branches of the choices that are open, the innermost and last one first, and at the end
  the pattern itself; each has its last part first. -/
  branches : List (List IgnoreToken)
  /-- The numbers of the branches below each choice that is open, the innermost one first. -/
  choices : List Nat
  /-- The character before. -/
  before : Option Char
  /-- Whether an unclosed bracket has been met. -/
  plainBrackets : Bool

namespace Draft

/-- Adds parts, the first one first. -/
def push (d : Draft) (tokens : List IgnoreToken) : Draft :=
  match d.branches with
  | [] => d
  | branch :: rest => { d with branches := (tokens.reverse ++ branch) :: rest }

/-- The draft with another character before. -/
def after (d : Draft) (c : Option Char) : Draft :=
  { d with before := c }

/-- The parts of the innermost branch, the last one first. -/
def current (d : Draft) : List IgnoreToken :=
  d.branches.headD []

/-- Adds a double star between or after slashes: it takes in a double star before it. -/
def pushDirectories (d : Draft) (token : IgnoreToken) : Draft :=
  match d.branches with
  | [] => d
  | branch :: rest =>
    let branch := match branch with
      | .leading :: _ => branch
      | .trailing :: _ => branch
      | _ :: earlier => token :: earlier
      | [] => [token]
    { d with branches := branch :: rest }

/-- Closes the innermost choice. Branches that stand for nothing do not count. -/
def closeChoice? (d : Draft) : Option Draft :=
  match d.choices with
  | [] => none
  | below :: choices =>
    let count := d.branches.length - below
    let alternatives :=
      ((d.branches.take count).reverse.filter fun branch => !branch.all isVoid).map List.reverse
    some ({ d with branches := d.branches.drop count, choices }.push [.choice alternatives])

end Draft

/-- Reads a pattern on from a draft. -/
def readFrom (d : Draft) (s : Text) : Except Problem Draft :=
  match s with
  | [] => .ok d
  | c :: s =>
    if c = '?' then readFrom ((d.push [.any]).after (some c)) s
    else if c = '*' then
      match s with
      | '*' :: rest =>
        let next := rest.head?
        if d.current.isEmpty then
          match rest with
          | [] => readFrom ((d.push [.leading]).after none) []
          | '/' :: rest => readFrom ((d.push [.leading]).after (some '/')) rest
          | rest => readFrom ((d.push [.run, .run]).after (some '*')) rest
        else
          let inChoice := 2 ≤ d.branches.length
          let isComponent :=
            d.before = some '/' || (inChoice && (d.before = some ',' || d.before = some '\x7b'))
          if !isComponent then readFrom ((d.push [.run, .run]).after (some '*')) rest
          else if next.isNone then readFrom ((d.pushDirectories .trailing).after none) rest
          else if inChoice && (next = some ',' || next = some '\x7d') then
            readFrom ((d.pushDirectories .trailing).after (some '*')) rest
          else
            match rest with
            | '/' :: rest => readFrom ((d.pushDirectories .between).after (some '/')) rest
            | rest => readFrom ((d.push [.run, .run]).after (some '*')) rest
      | s => readFrom ((d.push [.run]).after (some '*')) s
    else if c = '[' && !d.plainBrackets then
      let (negated, inside) := match s with
        | '!' :: inside => (true, inside)
        | '^' :: inside => (true, inside)
        | inside => (false, inside)
      match setMembers? [] true false inside with
      | .error p => .error p
      | .ok none => readFrom { (d.push (ofChar '[')).after (some '[') with plainBrackets := true } s
      | .ok (some (members, rest)) =>
        if _h : rest.length ≤ s.length then
          readFrom ((d.push [.set negated (members.flatMap fun (a, b) => byteRanges a b)]).after
            (some ']')) rest
        else .ok d
    else if c = '\x7b' then
      let d := { d with branches := [] :: d.branches, choices := d.branches.length :: d.choices }
      readFrom (d.after (some c)) s
    else if c = '\x7d' then
      match d.closeChoice? with
      | none => .error .unopened
      | some d => readFrom (d.after (some c)) s
    else if c = ',' && !d.choices.isEmpty then
      readFrom ({ d with branches := [] :: d.branches }.after (some c)) s
    else if c = '\\' then
      match s with
      | [] => .error .danglingEscape
      | e :: s => readFrom ((d.push (ofChar e)).after (some e)) s
    else readFrom ((d.push (ofChar c)).after (some c)) s
termination_by s.length
decreasing_by
  all_goals
    simp only [List.length_cons, List.length_nil]
    omega

def ofText (s : Text) : Except Problem (List IgnoreToken) := do
  let d ← readFrom ⟨[[]], [], none, false⟩ s
  match d.branches with
  | [branch] => return branch.reverse
  | _ => throw .unclosed

end IgnoreToken

end PropCatalog.Pattern
