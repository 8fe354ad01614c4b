import PropCatalog.Pattern.Reach
import PropCatalog.Text.Basic

/-!
# Glob patterns

A pattern selects paths. `?` stands for any character, `*` for any run of characters, both also for
slashes; `[...]` and `[!...]` stand for a character in or not in a set with ranges; and `**` as a
whole component stands for any number of directories. A pattern matches whole paths.
-/

namespace PropCatalog.Pattern

/-- A member of a set: the characters of a closed range. -/
structure CharRange where
  low : Char
  high : Char
  deriving DecidableEq, Repr

/-- Whether a character is in one of the ranges. -/
def CharRange.holds (ranges : List CharRange) (c : Char) : Bool :=
  ranges.any fun r => r.low ≤ c && c ≤ r.high

namespace Glob

/-- A part of a pattern. -/
inductive Token where
  | char (c : Char)
  | any
  /-- Any run of characters. -/
  | run
  /-- Any number of directories. -/
  | directories
  /-- A character of a set, or one that is not in it. -/
  | set (negated : Bool) (ranges : List CharRange)
  deriving DecidableEq, Repr

/-- Why a pattern is wrong; the position is the number of a character. -/
inductive Problem where
  /-- A run of three or more stars. -/
  | wildcards (position : Nat)
  /-- A double star next to another character than a slash. -/
  | recursion (position : Nat)
  /-- A set that is not closed. -/
  | range (position : Nat)
  deriving DecidableEq, Repr

def Problem.message (p : Problem) : Text :=
  let (position, what) := match p with
    | .wildcards n => (n, "wildcards are either regular \x60*\x60 or recursive \x60**\x60")
    | .recursion n => (n, "recursive wildcards must form a single path component")
    | .range n => (n, "invalid range pattern")
  "Pattern syntax error near position ".toList ++ Nat.toDigits 10 position ++ ": ".toList ++
    what.toList

/-- The ranges of the text inside a set: `a-b` is a range and any other character is itself. -/
def ranges : Text → List CharRange
  | a :: '-' :: b :: s => ⟨a, b⟩ :: ranges s
  | a :: s => ⟨a, a⟩ :: ranges s
  | [] => []

/-- Reads a set after its opening bracket. The first character inside is a member even if it is a
closing bracket. -/
def set? (s : Text) : Option (Token × Text) :=
  let (negated, s) := match s with
    | '!' :: s => (true, s)
    | s => (false, s)
  match s with
  | [] => none
  | c :: s =>
    (Text.cut? [']'] s).map fun (inside, rest) => (.set negated (ranges (c :: inside)), rest)

/-- Adds a double star, unless it follows another one after the first token. -/
def addDirectories (tokens : List Token) : List Token :=
  match tokens with
  | .directories :: _ :: _ => tokens
  | _ => .directories :: tokens

/-- Reads the tokens from the position `position` on, where `before` is the character before and
`tokens` has the tokens so far, the last one first. -/
def tokensFrom (tokens : List Token) (position : Nat) (before : Option Char) (s : Text) :
    Except Problem (List Token) :=
  match s with
  | [] => .ok tokens.reverse
  | '*' :: '*' :: '*' :: _ => .error (.wildcards (position + 2))
  | '*' :: '*' :: [] =>
    if position = 0 || before = some '/' then .ok (addDirectories tokens).reverse
    else .error (.recursion (position - 1))
  | '*' :: '*' :: c :: s =>
    if position = 0 || before = some '/' then
      if c = '/' then tokensFrom (addDirectories tokens) (position + 3) (some '/') s
      else .error (.recursion (position + 2))
    else .error (.recursion (position - 1))
  | '*' :: s => tokensFrom (.run :: tokens) (position + 1) (some '*') s
  | '?' :: s => tokensFrom (.any :: tokens) (position + 1) (some '?') s
  | '[' :: s =>
    match set? s with
    | none => .error (.range position)
    | some (token, rest) =>
      if _h : rest.length ≤ s.length then
        tokensFrom (token :: tokens) (position + 1 + (s.length - rest.length)) (some ']') rest
      else .error (.range position)
  | c :: s => tokensFrom (.char c :: tokens) (position + 1) (some c) s
termination_by s.length
decreasing_by
  all_goals
    simp only [List.length_cons]
    omega

/-- Which prefixes of a path are matched after one more token. Directories also take in a whole
path. -/
def Token.next (path : Text) (reach : Reach) : Token → Reach
  | .char c => reach.one (· = c) path
  | .any => reach.one (fun _ => true) path
  | .set negated ranges => reach.one (fun c => CharRange.holds ranges c != negated) path
  | .run => Reach.run (fun _ => true) false path reach
  | .directories => (Reach.stretches (· = '/') false false path reach).orWhole

end Glob

/-- A glob pattern. -/
structure Glob where
  tokens : List Glob.Token

namespace Glob

def ofText (s : Text) : Except Problem Glob := do
  return ⟨← tokensFrom [] 0 none s⟩

def isMatch (glob : Glob) (path : Text) : Bool :=
  (glob.tokens.foldl (Token.next path) (Reach.start path)).isWhole

end Glob

end PropCatalog.Pattern
