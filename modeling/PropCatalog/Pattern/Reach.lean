/-!
# Which prefixes a pattern matches

A pattern is matched part by part against one sequence `s`. After some parts, a row of truth values
tells for every prefix of `s`, the empty one first, whether those parts can match it; the row is one
longer than `s`. Each kind of part turns a row into the next one in a single pass, so a match takes
time in proportion to the parts and the sequence, however many ways there are to match.
-/

namespace PropCatalog.Pattern

/-- For every prefix of a sequence, the empty one first, whether it can be matched. -/
abbrev Reach := List Bool

namespace Reach

variable {α : Type}

/-- The row before the first part: only the empty prefix is matched. -/
def start (s : List α) : Reach :=
  true :: s.map fun _ => false

/-- The row in which nothing is matched. -/
def nowhere (reach : Reach) : Reach :=
  reach.map fun _ => false

/-- The row after one element that satisfies `p`. -/
def one (p : α → Bool) (s : List α) (reach : Reach) : Reach :=
  false :: List.zipWith (fun c r => r && p c) s reach

/-- The row after any run of elements that satisfy `p`; `going` tells whether a run has come up to
the head of `s`. -/
def run (p : α → Bool) (going : Bool) : List α → Reach → Reach
  | _, [] => []
  | [], r :: _ => [going || r]
  | c :: s, r :: reach => (going || r) :: run p ((going || r) && p c) s reach

/-- The row after any number of stretches that end with an element satisfying `p`: a prefix is
matched if it was before, or if it ends with such an element and a shorter one was matched. `seen`
tells whether a shorter one was, and `behind` whether such an element stands before the head of
`s`. -/
def stretches (p : α → Bool) (seen behind : Bool) : List α → Reach → Reach
  | _, [] => []
  | [], r :: _ => [r || (seen && behind)]
  | c :: s, r :: reach => (r || (seen && behind)) :: stretches p (seen || r) (p c) s reach

/-- The row in which the whole sequence is matched too if anything is. -/
def orWhole (reach : Reach) : Reach :=
  if reach.any id then reach.dropLast ++ [true] else reach

/-- The row of what one of two rows matches. -/
def either (a b : Reach) : Reach :=
  List.zipWith (· || ·) a b

/-- Whether the whole sequence is matched. -/
def isWhole (reach : Reach) : Bool :=
  reach.getLast?.getD false

end Reach

end PropCatalog.Pattern
