/-!
# Ranges of code points

Properties of characters are given as increasing lists of closed ranges of code points.
-/

namespace PropCatalog.Text

/-- The code point `n` lies in one of the closed ranges; the ranges increase, so the search ends at
the first one that starts above `n`. -/
def inRanges (n : Nat) : List (Nat × Nat) → Bool
  | [] => false
  | (low, high) :: rest => if n < low then false else n ≤ high || inRanges n rest

end PropCatalog.Text
