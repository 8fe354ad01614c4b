import PropCatalog.Text.Basic

/-!
# TOML values

The values of a TOML document. Numbers and dates are kept as they are written: a number has a value
only for who asks for it, so an integer that is never asked for may have digits that its base lacks.
-/

namespace PropCatalog.Toml

/-- A TOML value. -/
inductive Value where
  | string (value : Text)
  /-- An integer, with a sign before its digits or not. -/
  | integer (base : Nat) (digits : Text)
  /-- A number with a fraction or an exponent, an infinity or a value that is no number. -/
  | float (written : Text)
  | boolean (value : Bool)
  /-- A date, a time or both. -/
  | dateTime (written : Text)
  | array (items : List Value)
  | table (entries : List (Text × Value))

/-- The value of a digit, a letter counting from ten. -/
def digit? (base : Nat) (c : Char) : Option Nat :=
  let n :=
    if c.isDigit then c.toNat - 48
    else if 'a' ≤ c && c ≤ 'z' then c.toNat - 87
    else if 'A' ≤ c && c ≤ 'Z' then c.toNat - 55
    else base
  if n < base then some n else none

def digits? (base : Nat) : Text → Option Nat
  | [] => none
  | s => s.foldlM (fun n c => (digit? base c).map (n * base + ·)) 0

/-- The value of an integer as it is written. -/
def Value.integer? (base : Nat) : (written : Text) → Option Int
  | '-' :: s => (digits? base s).map fun n => -(n : Int)
  | '+' :: s => (digits? base s).map Int.ofNat
  | s => (digits? base s).map Int.ofNat

/-- The value of a key in a list of entries. -/
def get? (key : Text) (entries : List (Text × Value)) : Option Value :=
  entries.lookup key

end PropCatalog.Toml
