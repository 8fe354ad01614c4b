import PropCatalog.Binary64
import PropCatalog.Text.Basic

/-!
# Numbers in JSON

A number is an integer or a double precision number. An integer is written by its digits. A double
is written by the fewest significant digits that read back as the same number, and of those by the
nearest ones; the layout of the digits is fixed by `Number.plainRange`.
-/

namespace PropCatalog.Json

/-- A number of a JSON value. -/
inductive Number where
  | int (value : Int)
  | float (value : Binary64)
  deriving DecidableEq, Repr

namespace Number

/-- The digits of an integer, with a minus sign in front of a negative one. -/
def intText (n : Int) : Text :=
  if n < 0 then '-' :: Nat.toDigits 10 n.natAbs else Nat.toDigits 10 n.natAbs

/-! ## The shortest digits -/

/-- The interval of the numbers that read back as a positive `x`, as three numerators over one
denominator: its lower end, `x` itself and its upper end. -/
structure Interval where
  low : Nat
  mid : Nat
  high : Nat
  unit : Nat
  /-- Whether the ends belong to the interval. -/
  closed : Bool

/-- The interval of the numbers that read back as `x`. Its ends lie half way to the neighbours, and
the neighbour below a power of two is only half as far as the one above. -/
def interval (x : Binary64) : Interval :=
  let m := x.significand
  let power := Nat.pow 2 (x.scale - 1074)
  { low := (if m = Binary64.binade && x.scale != 0 then 4 * m - 1 else 4 * m - 2) * power
    mid := 4 * m * power
    high := (4 * m + 2) * power
    unit := 4 * x.denominator
    closed := m % 2 = 0 }

/-- Whether `n * 10 ^ e` lies in the interval. -/
def Interval.holds (i : Interval) (n : Nat) (e : Int) : Bool :=
  let value := n * Nat.pow 10 e.toNat * i.unit
  let scaled := Nat.pow 10 (-e).toNat
  if i.closed then i.low * scaled ≤ value && value ≤ i.high * scaled
  else i.low * scaled < value && value < i.high * scaled

/-- The point of the grid `n * 10 ^ e` that lies in the interval and is nearest to its middle; of
two equally near ones the even one. Only the two grid points around the middle can be nearest. -/
def Interval.gridPoint? (i : Interval) (e : Int) : Option Nat :=
  let a := i.mid * Nat.pow 10 (-e).toNat
  let b := i.unit * Nat.pow 10 e.toNat
  let below := a / b
  match i.holds below e, i.holds (below + 1) e with
  | true, true => some (Binary64.divEven a b)
  | true, false => some below
  | false, true => some (below + 1)
  | false, false => none

/-- The decimal exponent of the first digit of `a / b`, for a quotient above `10 ^ (-400)`. -/
def decimalExponent (a b : Nat) : Int :=
  (Nat.toDigits 10 (a * Nat.pow 10 400 / b)).length - 401

/-- The first grid, from the coarsest on, that has a point in the interval: the digits and the
exponent of the last one. -/
def Interval.shortest (i : Interval) (first : Int) : (grids : List Nat) → Nat × Int
  | [] => (0, 0)
  | places :: grids =>
    let e := first - places
    match i.gridPoint? e with
    | some n => (n, e)
    | none => i.shortest first grids

/-- The digits of `n` without the zeros at its end, and the number of those zeros. -/
def significantDigits (n : Nat) : Text × Nat :=
  let digits := Nat.toDigits 10 n
  let kept := (digits.reverse.dropWhile (· = '0')).reverse
  (kept, digits.length - kept.length)

/-! ## The layout of the digits -/

/-- The decimal exponents of the first digit for which a number is written without an exponent. -/
def plainRange (e : Int) : Bool :=
  -5 ≤ e && e ≤ 15

/-- Lays out the digits of a number whose first digit has the decimal exponent `e`. Without an
exponent there is a digit on both sides of the point; with one there is a point only before further
digits, and the exponent has a sign. -/
def layout (digits : Text) (e : Int) : Text :=
  if plainRange e then
    if e < 0 then "0.".toList ++ List.replicate (-e - 1).toNat '0' ++ digits
    else
      let whole := e.toNat + 1
      let padded := digits ++ List.replicate (whole - digits.length) '0'
      let fraction := padded.drop whole
      padded.take whole ++ '.' :: (if fraction.isEmpty then ['0'] else fraction)
  else
    let exponent := 'e' :: (if e < 0 then '-' else '+') :: Nat.toDigits 10 e.natAbs
    match digits with
    | d :: more@(_ :: _) => d :: '.' :: more ++ exponent
    | _ => digits ++ exponent

def floatText (x : Binary64) : Text :=
  let magnitude :=
    if x.isZero then "0.0".toList
    else
      let first := decimalExponent x.numerator x.denominator
      let (n, e) := (interval x).shortest first (List.range 18)
      let (digits, zeros) := significantDigits n
      layout digits (e + zeros + digits.length - 1)
  if x.negative then '-' :: magnitude else magnitude

def text : Number → Text
  | .int n => intText n
  | .float x => floatText x

/-! ## Whole numbers -/

/-- The largest integer up to which every integer is a double precision number of its own. -/
def maxSafe : Nat := 9007199254740991

/-- A whole double precision number of safe size becomes an integer; other numbers stay. -/
def wholeToInt : Number → Number
  | .int n => .int n
  | .float x => ((x.toInt?.filter fun n => n.natAbs ≤ maxSafe).map .int).getD (.float x)

end Number

end PropCatalog.Json
