/-!
# Double precision numbers

The finite numbers of the binary64 format, with exact arithmetic: a result is first a quotient of
natural numbers and is then rounded to the nearest number of the format, ties to the even one. The
magnitudes are coded by their rank, so that the code 0 is zero, the code 1 the smallest positive
number, and the order of the codes is the order of the magnitudes.
-/

namespace PropCatalog

/-- The number of magnitudes between a power of two and the next one: two to the power 52. -/
def Binary64.binade : Nat := 4503599627370496

/-- The number of finite magnitudes. -/
def Binary64.codeLimit : Nat := 2047 * Binary64.binade

/-- A finite double precision number. -/
structure Binary64 where
  /-- The sign, which zero has too. -/
  negative : Bool
  /-- The rank of the magnitude. -/
  code : Fin Binary64.codeLimit
  deriving DecidableEq, Repr

namespace Binary64

/-- The magnitude is `significand * 2 ^ (scale - 1074)`. -/
def scale (x : Binary64) : Nat :=
  x.code.val / binade - 1

/-- The integer part of the magnitude in units of `2 ^ (scale - 1074)`. -/
def significand (x : Binary64) : Nat :=
  x.code.val - x.scale * binade

/-- The numerator of the magnitude as a quotient of natural numbers. -/
def numerator (x : Binary64) : Nat :=
  x.significand * Nat.pow 2 (x.scale - 1074)

/-- The denominator of the magnitude as a quotient of natural numbers. -/
def denominator (x : Binary64) : Nat :=
  Nat.pow 2 (1074 - x.scale)

/-- The quotient of `a` by `b` rounded to the nearest natural number, a half to the even one. -/
def divEven (a b : Nat) : Nat :=
  let q := a / b
  let twice := 2 * (a % b)
  if twice < b then q else if twice = b then q + q % 2 else q + 1

/-- The number of binary digits before the point in `a / b`, less one; negative when there are
none. -/
def binaryExponent (a b : Nat) : Int :=
  let e : Int := (Nat.log2 a : Int) - (Nat.log2 b : Int)
  if a * Nat.pow 2 (-e).toNat < b * Nat.pow 2 e.toNat then e - 1 else e

/-- The rank of the magnitude nearest to `a / b`; it is at least `codeLimit` when the quotient is
too large for the format. -/
def nearestCode (a b : Nat) : Nat :=
  if a = 0 then 0
  else
    let scale := (binaryExponent a b + 1022).toNat
    scale * binade + divEven (a * Nat.pow 2 (1074 - scale)) (b * Nat.pow 2 (scale - 1074))

/-- The number nearest to `a / b` with the given sign; none when it is too large. -/
def ofRatio? (negative : Bool) (a b : Nat) : Option Binary64 :=
  if h : nearestCode a b < codeLimit then some ⟨negative, nearestCode a b, h⟩ else none

/-- The product of two numbers; none when it is too large. -/
def mul? (x y : Binary64) : Option Binary64 :=
  ofRatio? (x.negative != y.negative) (x.numerator * y.numerator) (x.denominator * y.denominator)

def div? (x y : Binary64) : Option Binary64 :=
  ofRatio? (x.negative != y.negative) (x.numerator * y.denominator) (x.denominator * y.numerator)

def zero (negative : Bool) : Binary64 :=
  ⟨negative, 0, by decide⟩

def isZero (x : Binary64) : Bool :=
  x.code.val = 0

/-- The number with the sign turned to the given one. -/
def withSign (x : Binary64) (negative : Bool) : Binary64 :=
  { x with negative }

/-- The number as an integer; none if it has a fraction. Both zeros are the integer zero. -/
def toInt? (x : Binary64) : Option Int :=
  if x.numerator % x.denominator = 0 then
    let n : Int := x.numerator / x.denominator
    some (if x.negative then -n else n)
  else none

/-- The number nearest to `digits * 10 ^ exponent`. Exponents far out of the range of the format
are settled by the number of digits alone. -/
def ofDecimal? (negative : Bool) (digits : Nat) (exponent : Int) : Option Binary64 :=
  let places : Int := (Nat.toDigits 10 digits).length
  if digits = 0 then some (zero negative)
  else if 310 < places + exponent then none
  else if places + exponent < -330 then some (zero negative)
  else ofRatio? negative (digits * Nat.pow 10 exponent.toNat) (Nat.pow 10 (-exponent).toNat)

end Binary64

end PropCatalog
