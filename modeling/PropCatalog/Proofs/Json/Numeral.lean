import PropCatalog.Json.Token
import PropCatalog.Proofs.Binary64.Nearest

/-!
# What a numeral denotes

A numeral denotes a significand times a power of ten. An integer of 64 bits denotes itself, and for
the other numerals `Numeral.Denotes` leaves it to a rounding which double precision numbers they
denote. One rounding takes the nearest number (`Numeral.Nearest`).
-/

namespace PropCatalog.Json

open Binary64 (ofRatio? IsNearest)

variable {n : Numeral} {x y : Binary64}

namespace Numeral

/-- All digits but those of the exponent, as one number. -/
def significand (n : Numeral) : Nat :=
  Nat.ofDigitChars 10 (n.whole ++ n.fraction.getD []) 0

theorem significand_of_fraction_eq_none {n : Numeral} (h : n.fraction = none) :
    n.significand = Nat.ofDigitChars 10 n.whole 0 := by
  rw [significand, h, Option.getD_none, List.append_nil]

/-- The significand with the sign of the numeral. -/
def signed (n : Numeral) : Int :=
  if n.negative then -n.significand else n.significand

/-- The value of an exponent. -/
def exponentValue : Option (Bool × Text) → Int
  | none => 0
  | some (below, digits) =>
    if below then -(Nat.ofDigitChars 10 digits 0 : Int) else Nat.ofDigitChars 10 digits 0

/-- The power of ten that the significand is multiplied with. -/
def power (n : Numeral) : Int := exponentValue n.exponent - (n.fraction.getD []).length

/-- An integer whose digits fit into 64 bits. -/
def IsWord (n : Numeral) : Prop :=
  n.fraction = none ∧ n.exponent = none ∧ n.significand < Word64.limit

instance (n : Numeral) : Decidable n.IsWord :=
  inferInstanceAs (Decidable (n.fraction = none ∧ n.exponent = none ∧
    n.significand < Word64.limit))

/-- An integer of 64 bits, with a sign if it is negative; the negative zero is none. -/
def Fits (n : Numeral) : Prop :=
  n.IsWord ∧ (n.negative = true → 0 < n.significand ∧ n.significand ≤ Word64.signedLimit)

instance (n : Numeral) : Decidable n.Fits :=
  inferInstanceAs (Decidable (n.IsWord ∧
    (n.negative = true → 0 < n.significand ∧ n.significand ≤ Word64.signedLimit)))

/-- Tells for a numeral the double precision numbers that its value is rounded to. -/
abbrev Rounding := Numeral → Binary64 → Prop

/-- An integer that fits denotes itself, and another numeral what its value is rounded to. -/
inductive Denotes (rounding : Rounding) (n : Numeral) : Number → Prop
  | int (h : n.Fits) : Denotes rounding n (.int n.signed)
  | float {x : Binary64} (h : ¬ n.Fits) (hx : rounding n x) : Denotes rounding n (.float x)

/-! ## The nearest number -/

/-- The number nearest to the value of the numeral, with the sign of the numeral. -/
def Nearest (n : Numeral) (x : Binary64) : Prop :=
  x.negative = n.negative ∧ IsNearest (n.significand * 10 ^ n.power) x

/-- The number nearest to the value of a numeral; none if it is too large. -/
def nearest? (n : Numeral) : Option Binary64 :=
  Binary64.ofDecimal? n.negative n.significand n.power

theorem nearest?_eq_some_iff : n.nearest? = some x ↔ n.Nearest x :=
  Binary64.ofDecimal?_eq_some_iff

/-! ## Integers -/

theorem isWord_iff : n.IsWord ↔ (n.fraction.isNone && n.exponent.isNone &&
    Nat.ofDigitChars 10 n.whole 0 < Word64.limit) = true := by
  obtain ⟨negative, whole, fraction, exponent⟩ := n
  cases fraction <;> cases exponent <;> simp [IsWord, significand]

theorem IsWord.value?_eq (h : n.IsWord) : n.value? =
    if !n.negative then some (.int n.significand)
    else if 0 < n.significand && n.significand ≤ Word64.signedLimit then
      some (.int (-n.significand))
    else (ofRatio? true n.significand 1).map .float := by
  rw [value?, if_pos (isWord_iff.1 h), significand_of_fraction_eq_none h.1]

theorem Fits.value?_eq (h : n.Fits) : n.value? = some (.int n.signed) := by
  rw [h.1.value?_eq, signed]
  cases hnegative : n.negative with
  | false => rfl
  | true =>
    obtain ⟨hpos, hle⟩ := h.2 hnegative
    simp [hpos, hle]

theorem IsWord.value?_eq_of_not_fits (h : n.IsWord) (hfits : ¬ n.Fits) : n.negative = true ∧
    n.value? = (ofRatio? n.negative n.significand 1).map .float := by
  have hnegative : n.negative = true := by
    by_contra hpositive
    exact hfits ⟨h, fun hnegative => absurd hnegative hpositive⟩
  have hbounds : ¬ (0 < n.significand && n.significand ≤ Word64.signedLimit) = true :=
    fun hbounds => hfits ⟨h, fun _ => by simpa using hbounds⟩
  refine ⟨hnegative, ?_⟩
  rw [h.value?_eq, hnegative, if_neg hbounds]
  rfl

theorem value?_of_not_isWord (h : ¬ n.IsWord) : n.value? = n.float?.map .float := by
  rw [value?, if_neg (mt isWord_iff.2 h)]

theorem IsWord.power_eq (h : n.IsWord) : n.power = 0 := by
  rw [power, h.1, h.2.1]
  rfl

theorem IsWord.nearest?_eq (h : n.IsWord) : n.nearest? = ofRatio? n.negative n.significand 1 := by
  ext x
  rw [nearest?_eq_some_iff, Binary64.ofRatio?_eq_some_iff Nat.one_pos, Nearest, h.power_eq,
    zpow_zero, mul_one, Nat.cast_one, div_one]

end Numeral

/-! ## Whole numbers -/

theorem Number.wholeToInt_eq_int_iff {k : Int} :
    Number.wholeToInt (.float x) = .int k ↔ x.Equals k ∧ k.natAbs ≤ 2 ^ 53 - 1 := by
  constructor
  · intro h
    have hwhole := wholeAsInt_wholeToInt (.float x)
    rw [h] at hwhole
    cases hwhole with
    | whole hx hk => exact ⟨hx, hk⟩
  · rintro ⟨hx, hk⟩
    have hsafe : (some k).filter (fun n => n.natAbs ≤ maxSafe) = some k := by
      exact Option.filter_some.trans (if_pos (decide_eq_true hk))
    rw [wholeToInt, Binary64.toInt?_eq_some_iff.2 hx, hsafe]
    rfl

theorem Number.wholeToInt_float_inj (hsign : x.negative = y.negative) :
    Number.wholeToInt (.float x) = Number.wholeToInt (.float y) ↔ x = y := by
  refine ⟨fun h => ?_, fun h => by rw [h]⟩
  have hwhole := wholeAsInt_wholeToInt (.float x)
  generalize hr : wholeToInt (.float x) = r at hwhole
  cases hwhole with
  | whole hx hk =>
    exact Binary64.eq_of_equals hsign hx (wholeToInt_eq_int_iff.1 (h.symm.trans hr)).1
  | float =>
    have hwhole' := wholeAsInt_wholeToInt (.float y)
    rw [← h, hr] at hwhole'
    cases hwhole'
    rfl

end PropCatalog.Json
