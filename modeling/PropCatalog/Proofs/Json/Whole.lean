import Mathlib.Algebra.Group.Nat.Defs
import Mathlib.Data.List.Forall2
import PropCatalog.Json.Value

/-!
# Whole numbers as integers

A double precision number may be an integer, and `Value.wholeToInt` turns those of safe size into
integers wherever they stand in a value. `Value.WholesAsInts` says what that means, with the
equality of a number and an integer as an equation between integers (`Binary64.Equals`).
-/

namespace PropCatalog

namespace Binary64

variable {x : Binary64} {n : Int}

/-- The number is the integer `n`. -/
def Equals (x : Binary64) (n : Int) : Prop :=
  n * x.denominator = if x.negative then -(x.numerator : Int) else x.numerator

theorem denominator_pos (x : Binary64) : 0 < x.denominator :=
  Nat.pow_pos (by decide)

theorem equals_zero (negative : Bool) : (zero negative).Equals 0 := by
  have hsignificand : (zero negative).significand = 0 := Nat.zero_sub _
  rw [Equals, numerator, hsignificand, Nat.zero_mul, Int.zero_mul]
  cases negative <;> rfl

theorem toInt?_eq_some_iff : x.toInt? = some n ↔ x.Equals n := by
  have hpos : (0 : Int) < x.denominator := Int.natCast_pos.2 x.denominator_pos
  rw [toInt?, Equals]
  by_cases hdvd : x.numerator % x.denominator = 0
  · obtain ⟨q, hq⟩ := Nat.dvd_of_mod_eq_zero hdvd
    have hdiv : (x.numerator : Int) / x.denominator = q := by
      rw [hq, Int.natCast_mul, Int.mul_ediv_cancel_left _ (Int.ne_of_gt hpos)]
    have hnum : (x.numerator : Int) = q * x.denominator := by
      rw [hq, Int.natCast_mul, Int.mul_comm]
    simp only [if_pos hdvd, hdiv, Option.some.injEq]
    rw [hnum]
    cases x.negative with
    | true =>
      rw [if_pos rfl, if_pos rfl, ← Int.neg_mul, Int.mul_eq_mul_right_iff (Int.ne_of_gt hpos)]
      exact eq_comm
    | false =>
      rw [if_neg (by simp), if_neg (by simp), Int.mul_eq_mul_right_iff (Int.ne_of_gt hpos)]
      exact eq_comm
  · rw [if_neg hdvd]
    refine iff_of_false (by simp) fun h => hdvd ?_
    have hdvd' : (x.denominator : Int) ∣ x.numerator := by
      split at h
      · exact Int.dvd_neg.1 ⟨n, by rw [← h, Int.mul_comm]⟩
      · exact ⟨n, by rw [← h, Int.mul_comm]⟩
    exact Nat.mod_eq_zero_of_dvd (Int.natCast_dvd_natCast.1 hdvd')

end Binary64

namespace Json

/-- A number with whole numbers of safe size as integers. -/
inductive Number.WholeAsInt : Number → Number → Prop
  | int {n : Int} : WholeAsInt (.int n) (.int n)
  | whole {x : Binary64} {n : Int} (hx : x.Equals n) (hn : n.natAbs ≤ 2 ^ 53 - 1) :
      WholeAsInt (.float x) (.int n)
  | float {x : Binary64} (hx : ∀ n : Int, x.Equals n → 2 ^ 53 - 1 < n.natAbs) :
      WholeAsInt (.float x) (.float x)

theorem Number.maxSafe_eq : Number.maxSafe = 2 ^ 53 - 1 := rfl

theorem Number.wholeAsInt_wholeToInt (n : Number) : n.WholeAsInt n.wholeToInt := by
  cases n with
  | int n => exact .int
  | float x =>
    rw [wholeToInt, maxSafe_eq]
    cases h : x.toInt? with
    | none =>
      refine .float fun n hn => ?_
      rw [Binary64.toInt?_eq_some_iff.2 hn] at h
      cases h
    | some n =>
      by_cases hn : n.natAbs ≤ 2 ^ 53 - 1
      · rw [Option.filter_some, if_pos (by simpa using hn)]
        exact .whole (Binary64.toInt?_eq_some_iff.1 h) hn
      · rw [Option.filter_some, if_neg (by simpa using hn)]
        refine .float fun m hm => ?_
        obtain rfl := Option.some.inj (h.symm.trans (Binary64.toInt?_eq_some_iff.2 hm))
        omega

/-- A value with its whole numbers of safe size as integers, at every depth. -/
inductive Value.WholesAsInts : Value → Value → Prop
  | number {n m : Number} (h : n.WholeAsInt m) :
      WholesAsInts (.scalar (.number n)) (.scalar (.number m))
  | scalar {x : Scalar} (hx : ∀ n, x ≠ .number n) : WholesAsInts (.scalar x) (.scalar x)
  | array {items items' : List Value} (h : List.Forall₂ WholesAsInts items items') :
      WholesAsInts (.array items) (.array items')
  | object {fields fields' : List (Text × Value)}
      (hnames : fields.map Prod.fst = fields'.map Prod.fst)
      (h : List.Forall₂ WholesAsInts (fields.map Prod.snd) (fields'.map Prod.snd)) :
      WholesAsInts (.object fields) (.object fields')

namespace Value

theorem map_fst_wholeToIntFields (fields : List (Text × Value)) :
    (wholeToIntFields fields).map Prod.fst = fields.map Prod.fst := by
  induction fields with
  | nil => rfl
  | cons field fields ih => rw [wholeToIntFields, List.map_cons, ih, List.map_cons]

mutual

/-- Every whole number of safe size becomes an integer, and nothing else changes. -/
theorem wholesAsInts_wholeToInt : (v : Value) → v.WholesAsInts v.wholeToInt
  | .scalar (.number n) => .number n.wholeAsInt_wholeToInt
  | .scalar .null => .scalar (by simp)
  | .scalar (.bool _) => .scalar (by simp)
  | .scalar (.string _) => .scalar (by simp)
  | .array items => .array (forall₂_wholeToIntItems items)
  | .object fields =>
    .object (map_fst_wholeToIntFields fields).symm (forall₂_wholeToIntFields fields)

theorem forall₂_wholeToIntItems : (items : List Value) →
    List.Forall₂ WholesAsInts items (wholeToIntItems items)
  | [] => .nil
  | v :: rest => .cons (wholesAsInts_wholeToInt v) (forall₂_wholeToIntItems rest)

theorem forall₂_wholeToIntFields : (fields : List (Text × Value)) →
    List.Forall₂ WholesAsInts (fields.map Prod.snd) ((wholeToIntFields fields).map Prod.snd)
  | [] => .nil
  | (_, v) :: rest => .cons (wholesAsInts_wholeToInt v) (forall₂_wholeToIntFields rest)

end

end Value

end Json

end PropCatalog
