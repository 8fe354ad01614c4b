import Mathlib.Algebra.Order.Field.Power
import Mathlib.Algebra.Order.Field.Rat
import Mathlib.Data.Int.Log
import Mathlib.Data.Rat.Floor
import Mathlib.Order.Monotone.Basic
import Mathlib.Tactic.FieldSimp
import Mathlib.Tactic.Linarith
import Mathlib.Tactic.Positivity
import Mathlib.Tactic.Ring
import PropCatalog.Proofs.Json.Whole

/-!
# The magnitudes of double precision numbers

The rank of a magnitude is its place in the order of all of them. `magnitudeAt` gives every rank its
magnitude, strictly increasing (`strictMono_magnitudeAt`) and also beyond the last finite number; so
numbers with the same magnitude are the same but for the sign (`eq_of_magnitude_eq`). The natural
numbers below two to the power 53 are numbers of the format (`exists_magnitude_eq_natural`).
-/

namespace PropCatalog.Binary64

variable {a b c k m s : Nat} {x y : Binary64}

/-! ## The binary exponent -/

theorem quotient_lt_zpow_iff (hb : 0 < b) (e : Int) :
    a * Nat.pow 2 (-e).toNat < b * Nat.pow 2 e.toNat ↔ (a : ℚ) / b < 2 ^ e := by
  have hb : (0 : ℚ) < b := Nat.cast_pos.2 hb
  rcases Int.eq_nat_or_neg e with ⟨n, rfl | rfl⟩
  · rw [zpow_natCast, div_lt_iff₀ hb, Int.toNat_natCast, show (-(n : Int)).toNat = 0 by omega,
      ← Nat.cast_lt (α := ℚ)]
    simp [mul_comm]
  · rw [zpow_neg, zpow_natCast, div_lt_iff₀ hb, neg_neg, Int.toNat_natCast,
      show (-(n : Int)).toNat = 0 by omega, ← Nat.cast_lt (α := ℚ), inv_mul_eq_div,
      lt_div_iff₀ (by positivity)]
    simp

theorem zpow_two_sub (m n : Nat) : (2 : ℚ) ^ ((m : Int) - n) = 2 ^ m / 2 ^ n := by
  rw [zpow_sub₀ two_ne_zero, zpow_natCast, zpow_natCast]

theorem zpow_ten_eq (e : Int) : (10 : ℚ) ^ e = 10 ^ e.toNat / 10 ^ (-e).toNat := by
  rw [← zpow_natCast, ← zpow_natCast, ← zpow_sub₀ (by norm_num)]
  congr 1
  omega

theorem log_lt_iff {q : ℚ} (hq : 0 < q) (e : Int) : Int.log 2 q < e ↔ q < 2 ^ e :=
  (Int.lt_zpow_iff_log_lt (b := 2) (by decide) hq).symm.trans (by rw [Nat.cast_ofNat])

theorem le_log_iff {q : ℚ} (hq : 0 < q) (e : Int) : e ≤ Int.log 2 q ↔ (2 : ℚ) ^ e ≤ q :=
  (Int.zpow_le_iff_le_log (b := 2) (by decide) hq).symm.trans (by rw [Nat.cast_ofNat])

theorem binaryExponent_eq_log (ha : 0 < a) (hb : 0 < b) :
    binaryExponent a b = Int.log 2 ((a : ℚ) / b) := by
  have hb' : (0 : ℚ) < b := Nat.cast_pos.2 hb
  have hpos : (0 : ℚ) < (a : ℚ) / b := div_pos (Nat.cast_pos.2 ha) hb'
  have hupper : ((a : ℚ) / b) < 2 ^ ((Nat.log2 a : Int) - Nat.log2 b + 1) := by
    have ha : (a : ℚ) < 2 ^ (Nat.log2 a + 1) := by exact_mod_cast Nat.lt_log2_self
    have hb : (2 : ℚ) ^ Nat.log2 b ≤ b := by exact_mod_cast Nat.log2_self_le (Nat.ne_of_gt hb)
    rw [show (Nat.log2 a : Int) - Nat.log2 b + 1 = (Nat.log2 a + 1 : Nat) - (Nat.log2 b : Nat) by
      push_cast; ring, zpow_two_sub]
    exact div_lt_div₀ ha hb (by positivity) (by positivity)
  have hlower : (2 : ℚ) ^ ((Nat.log2 a : Int) - Nat.log2 b - 1) ≤ (a : ℚ) / b := by
    have ha : (2 : ℚ) ^ Nat.log2 a ≤ a := by exact_mod_cast Nat.log2_self_le (Nat.ne_of_gt ha)
    have hb : (b : ℚ) ≤ 2 ^ (Nat.log2 b + 1) := by exact_mod_cast Nat.lt_log2_self.le
    rw [show (Nat.log2 a : Int) - Nat.log2 b - 1 = (Nat.log2 a : Nat) - (Nat.log2 b + 1 : Nat) by
      push_cast; ring, zpow_two_sub]
    exact div_le_div₀ (by positivity) ha hb' hb
  have hlt := (log_lt_iff hpos _).2 hupper
  have hle := (le_log_iff hpos _).2 hlower
  have hiff := (quotient_lt_zpow_iff (a := a) hb _).trans
    (log_lt_iff hpos ((Nat.log2 a : Int) - Nat.log2 b)).symm
  unfold binaryExponent
  dsimp only
  split
  next h =>
    have := hiff.1 h
    omega
  next h =>
    have := mt hiff.2 h
    omega

/-! ## Magnitudes -/

theorem binade_eq : binade = 2 ^ 52 := by decide

theorem rank_eq (c : Nat) : c = (c / binade - 1) * binade + (c - (c / binade - 1) * binade) ∧
    c - (c / binade - 1) * binade < 2 * binade ∧
    (c / binade - 1 ≠ 0 → binade ≤ c - (c / binade - 1) * binade) := by
  have hsplit := Nat.div_add_mod c binade
  have hlt := Nat.mod_lt c (show 0 < binade by decide)
  generalize c / binade = q at *
  generalize c % binade = r at *
  cases q with
  | zero =>
    simp at hsplit ⊢
    omega
  | succ q =>
    have hmul : binade * (q + 1) = q * binade + binade := by ring
    simp only [Nat.add_sub_cancel]
    omega

theorem code_eq (x : Binary64) : x.code.val = x.scale * binade + x.significand ∧
    x.significand < 2 * binade ∧ (x.scale ≠ 0 → binade ≤ x.significand) :=
  rank_eq x.code

theorem significand_pos (h : x.code.val ≠ 0) : 0 < x.significand := by
  obtain ⟨hcode, -, hnormal⟩ := code_eq x
  have hbinade : 0 < binade := by decide
  rcases Nat.eq_zero_or_pos x.scale with hscale | hscale
  · rw [hscale, Nat.zero_mul, Nat.zero_add] at hcode
    omega
  · exact lt_of_lt_of_le hbinade (hnormal (Nat.ne_of_gt hscale))

/-- The magnitude of a number. -/
def magnitude (x : Binary64) : ℚ := x.significand * 2 ^ ((x.scale : Int) - 1074)

theorem quotient_eq (x : Binary64) : (x.numerator : ℚ) / x.denominator = x.magnitude := by
  have hpow : (2 : ℚ) ^ ((x.scale : Int) - 1074) = 2 ^ (x.scale - 1074) / 2 ^ (1074 - x.scale) := by
    rw [← zpow_two_sub, show ((x.scale - 1074 : Nat) : Int) - (1074 - x.scale : Nat) =
      (x.scale : Int) - 1074 by omega]
  rw [magnitude, hpow, numerator, denominator, Nat.pow_eq, Nat.pow_eq]
  push_cast
  ring

/-- The distance of neighbours of a scale. -/
def spacing (s : Nat) : ℚ := 2 ^ ((s : Int) - 1074)

/-- The magnitude of a rank, also of one that no number has. -/
def magnitudeAt (c : Nat) : ℚ :=
  (c - (c / binade - 1) * binade : Nat) * spacing (c / binade - 1)

theorem magnitude_eq_magnitudeAt (x : Binary64) : x.magnitude = magnitudeAt x.code := rfl

theorem spacing_pos (s : Nat) : 0 < spacing s := zpow_pos two_pos _

theorem spacing_succ (s : Nat) : spacing (s + 1) = 2 * spacing s := by
  rw [spacing, spacing, show ((s + 1 : Nat) : Int) - 1074 = 1 + ((s : Int) - 1074) by omega,
    zpow_add₀ two_ne_zero, zpow_one]

theorem magnitudeAt_eq (hk : k ≤ 2 * binade) (hs : s = 0 ∨ binade ≤ k) :
    magnitudeAt (s * binade + k) = k * spacing s := by
  have hpos : 0 < binade := by decide
  rcases hk.lt_or_eq with hlt | rfl
  · have hscale : (s * binade + k) / binade - 1 = s := by
      rw [Nat.mul_comm, Nat.mul_add_div hpos]
      have hupper : k / binade < 2 := Nat.div_lt_of_lt_mul (by rwa [Nat.mul_comm])
      rcases hs with rfl | hs
      · omega
      · have hlower : 1 ≤ k / binade := (Nat.one_le_div_iff hpos).2 hs
        omega
    rw [magnitudeAt, hscale, Nat.add_sub_cancel_left]
  · have hscale : (s * binade + 2 * binade) / binade - 1 = s + 1 := by
      rw [← Nat.add_mul, Nat.mul_div_cancel _ hpos]
      omega
    have hrest : s * binade + 2 * binade - (s + 1) * binade = binade := by
      rw [Nat.add_mul]
      omega
    rw [magnitudeAt, hscale, hrest, spacing_succ]
    push_cast
    ring

theorem strictMono_magnitudeAt : StrictMono magnitudeAt := by
  apply strictMono_nat_of_lt_succ
  intro c
  obtain ⟨hc, hk, hs⟩ := rank_eq c
  replace hs := (Nat.eq_zero_or_pos _).imp_right fun h => hs (Nat.ne_of_gt h)
  generalize c / binade - 1 = s at *
  generalize c - s * binade = k at *
  rw [hc, Nat.add_assoc, magnitudeAt_eq hk.le hs,
    magnitudeAt_eq hk (hs.imp_right fun h => h.trans k.le_succ), Nat.cast_succ, add_mul, one_mul]
  exact lt_add_of_pos_right _ (spacing_pos s)

theorem magnitude_nonneg (x : Binary64) : 0 ≤ x.magnitude :=
  mul_nonneg (Nat.cast_nonneg _) (spacing_pos _).le

theorem eq_of_magnitude_eq (hsign : x.negative = y.negative) (h : x.magnitude = y.magnitude) :
    x = y := by
  obtain ⟨negative, code⟩ := x
  obtain ⟨negative', code'⟩ := y
  obtain rfl : negative = negative' := hsign
  obtain rfl : code = code' := Fin.ext (strictMono_magnitudeAt.injective h)
  rfl

theorem eq_iff_of_magnitude_eq_zero (hx : x.magnitude = 0) :
    x = y ↔ y.negative = x.negative ∧ y.magnitude = 0 :=
  ⟨fun h => h ▸ ⟨rfl, hx⟩, fun ⟨hsign, hy⟩ => eq_of_magnitude_eq hsign.symm (hx.trans hy.symm)⟩

theorem equals_iff {n : Int} :
    x.Equals n ↔ (n : ℚ) = if x.negative then -x.magnitude else x.magnitude := by
  have hden : (x.denominator : ℚ) ≠ 0 := Nat.cast_ne_zero.2 x.denominator_pos.ne'
  have hnum : (x.numerator : ℚ) = x.magnitude * x.denominator := by
    rw [← quotient_eq, div_mul_cancel₀ _ hden]
  rw [Equals, ← Int.cast_inj (α := ℚ)]
  cases x.negative with
  | true =>
    rw [if_pos rfl, if_pos rfl]
    push_cast
    rw [hnum, ← neg_mul, mul_left_inj' hden]
  | false =>
    rw [if_neg Bool.false_ne_true, if_neg Bool.false_ne_true]
    push_cast
    rw [hnum, mul_left_inj' hden]

theorem eq_of_equals {n : Int} (hsign : x.negative = y.negative) (hx : x.Equals n)
    (hy : y.Equals n) : x = y := by
  refine eq_of_magnitude_eq hsign ?_
  rw [equals_iff, hsign] at hx
  rw [equals_iff, hx] at hy
  cases h : y.negative with
  | true => simpa [h] using hy
  | false => simpa [h] using hy

/-! ## Natural numbers -/

theorem exists_magnitude_eq (hs : s < 2046) (hlow : binade ≤ k) (hhigh : k < 2 * binade) :
    ∃ x : Binary64, x.magnitude = k * spacing s := by
  have hcode : s * binade + k < codeLimit := by
    have hle : s * binade ≤ 2045 * binade := Nat.mul_le_mul_right _ (by omega)
    rw [codeLimit]
    omega
  exact ⟨⟨false, _, hcode⟩, magnitudeAt_eq hhigh.le (.inr hlow)⟩

theorem magnitude_zero (negative : Bool) : (zero negative).magnitude = 0 := by
  have hsignificand : (zero negative).significand = 0 := Nat.zero_sub _
  rw [magnitude, hsignificand, Nat.cast_zero, zero_mul]

theorem exists_magnitude_eq_natural (hm : m < 2 ^ 53) : ∃ x : Binary64, x.magnitude = m := by
  rcases Nat.eq_zero_or_pos m with rfl | hpos
  · exact ⟨zero false, by rw [magnitude_zero, Nat.cast_zero]⟩
  · -- the digits of the number, filled up with zeros to the length of a significand
    have hlog : Nat.log2 m ≤ 52 := by
      have hlt := (Nat.log2_lt (Nat.ne_of_gt hpos)).2 hm
      omega
    have hlower : binade ≤ m * 2 ^ (52 - Nat.log2 m) := by
      calc binade = 2 ^ Nat.log2 m * 2 ^ (52 - Nat.log2 m) := by
            rw [binade_eq, ← pow_add, Nat.add_sub_cancel' hlog]
        _ ≤ m * 2 ^ (52 - Nat.log2 m) :=
            Nat.mul_le_mul_right _ (Nat.log2_self_le (Nat.ne_of_gt hpos))
    have hupper : m * 2 ^ (52 - Nat.log2 m) < 2 * binade := by
      calc m * 2 ^ (52 - Nat.log2 m) < 2 ^ (Nat.log2 m + 1) * 2 ^ (52 - Nat.log2 m) :=
            Nat.mul_lt_mul_of_pos_right Nat.lt_log2_self (by positivity)
        _ = 2 * binade := by
            rw [binade_eq, ← pow_add, show Nat.log2 m + 1 + (52 - Nat.log2 m) = 53 by omega]
            rfl
    obtain ⟨x, hx⟩ := exists_magnitude_eq (s := Nat.log2 m + 1022) (by omega) hlower hupper
    refine ⟨x, ?_⟩
    have hone : (2 : ℚ) ^ (52 - Nat.log2 m) * spacing (Nat.log2 m + 1022) = 1 := by
      rw [spacing, ← zpow_natCast, ← zpow_add₀ two_ne_zero]
      rw [show ((52 - Nat.log2 m : Nat) : Int) + ((Nat.log2 m + 1022 : Nat) - 1074) = 0 by omega,
        zpow_zero]
    rw [hx, Nat.cast_mul, Nat.cast_pow, Nat.cast_ofNat, mul_assoc, hone, mul_one]

end PropCatalog.Binary64
