import Mathlib.Algebra.Order.Group.Unbundled.Abs
import Mathlib.Algebra.Ring.Parity
import Mathlib.Order.Monotone.Basic
import PropCatalog.Proofs.Binary64

/-!
# The nearest number

`IsNearest q x` says that `x` is the number of the format nearest to the rational number `q`, of two
equally near ones the even one, and `ofRatio?` finds it (`ofRatio?_eq_some_iff`). It exists exactly
below the middle between the largest number and two to the power 1024.

A quotient lies between the magnitudes of two neighbouring ranks and is rounded to one of them
(`RoundsTo`). The first rank beyond the last finite number plays the part of infinity there.
-/

namespace PropCatalog.Binary64

variable {a b c d k r s : Nat} {low high q u : ℚ} {x y z : Binary64} {negative : Bool}

/-- Among the numbers of the format `x` has the magnitude nearest to `q`, and an even significand if
another one is as near. A quotient from the middle between the largest number and two to the power
1024 on has no nearest number. The sign of `x` is left open. -/
structure IsNearest (q : ℚ) (x : Binary64) : Prop where
  lt : q < 2 ^ 1024 - 2 ^ 970
  nearest : ∀ y : Binary64, |x.magnitude - q| ≤ |y.magnitude - q|
  even : ∀ y : Binary64, y.magnitude ≠ x.magnitude → |y.magnitude - q| = |x.magnitude - q| →
    Even x.significand

theorem magnitudeAt_codeLimit :
    magnitudeAt (codeLimit - 1) + magnitudeAt codeLimit = 2 * (2 ^ 1024 - 2 ^ 970) := by
  have hlast : codeLimit - 1 = 2045 * binade + (2 * binade - 1) := by decide
  have hlimit : codeLimit = 2045 * binade + 2 * binade := by decide
  have hspacing : spacing 2045 = 2 ^ 971 := by
    rw [spacing, ← zpow_natCast]
    norm_num
  have hlarge : (2 : ℚ) ^ 1024 = 2 ^ 54 * 2 ^ 970 := by rw [← pow_add]
  have hsmall : (2 : ℚ) ^ 971 = 2 * 2 ^ 970 := by rw [pow_succ, mul_comm]
  rw [hlast, hlimit, magnitudeAt_eq (by decide) (.inr (by decide)),
    magnitudeAt_eq le_rfl (.inr (by decide)), hspacing, hlarge, hsmall, binade_eq]
  generalize (2 : ℚ) ^ 970 = t
  norm_num
  ring

/-! ## Rounding to a neighbour -/

/-- `q` lies between `low` and `high`, the values of `c` and `c + 1`, and `r` is the one of the two
that it is rounded to. -/
structure RoundsTo (low high q : ℚ) (c r : Nat) : Prop where
  low_le : low ≤ q
  lt_high : q < high
  eq : r = c ∧ (2 * q < low + high ∨ 2 * q = low + high ∧ Even c) ∨
    r = c + 1 ∧ (low + high < 2 * q ∨ 2 * q = low + high ∧ ¬ Even c)

theorem RoundsTo.mul_right (h : RoundsTo low high q c r) (hu : 0 < u) :
    RoundsTo (low * u) (high * u) (q * u) c r := by
  have hlt : ∀ {v w : ℚ}, v * u < w * u ↔ v < w := mul_lt_mul_iff_left₀ hu
  have heq : ∀ {v w : ℚ}, v * u = w * u ↔ v = w := mul_left_inj' hu.ne'
  refine ⟨mul_le_mul_of_nonneg_right h.low_le hu.le, hlt.2 h.lt_high, ?_⟩
  rw [← mul_assoc, ← add_mul, hlt, hlt, heq]
  exact h.eq

theorem RoundsTo.add_left (h : RoundsTo low high q c r) (hk : Even k) :
    RoundsTo low high q (k + c) (k + r) := by
  have heven : Even (k + c) ↔ Even c := by simp [Nat.even_add, hk]
  refine ⟨h.low_le, h.lt_high, ?_⟩
  rw [heven, Nat.add_assoc, Nat.add_right_inj, Nat.add_right_inj]
  exact h.eq

theorem roundsTo_divEven (hb : 0 < b) :
    RoundsTo (a / b : Nat) ((a / b : Nat) + 1) ((a : ℚ) / b) (a / b) (divEven a b) := by
  have hb' : (0 : ℚ) < b := Nat.cast_pos.2 hb
  have hmod := Nat.mod_lt a hb
  have hsplit : (a : ℚ) / b = (a / b : Nat) + (a % b : Nat) / b := by
    rw [← sub_eq_iff_eq_add', eq_div_iff hb'.ne', sub_mul, div_mul_cancel₀ _ hb'.ne']
    have h := Nat.div_add_mod a b
    have h : (b * (a / b : Nat) + (a % b : Nat) : ℚ) = a := by exact_mod_cast h
    linarith
  have hnonneg : (0 : ℚ) ≤ (a % b : Nat) / b := by positivity
  have hlt : ((a % b : Nat) : ℚ) / b < 1 := (div_lt_one hb').2 (Nat.cast_lt.2 hmod)
  refine ⟨by linarith, by linarith, ?_⟩
  have hcompare : ∀ t : ℚ, t = (a % b : Nat) / b → (2 * t < 1 ↔ 2 * (a % b) < b) ∧
      (2 * t = 1 ↔ 2 * (a % b) = b) := by
    rintro t rfl
    rw [← mul_div_assoc, div_lt_one hb', div_eq_one_iff_eq hb'.ne']
    exact ⟨by norm_cast, by norm_cast⟩
  obtain ⟨hless, htie⟩ := hcompare _ rfl
  unfold divEven
  dsimp only
  rw [hsplit]
  generalize (((a % b : Nat) : ℚ) / b) = t at *
  by_cases h : 2 * (a % b) < b
  · rw [if_pos h]
    have := hless.2 h
    exact .inl ⟨rfl, .inl (by linarith)⟩
  · rw [if_neg h]
    by_cases hmiddle : 2 * (a % b) = b
    · have := htie.2 hmiddle
      rw [if_pos hmiddle]
      rcases Nat.mod_two_eq_zero_or_one (a / b) with hparity | hparity
      · exact .inl ⟨by rw [hparity, Nat.add_zero], .inr ⟨by linarith, Nat.even_iff.2 hparity⟩⟩
      · refine .inr ⟨by rw [hparity], .inr ⟨by linarith, ?_⟩⟩
        rw [Nat.even_iff, hparity]
        decide
    · rw [if_neg hmiddle]
      have hge := mt hless.1 h
      have hne := mt htie.1 hmiddle
      have : 1 < 2 * t := lt_of_le_of_ne (not_lt.1 hge) (Ne.symm hne)
      exact .inr ⟨rfl, .inl (by linarith)⟩

theorem scaled_quotient (s : Nat) : ((a * Nat.pow 2 (1074 - s) : Nat) : ℚ) /
    (b * Nat.pow 2 (s - 1074) : Nat) * spacing s = (a : ℚ) / b := by
  have hspacing : spacing s = 2 ^ (s - 1074) / 2 ^ (1074 - s) := by
    rw [spacing, ← zpow_two_sub, show ((s - 1074 : Nat) : Int) - (1074 - s : Nat) =
      (s : Int) - 1074 by omega]
  rw [hspacing, Nat.pow_eq, Nat.pow_eq]
  push_cast
  field_simp

theorem floor_scaled (ha : 0 < a) (hb : 0 < b) (hs : s = (binaryExponent a b + 1022).toNat) :
    a * Nat.pow 2 (1074 - s) / (b * Nat.pow 2 (s - 1074)) < 2 * binade ∧
      (s = 0 ∨ binade ≤ a * Nat.pow 2 (1074 - s) / (b * Nat.pow 2 (s - 1074))) := by
  have hpos : 0 < (a : ℚ) / b := div_pos (Nat.cast_pos.2 ha) (Nat.cast_pos.2 hb)
  have hden : 0 < b * Nat.pow 2 (s - 1074) := Nat.mul_pos hb (Nat.pow_pos (by decide))
  have hden' : (0 : ℚ) < (b * Nat.pow 2 (s - 1074) : Nat) := Nat.cast_pos.2 hden
  have hvalue := scaled_quotient (a := a) (b := b) s
  rw [binaryExponent_eq_log ha hb] at hs
  have hpow : ∀ e : Int, (2 : ℚ) ^ e * spacing s = 2 ^ (e + ((s : Int) - 1074)) :=
    fun e => (zpow_add₀ two_ne_zero _ _).symm
  have htwo : ((2 * binade : Nat) : ℚ) = 2 ^ (53 : Int) := by rw [binade_eq]; norm_num
  have hone : (binade : ℚ) = 2 ^ (52 : Int) := by rw [binade_eq]; norm_num
  constructor
  · have hlog := (log_lt_iff hpos (53 + ((s : Int) - 1074))).1 (by omega)
    rw [Nat.div_lt_iff_lt_mul hden, ← Nat.cast_lt (α := ℚ), Nat.cast_mul (2 * binade),
      ← div_lt_iff₀ hden', htwo, ← mul_lt_mul_iff_left₀ (spacing_pos s), hvalue, hpow]
    exact hlog
  · rcases Nat.eq_zero_or_pos s with hzero | hnonzero
    · exact .inl hzero
    · have hlog := (le_log_iff hpos (52 + ((s : Int) - 1074))).1 (by omega)
      right
      rw [Nat.le_div_iff_mul_le hden, ← Nat.cast_le (α := ℚ), Nat.cast_mul binade,
        ← le_div_iff₀ hden', hone, ← mul_le_mul_iff_left₀ (spacing_pos s), hvalue, hpow]
      exact hlog

theorem exists_roundsTo (hb : 0 < b) :
    ∃ c, RoundsTo (magnitudeAt c) (magnitudeAt (c + 1)) ((a : ℚ) / b) c (nearestCode a b) := by
  rcases Nat.eq_zero_or_pos a with rfl | ha
  · have hzero : magnitudeAt 0 = 0 := by simp [magnitudeAt]
    have hone : 0 < magnitudeAt (0 + 1) := hzero ▸ strictMono_magnitudeAt Nat.one_pos
    refine ⟨0, ?_, ?_, .inl ⟨rfl, .inl ?_⟩⟩
    all_goals
      rw [Nat.cast_zero, zero_div]
      linarith
  · generalize hs : (binaryExponent a b + 1022).toNat = s
    obtain ⟨hupper, hlower⟩ := floor_scaled ha hb hs.symm
    have hden : 0 < b * Nat.pow 2 (s - 1074) := Nat.mul_pos hb (Nat.pow_pos (by decide))
    have hrounds :=
      (roundsTo_divEven (a := a * Nat.pow 2 (1074 - s)) hden).mul_right (spacing_pos s)
    have hbinade : Even (s * binade) := (show Even binade by decide).mul_left s
    rw [scaled_quotient, ← magnitudeAt_eq hupper.le hlower, ← Nat.cast_succ,
      ← magnitudeAt_eq hupper (hlower.imp_right fun h => h.trans (Nat.le_succ _))] at hrounds
    have hcode : nearestCode a b = s * binade +
        divEven (a * Nat.pow 2 (1074 - s)) (b * Nat.pow 2 (s - 1074)) := by
      rw [nearestCode, if_neg (Nat.ne_of_gt ha), hs]
    refine ⟨s * binade + a * Nat.pow 2 (1074 - s) / (b * Nat.pow 2 (s - 1074)), ?_⟩
    rw [hcode, Nat.add_assoc]
    exact hrounds.add_left hbinade

/-! ## Correct rounding -/

theorem nearestCode_nearest (hb : 0 < b) (hd : d ≠ nearestCode a b) :
    |magnitudeAt (nearestCode a b) - (a : ℚ) / b| < |magnitudeAt d - (a : ℚ) / b| ∨
      |magnitudeAt (nearestCode a b) - (a : ℚ) / b| = |magnitudeAt d - (a : ℚ) / b| ∧
        Even (nearestCode a b) := by
  obtain ⟨c, hlow, hhigh, hr⟩ := exists_roundsTo (a := a) hb
  generalize nearestCode a b = r at *
  generalize (a : ℚ) / b = q at *
  have hmono := strictMono_magnitudeAt
  have hbelow : |magnitudeAt c - q| = q - magnitudeAt c := by
    rw [abs_sub_comm, abs_of_nonneg (by linarith)]
  have habove : |magnitudeAt (c + 1) - q| = magnitudeAt (c + 1) - q := abs_of_nonneg (by linarith)
  -- on each side of the quotient its neighbour there is the nearest rank
  by_cases hdc : d ≤ c
  · have hle := hmono.monotone hdc
    have habs : |magnitudeAt d - q| = q - magnitudeAt d := by
      rw [abs_sub_comm, abs_of_nonneg (by linarith)]
    obtain ⟨rfl, -⟩ | ⟨rfl, hfar | ⟨htie, hodd⟩⟩ := hr
    · have hlt := hmono (lt_of_le_of_ne hdc hd)
      left
      rw [hbelow, habs]
      linarith
    · left
      rw [habove, habs]
      linarith
    · rw [habove, habs]
      rcases hle.lt_or_eq with hlt | heq
      · exact .inl (by linarith)
      · exact .inr ⟨by linarith, Nat.even_add_one.2 hodd⟩
  · have hle := hmono.monotone (Nat.succ_le_of_lt (not_le.1 hdc))
    have habs : |magnitudeAt d - q| = magnitudeAt d - q := abs_of_nonneg (by linarith)
    obtain ⟨rfl, hfar | ⟨htie, heven⟩⟩ | ⟨rfl, -⟩ := hr
    · left
      rw [hbelow, habs]
      linarith
    · rw [hbelow, habs]
      rcases hle.lt_or_eq with hlt | heq
      · exact .inl (by linarith)
      · exact .inr ⟨by linarith, heven⟩
    · have hlt := hmono (lt_of_le_of_ne (Nat.succ_le_of_lt (not_le.1 hdc)) (Ne.symm hd))
      left
      rw [habove, habs]
      linarith

theorem nearestCode_lt_codeLimit_iff (hb : 0 < b) :
    nearestCode a b < codeLimit ↔ (a : ℚ) / b < 2 ^ 1024 - 2 ^ 970 := by
  have hmiddle := magnitudeAt_codeLimit
  have hmono := strictMono_magnitudeAt
  have hstep : magnitudeAt (codeLimit - 1) < magnitudeAt codeLimit := hmono (by decide)
  have hnearest := fun d hd => nearestCode_nearest (a := a) (d := d) hb hd
  generalize (2 ^ 1024 - 2 ^ 970 : ℚ) = middle at hmiddle ⊢
  generalize nearestCode a b = r at *
  generalize (a : ℚ) / b = q at *
  constructor
  · intro hr
    by_contra hq
    have hle : magnitudeAt r ≤ magnitudeAt (codeLimit - 1) :=
      hmono.monotone (Nat.le_sub_one_of_lt hr)
    have hr' : |magnitudeAt r - q| = q - magnitudeAt r := by
      rw [abs_sub_comm, abs_of_nonneg (by linarith)]
    have hlimit' : |magnitudeAt codeLimit - q| ≤ q - magnitudeAt (codeLimit - 1) :=
      abs_le.2 ⟨by linarith, by linarith⟩
    rcases hnearest codeLimit (Nat.ne_of_gt hr) with hlt | ⟨heq, heven⟩
    · linarith
    · -- the tie goes to the even rank, and the last number is odd
      have hlast' : r = codeLimit - 1 := hmono.injective (by linarith)
      rw [hlast'] at heven
      exact absurd heven (by decide)
  · intro hq
    by_contra hr
    have hle : magnitudeAt codeLimit ≤ magnitudeAt r := hmono.monotone (not_lt.1 hr)
    have hr' : |magnitudeAt r - q| = magnitudeAt r - q := abs_of_nonneg (by linarith)
    have hlast' : |magnitudeAt (codeLimit - 1) - q| < magnitudeAt codeLimit - q :=
      abs_lt.2 ⟨by linarith, by linarith⟩
    have hne : codeLimit - 1 ≠ r := by
      have : 0 < codeLimit := by decide
      omega
    rcases hnearest _ hne with hlt | ⟨heq, -⟩ <;> linarith

theorem even_significand_iff (x : Binary64) : Even x.significand ↔ Even x.code.val := by
  have hbinade : Even (x.scale * binade) := (show Even binade by decide).mul_left _
  rw [(code_eq x).1, Nat.even_add]
  exact (iff_true_left hbinade).symm

theorem abs_lt_of_between (h : |magnitudeAt c - q| = |magnitudeAt r - q|) (hc : c < d)
    (hr : d < r) :
    |magnitudeAt d - q| < |magnitudeAt c - q| := by
  have hc := strictMono_magnitudeAt hc
  have hr := strictMono_magnitudeAt hr
  rcases abs_eq_abs.1 h with h | h
  · linarith
  · rw [abs_of_nonpos (show magnitudeAt c - q ≤ 0 by linarith)]
    exact abs_lt.2 ⟨by linarith, by linarith⟩

theorem IsNearest.nearestCode_eq (hb : 0 < b) (h : IsNearest ((a : ℚ) / b) x) :
    nearestCode a b = x.code := by
  by_contra hne
  let y : Binary64 := ⟨false, nearestCode a b, (nearestCode_lt_codeLimit_iff hb).2 h.lt⟩
  have hmono := strictMono_magnitudeAt
  have hmagnitude : magnitudeAt (nearestCode a b) ≠ magnitudeAt x.code := fun heq =>
    hne (hmono.injective heq)
  have hle : |magnitudeAt x.code - (a : ℚ) / b| ≤ |magnitudeAt (nearestCode a b) - (a : ℚ) / b| :=
    h.nearest y
  obtain hlt | ⟨heq, heven⟩ := nearestCode_nearest hb (Ne.symm hne)
  · exact absurd hle (not_le.2 hlt)
  · -- two even ranks have another one between them, and that is nearer
    have heven' : Even x.code.val := (even_significand_iff x).1 (h.even y hmagnitude heq)
    have hnearer : ∃ d, d ≠ nearestCode a b ∧ |magnitudeAt d - (a : ℚ) / b| <
        |magnitudeAt (nearestCode a b) - (a : ℚ) / b| := by
      obtain ⟨i, hi⟩ := heven
      obtain ⟨j, hj⟩ := heven'
      rcases lt_or_gt_of_ne hne with hlt | hlt
      · exact ⟨nearestCode a b + 1, by omega, abs_lt_of_between heq (by omega) (by omega)⟩
      · refine ⟨x.code + 1, by omega, ?_⟩
        rw [heq]
        exact abs_lt_of_between heq.symm (by omega) (by omega)
    obtain ⟨d, hd, hlt⟩ := hnearer
    obtain hlt' | ⟨heq', -⟩ := nearestCode_nearest hb hd
    · exact absurd hlt (not_lt.2 hlt'.le)
    · exact absurd heq'.symm (ne_of_lt hlt)

/-- Rounding is correct: the number found is the nearest one, and it is found if there is one. -/
theorem ofRatio?_eq_some_iff (hb : 0 < b) :
    ofRatio? negative a b = some x ↔ x.negative = negative ∧ IsNearest ((a : ℚ) / b) x := by
  constructor
  · intro h
    unfold ofRatio? at h
    split at h
    next hlt =>
      obtain rfl := Option.some.inj h
      refine ⟨rfl, (nearestCode_lt_codeLimit_iff hb).1 hlt, fun y => ?_, fun y hne heq => ?_⟩
      · by_cases hy : y.code.val = nearestCode a b
        · exact le_of_eq (by rw [magnitude_eq_magnitudeAt, magnitude_eq_magnitudeAt, hy])
        · rcases nearestCode_nearest hb hy with h | ⟨h, -⟩
          · exact h.le
          · exact h.le
      · have hy : y.code.val ≠ nearestCode a b := fun hy =>
          hne (by rw [magnitude_eq_magnitudeAt, magnitude_eq_magnitudeAt, hy])
        rcases nearestCode_nearest hb hy with h | ⟨-, h⟩
        · exact absurd heq (ne_of_gt h)
        · exact (even_significand_iff _).2 h
    next => cases h
  · rintro ⟨rfl, h⟩
    rw [ofRatio?, dif_pos ((nearestCode_lt_codeLimit_iff hb).2 h.lt)]
    simp only [h.nearestCode_eq hb]

theorem natAbs_num_div_den (hq : 0 ≤ q) : (q.num.natAbs : ℚ) / q.den = q := by
  rw [Nat.cast_natAbs, abs_of_nonneg (Rat.num_nonneg.2 hq), Rat.num_div_den]

theorem exists_isNearest (hq : 0 ≤ q) (hlt : q < 2 ^ 1024 - 2 ^ 970) (negative : Bool) :
    ∃ x, x.negative = negative ∧ IsNearest q x := by
  have hcode : nearestCode q.num.natAbs q.den < codeLimit := by
    rwa [nearestCode_lt_codeLimit_iff q.den_pos, natAbs_num_div_den hq]
  let x : Binary64 := ⟨negative, nearestCode q.num.natAbs q.den, hcode⟩
  have hfound : ofRatio? negative q.num.natAbs q.den = some x := dif_pos hcode
  have hx := (ofRatio?_eq_some_iff q.den_pos).1 hfound
  rw [natAbs_num_div_den hq] at hx
  exact ⟨_, hx⟩

theorem IsNearest.magnitude_eq (hx : IsNearest q x) (hy : IsNearest q y) (hq : 0 ≤ q) :
    x.magnitude = y.magnitude := by
  rw [← natAbs_num_div_den hq] at hx hy
  rw [magnitude_eq_magnitudeAt, magnitude_eq_magnitudeAt, ← hx.nearestCode_eq q.den_pos,
    ← hy.nearestCode_eq q.den_pos]

theorem mul?_eq_some_iff : x.mul? y = some z ↔
    z.negative = (x.negative != y.negative) ∧ IsNearest (x.magnitude * y.magnitude) z := by
  rw [mul?, ofRatio?_eq_some_iff (Nat.mul_pos x.denominator_pos y.denominator_pos), Nat.cast_mul,
    Nat.cast_mul, mul_div_mul_comm, quotient_eq, quotient_eq]

theorem div?_eq_some_iff (hy : 0 < y.magnitude) : x.div? y = some z ↔
    z.negative = (x.negative != y.negative) ∧ IsNearest (x.magnitude / y.magnitude) z := by
  have hnumerator : 0 < y.numerator := by
    refine Nat.pos_of_ne_zero fun hzero => ?_
    rw [← quotient_eq, hzero, Nat.cast_zero, zero_div] at hy
    exact lt_irrefl _ hy
  rw [div?, ofRatio?_eq_some_iff (Nat.mul_pos x.denominator_pos hnumerator), Nat.cast_mul,
    Nat.cast_mul, mul_div_mul_comm, ← quotient_eq, ← quotient_eq, div_div_eq_mul_div,
    mul_div_assoc']

/-! ## Numbers, small and large -/

theorem magnitude_lt (x : Binary64) : x.magnitude < 2 ^ 1024 - 2 ^ 970 := by
  have hmono := strictMono_magnitudeAt
  have hle : x.magnitude ≤ magnitudeAt (codeLimit - 1) :=
    hmono.monotone (Nat.le_sub_one_of_lt x.code.isLt)
  have hlt : magnitudeAt (codeLimit - 1) < magnitudeAt codeLimit := hmono (by decide)
  have hmiddle := magnitudeAt_codeLimit
  generalize (2 ^ 1024 - 2 ^ 970 : ℚ) = middle at *
  linarith

theorem isNearest_magnitude_iff : IsNearest y.magnitude x ↔ x.magnitude = y.magnitude := by
  constructor
  · intro h
    have hle := h.nearest y
    rw [sub_self, abs_zero] at hle
    exact sub_eq_zero.1 (abs_nonpos_iff.1 hle)
  · intro h
    refine ⟨magnitude_lt y, fun z => ?_, fun z hne heq => ?_⟩
    · rw [h, sub_self, abs_zero]
      exact abs_nonneg _
    · rw [h, sub_self, abs_zero, abs_eq_zero, sub_eq_zero] at heq
      exact absurd (heq.trans h.symm) hne

theorem isNearest_zero_iff : IsNearest 0 x ↔ x.magnitude = 0 := by
  rw [← magnitude_zero false]
  exact isNearest_magnitude_iff

theorem isNearest_natural_iff {m : Nat} (hm : m < 2 ^ 53) :
    IsNearest m x ↔ x.magnitude = m := by
  obtain ⟨y, hy⟩ := exists_magnitude_eq_natural hm
  rw [← hy]
  exact isNearest_magnitude_iff

theorem IsNearest.withSign (h : IsNearest q x) (negative : Bool) :
    IsNearest q (x.withSign negative) :=
  ⟨h.lt, h.nearest, h.even⟩

theorem IsNearest.congr (h : IsNearest q y) (hx : x.magnitude = y.magnitude) : IsNearest q x := by
  have heq : y.withSign x.negative = x := eq_of_magnitude_eq rfl hx.symm
  exact heq ▸ h.withSign x.negative

theorem IsNearest.le_magnitude (h : IsNearest q x) (hy : y.magnitude ≤ q) :
    y.magnitude ≤ x.magnitude := by
  by_contra hlt
  have hle := h.nearest y
  rw [abs_of_nonpos (by linarith), abs_of_nonpos (by linarith)] at hle
  linarith

theorem IsNearest.magnitude_le (h : IsNearest q x) (hq : 0 ≤ q) : x.magnitude ≤ 2 * q := by
  have hle := h.nearest (zero false)
  rw [magnitude_zero, zero_sub, abs_neg, abs_of_nonneg hq] at hle
  have := (abs_le.1 hle).2
  linarith

theorem le_magnitude (h : x.magnitude ≠ 0) : 2 ^ (-1074 : Int) ≤ x.magnitude := by
  have hsignificand : 1 ≤ x.significand := by
    refine Nat.one_le_iff_ne_zero.2 fun hzero => h ?_
    rw [magnitude, hzero, Nat.cast_zero, zero_mul]
  have hcast : (1 : ℚ) ≤ x.significand := by exact_mod_cast hsignificand
  calc (2 : ℚ) ^ (-1074 : Int) ≤ 2 ^ ((x.scale : Int) - 1074) :=
        zpow_le_zpow_right₀ one_le_two (by omega)
    _ = 1 * 2 ^ ((x.scale : Int) - 1074) := (one_mul _).symm
    _ ≤ x.magnitude := mul_le_mul_of_nonneg_right hcast (zpow_pos two_pos _).le

theorem isNearest_iff_of_tiny (hq : 0 ≤ q) (hlt : 2 * q < 2 ^ (-1074 : Int)) :
    IsNearest q x ↔ x.magnitude = 0 := by
  constructor
  · intro h
    by_contra hne
    exact absurd (h.magnitude_le hq) (not_le.2 (hlt.trans_le (le_magnitude hne)))
  · intro h
    have hzero : |x.magnitude - q| = q := by rw [h, zero_sub, abs_neg, abs_of_nonneg hq]
    have hfar : ∀ y : Binary64, y.magnitude ≠ x.magnitude → q < |y.magnitude - q| := by
      intro y hy
      have := le_magnitude (h ▸ hy)
      exact lt_abs.2 (.inl (by linarith))
    refine ⟨?_, fun y => ?_, fun y hne heq => ?_⟩
    · obtain ⟨one, hone⟩ := exists_magnitude_eq_natural (m := 1) (by decide)
      have hsmall := hlt.trans (zpow_lt_one_of_neg₀ one_lt_two (by decide))
      have hlt' : q < one.magnitude := by
        rw [hone, Nat.cast_one]
        linarith
      exact hlt'.trans (magnitude_lt one)
    · rw [hzero]
      by_cases hy : y.magnitude = x.magnitude
      · rw [hy, hzero]
      · exact (hfar y hy).le
    · rw [hzero] at heq
      exact absurd heq (ne_of_gt (hfar y hne))

/-! ## Decimals -/

theorem toDigits_bounds {m : Nat} (hm : 0 < m) (e : Int) :
    (10 : ℚ) ^ ((Nat.toDigits 10 m).length - 1 + e) ≤ m * 10 ^ e ∧
      (m : ℚ) * 10 ^ e < 10 ^ ((Nat.toDigits 10 m).length + e) := by
  have hpos : (0 : ℚ) < 10 ^ e := zpow_pos (by norm_num) e
  generalize hplaces : (Nat.toDigits 10 m).length = places
  have hplaces' : 0 < places := hplaces ▸ Nat.length_toDigits_pos
  have hupper : m < 10 ^ places :=
    (Nat.length_toDigits_le_iff (by decide) hplaces').1 hplaces.le
  have hlower : 10 ^ (places - 1) ≤ m := by
    by_contra hlt
    rcases Nat.eq_zero_or_pos (places - 1) with hzero | hpos
    · rw [hzero, pow_zero] at hlt
      omega
    · have := (Nat.length_toDigits_le_iff (by decide) hpos).2 (not_le.1 hlt)
      omega
  have hsub : (places : Int) - 1 = (places - 1 : Nat) := by omega
  rw [zpow_add₀ (by norm_num), zpow_add₀ (by norm_num), hsub, zpow_natCast, zpow_natCast]
  exact ⟨mul_le_mul_of_nonneg_right (by exact_mod_cast hlower) hpos.le,
    mul_lt_mul_of_pos_right (by exact_mod_cast hupper) hpos⟩

theorem not_isNearest_of_le (h : 10 ^ (310 : Int) ≤ q) : ¬ IsNearest q x := by
  have hnat : 2 ^ 1024 ≤ 10 ^ 310 := by decide +kernel
  have hcast : (2 : ℚ) ^ 1024 ≤ 10 ^ (310 : Int) := by exact_mod_cast hnat
  have hpos : (0 : ℚ) < 2 ^ 970 := by positivity
  exact fun hx => absurd hx.lt (not_lt.2 ((sub_lt_self _ hpos).le.trans (hcast.trans h)))

theorem isNearest_iff_of_lt (hq : 0 ≤ q) (h : q < 10 ^ (-330 : Int)) :
    IsNearest q x ↔ x.magnitude = 0 := by
  have hlimit : (10 : ℚ) ^ (-330 : Int) ≤ 2 ^ (-1075 : Int) := by
    have hnat : 2 ^ 1075 ≤ 10 ^ 330 := by decide +kernel
    have hcast : (2 : ℚ) ^ (1075 : Int) ≤ 10 ^ (330 : Int) := by exact_mod_cast hnat
    rw [zpow_neg, zpow_neg]
    exact inv_anti₀ (zpow_pos two_pos _) hcast
  refine isNearest_iff_of_tiny hq ?_
  calc 2 * q < 2 * 2 ^ (-1075 : Int) := by linarith
    _ = 2 ^ (1 + -1075 : Int) := by rw [zpow_add₀ two_ne_zero, zpow_one]

/-- Decimals are rounded correctly, also those that are told to be too large or too small by
their number of digits. -/
theorem ofDecimal?_eq_some_iff {m : Nat} {e : Int} : ofDecimal? negative m e = some x ↔
    x.negative = negative ∧ IsNearest (m * 10 ^ e) x := by
  have hzero := eq_iff_of_magnitude_eq_zero (y := x) (magnitude_zero negative)
  unfold ofDecimal?
  dsimp only
  split
  next hm => rw [hm, Nat.cast_zero, zero_mul, isNearest_zero_iff, Option.some.injEq, hzero]; rfl
  next hm =>
    obtain ⟨hlower, hupper⟩ := toDigits_bounds (Nat.pos_of_ne_zero hm) e
    split
    next hlarge =>
      have hpow : (10 : ℚ) ^ (310 : Int) ≤ 10 ^ ((Nat.toDigits 10 m).length - 1 + e) :=
        zpow_le_zpow_right₀ (by norm_num) (by omega)
      exact iff_of_false (by simp) fun h => not_isNearest_of_le (hpow.trans hlower) h.2
    next =>
      split
      next hsmall =>
        have hpow : (10 : ℚ) ^ ((Nat.toDigits 10 m).length + e) ≤ 10 ^ (-330 : Int) :=
          zpow_le_zpow_right₀ (by norm_num) (by omega)
        have hnonneg : (0 : ℚ) ≤ m * 10 ^ e :=
          mul_nonneg (Nat.cast_nonneg m) (zpow_pos (by norm_num) e).le
        rw [isNearest_iff_of_lt hnonneg (hupper.trans_le hpow), Option.some.injEq, hzero]
        rfl
      next =>
        have hvalue : ((m * Nat.pow 10 e.toNat : Nat) : ℚ) / (Nat.pow 10 (-e).toNat : Nat) =
            m * 10 ^ e := by
          rw [zpow_ten_eq, Nat.pow_eq, Nat.pow_eq, mul_div_assoc']
          push_cast
          rfl
        have hden : 0 < Nat.pow 10 (-e).toNat := Nat.pow_pos (by decide)
        rw [ofRatio?_eq_some_iff hden, hvalue]

end PropCatalog.Binary64
