import PropCatalog.Proofs.Json.Numeral

/-!
# Reading a numeral in steps

JSON reads a numeral that is no integer of 64 bits in steps. A significand takes the digits that fit
into 64 bits (`Fills`); it is rounded, and scaled by a power of ten that is rounded too
(`Scaled`). `Numeral.Stepwise` tells the number that comes of it, by correct rounding in each step,
and it is what the reader computes (`Numeral.value?_eq_some_iff`).

The steps may miss the number nearest to the value. They find it where the significand and the power
are numbers of the format, as then only the last step rounds (`Numeral.IsShort.stepwise_iff_nearest`).
-/

namespace PropCatalog.Json

open Binary64 (ofRatio? IsNearest)

variable {digits taken left taken' left' : Text} {m m' k : Nat} {n : Numeral} {x y : Binary64}
  {e shift shift' : Int} {q : ℚ}

/-! ## The significand -/

/-- Of `digits` a significand `m` takes those in `taken`: all, or those before the first one with
which it had more than 64 bits. -/
structure Fills (m : Nat) (digits taken left : Text) : Prop where
  eq_append : digits = taken ++ left
  lt : Nat.ofDigitChars 10 taken m < 2 ^ 64
  full : ∀ d ∈ left.head?, 2 ^ 64 ≤ Nat.ofDigitChars 10 (taken ++ [d]) m

/-- The digits of a numeral make the significand `m`, which is multiplied with ten to the power
`shift` and to that of the exponent. Digits before the point that are left out count up the power,
and digits behind it that are taken count it down. -/
inductive Numeral.Takes (n : Numeral) : (m : Nat) → (shift : Int) → Prop
  | mk {whole left fraction left' : Text} (hwhole : Fills 0 n.whole whole left)
      (hfraction : Fills (Nat.ofDigitChars 10 whole 0) (n.fraction.getD []) fraction left') :
      Takes n (Nat.ofDigitChars 10 (whole ++ fraction) 0) (left.length - fraction.length)

/-! ## The power of ten -/

/-- The number `x` is `q` scaled by ten to the power `e`. The power is rounded, and then the product
or the quotient; powers below ten to the power -308 are divided by in steps. Zero stays zero, and any
other number is too large for a power above ten to the power 308. -/
inductive Scaled : (q : ℚ) → (e : Int) → (x : Binary64) → Prop
  | zero {e : Int} {x : Binary64} (hx : x.magnitude = 0) : Scaled 0 e x
  | up {q : ℚ} {e : Int} {p x : Binary64} (hlow : 0 ≤ e) (hhigh : e ≤ 308)
      (hp : IsNearest (10 ^ e) p) (hx : IsNearest (q * p.magnitude) x) : Scaled q e x
  | down {q : ℚ} {e : Int} {p x : Binary64} (hlow : -308 ≤ e) (hhigh : e < 0)
      (hp : IsNearest (10 ^ (-e)) p) (hx : IsNearest (q / p.magnitude) x) : Scaled q e x
  | far {q : ℚ} {e : Int} {p x y : Binary64} (hlow : e < -308) (hp : IsNearest (10 ^ (308 : Int)) p)
      (hy : IsNearest (q / p.magnitude) y) (hx : Scaled y.magnitude (e + 308) x) : Scaled q e x

/-- The number that a numeral denotes when it is read in steps. An exponent of two to the power 31 or
more makes zero of a small number, and there is no number for a large one. -/
inductive Numeral.Stepwise (n : Numeral) : (x : Binary64) → Prop
  | scaled {m : Nat} {shift : Int} {x y : Binary64} (hm : n.Takes m shift)
      (he : (exponentValue n.exponent).natAbs < 2 ^ 31) (hy : IsNearest m y)
      (hx : Scaled y.magnitude (shift + exponentValue n.exponent) x)
      (hsign : x.negative = n.negative) : Stepwise n x
  | immense {m : Nat} {shift : Int} (hm : n.Takes m shift)
      (he : 2 ^ 31 ≤ (exponentValue n.exponent).natAbs)
      (hzero : m = 0 ∨ exponentValue n.exponent < 0) : Stepwise n (.zero n.negative)

/-! ## Taking digits -/

theorem le_ofDigitChars (digits : Text) (m : Nat) : m ≤ Nat.ofDigitChars 10 digits m := by
  induction digits generalizing m with
  | nil => exact le_refl m
  | cons d digits ih =>
    rw [Nat.ofDigitChars_cons]
    have := ih (10 * m + (d.toNat - '0'.toNat))
    omega

theorem fills_all (h : Nat.ofDigitChars 10 digits m < 2 ^ 64) : Fills m digits digits [] :=
  ⟨(List.append_nil digits).symm, h, by simp⟩

theorem exists_fills (hm : m < 2 ^ 64) (digits : Text) :
    ∃ taken left, Fills m digits taken left := by
  induction digits generalizing m with
  | nil => exact ⟨[], [], fills_all hm⟩
  | cons d digits ih =>
    by_cases hd : Nat.ofDigitChars 10 [d] m < 2 ^ 64
    · obtain ⟨taken, left, rfl, hlt, hfull⟩ := ih hd
      exact ⟨d :: taken, left, rfl, hlt, hfull⟩
    · refine ⟨[], d :: digits, rfl, hm, ?_⟩
      rintro _ ⟨⟩
      exact not_lt.1 hd

theorem Fills.takeDigits_eq (h : Fills m digits taken left) (count : Nat) :
    takeDigits m count digits = (Nat.ofDigitChars 10 taken m, count + taken.length) := by
  obtain ⟨rfl, hlt, hfull⟩ := h
  have hvalue (d : Char) (m : Nat) : m * 10 + digitValue d = Nat.ofDigitChars 10 [d] m := by
    rw [Nat.ofDigitChars_cons, Nat.mul_comm]
    rfl
  induction taken generalizing m count with
  | nil =>
    cases left with
    | nil => rfl
    | cons d left =>
      have hlarge : ¬ Nat.ofDigitChars 10 [d] m < Word64.limit := not_lt.2 (hfull d rfl)
      rw [List.nil_append, takeDigits, hvalue, if_neg hlarge]
      rfl
  | cons d taken ih =>
    have hfits : Nat.ofDigitChars 10 [d] m < Word64.limit :=
      lt_of_le_of_lt (le_ofDigitChars taken _) hlt
    have hrest := ih (m := Nat.ofDigitChars 10 [d] m) (count + 1) hlt hfull
    rw [List.cons_append, takeDigits, hvalue, if_pos hfits, hrest, List.length_cons,
      Nat.add_right_comm, Nat.add_assoc]
    rfl

namespace Numeral

theorem exists_takes (n : Numeral) : ∃ m shift, n.Takes m shift := by
  obtain ⟨whole, left, hwhole⟩ := exists_fills (m := 0) (by decide) n.whole
  obtain ⟨fraction, left', hfraction⟩ := exists_fills hwhole.lt (n.fraction.getD [])
  exact ⟨_, _, .mk hwhole hfraction⟩

theorem takes_significand (h : n.significand < 2 ^ 64) :
    n.Takes n.significand (-(n.fraction.getD []).length) := by
  have hsplit : n.significand = Nat.ofDigitChars 10 (n.fraction.getD [])
      (Nat.ofDigitChars 10 n.whole 0) := Nat.ofDigitChars_append 0
  have hwhole := le_ofDigitChars (n.fraction.getD []) (Nat.ofDigitChars 10 n.whole 0)
  have hall : n.Takes n.significand (([] : Text).length - (n.fraction.getD []).length) :=
    .mk (fills_all (by omega)) (fills_all (by omega))
  rwa [List.length_nil, Int.natCast_zero, zero_sub] at hall

theorem Takes.lt (h : n.Takes m shift) : m < 2 ^ 64 := by
  obtain ⟨-, hfraction⟩ := h
  rw [Nat.ofDigitChars_append]
  exact hfraction.lt

end Numeral

/-! ## Scaling -/

theorem powerOfTen?_eq_some_iff : powerOfTen? k = some x ↔
    x.negative = false ∧ IsNearest (10 ^ (k : Int)) x := by
  rw [powerOfTen?, Binary64.ofRatio?_eq_some_iff Nat.one_pos, Nat.cast_one, div_one, Nat.pow_eq,
    Nat.cast_pow, Nat.cast_ofNat, zpow_natCast]

theorem exists_powerOfTen? (hk : k ≤ 308) : ∃ p, powerOfTen? k = some p ∧
    p.negative = false ∧ IsNearest (10 ^ (k : Int)) p := by
  have hlimit : (10 : ℚ) ^ (k : Int) < 2 ^ 1024 - 2 ^ 970 := by
    have hnat : 10 ^ 308 + 2 ^ 970 < 2 ^ 1024 := by decide +kernel
    have hcast : (10 ^ 308 + 2 ^ 970 : ℚ) < 2 ^ 1024 := by exact_mod_cast hnat
    have hpow : (10 : ℚ) ^ (k : Int) ≤ 10 ^ 308 := by
      rw [zpow_natCast]
      exact pow_le_pow_right₀ (by norm_num) hk
    exact hpow.trans_lt (lt_sub_iff_add_lt.2 hcast)
  obtain ⟨p, hp⟩ := Binary64.exists_isNearest (zpow_pos (by norm_num) _).le hlimit false
  exact ⟨p, powerOfTen?_eq_some_iff.2 hp, hp⟩

theorem one_le_magnitude {p : Binary64} (hp : IsNearest (10 ^ e) p) (he : 0 ≤ e) :
    1 ≤ p.magnitude := by
  obtain ⟨one, hone⟩ := Binary64.exists_magnitude_eq_natural (m := 1) (by decide)
  rw [Nat.cast_one] at hone
  rw [← hone]
  exact hp.le_magnitude (hone ▸ one_le_zpow₀ (by norm_num) he)

theorem Scaled.magnitude_eq_zero (h : Scaled q e x) (hq : q = 0) : x.magnitude = 0 := by
  induction h with
  | zero hx => exact hx
  | up _ _ _ hx =>
    rw [hq, zero_mul] at hx
    exact Binary64.isNearest_zero_iff.1 hx
  | down _ _ _ hx =>
    rw [hq, zero_div] at hx
    exact Binary64.isNearest_zero_iff.1 hx
  | far _ _ hy _ ih =>
    rw [hq, zero_div] at hy
    exact ih (Binary64.isNearest_zero_iff.1 hy)

theorem scaled_zero_iff : Scaled 0 e x ↔ x.magnitude = 0 :=
  ⟨fun h => h.magnitude_eq_zero rfl, .zero⟩

theorem Scaled.withSign (h : Scaled q e x) (negative : Bool) :
    Scaled q e (x.withSign negative) := by
  induction h with
  | zero hx => exact .zero hx
  | up hlow hhigh hp hx => exact .up hlow hhigh hp (hx.withSign negative)
  | down hlow hhigh hp hx => exact .down hlow hhigh hp (hx.withSign negative)
  | far hlow hp hy _ ih => exact .far hlow hp hy ih

theorem isZero_iff : x.isZero = true ↔ x.magnitude = 0 := by
  rw [← Binary64.magnitude_zero false, Binary64.isZero, decide_eq_true_eq]
  exact Binary64.strictMono_magnitudeAt.injective.eq_iff.symm

section Powers

variable {p : Binary64}

theorem scaled_iff_up (hlow : 0 ≤ e) (hhigh : e ≤ 308) (hp : IsNearest (10 ^ e) p) :
    Scaled q e x ↔ IsNearest (q * p.magnitude) x := by
  refine ⟨fun h => ?_, .up hlow hhigh hp⟩
  cases h with
  | zero hx => rwa [zero_mul, Binary64.isNearest_zero_iff]
  | up _ _ hp' hx => rwa [hp.magnitude_eq hp' (by positivity)]
  | down _ hneg => omega
  | far hneg => omega

theorem scaled_iff_down (hlow : -308 ≤ e) (hhigh : e < 0) (hp : IsNearest (10 ^ (-e)) p) :
    Scaled q e x ↔ IsNearest (q / p.magnitude) x := by
  refine ⟨fun h => ?_, .down hlow hhigh hp⟩
  cases h with
  | zero hx => rwa [zero_div, Binary64.isNearest_zero_iff]
  | up hpos => omega
  | down _ _ hp' hx => rwa [hp.magnitude_eq hp' (by positivity)]
  | far hneg => omega

theorem scaled_iff_far (hlow : e < -308) (hp : IsNearest (10 ^ (308 : Int)) p) :
    Scaled q e x ↔ ∃ y, IsNearest (q / p.magnitude) y ∧ Scaled y.magnitude (e + 308) x := by
  refine ⟨fun h => ?_, fun ⟨y, hy, hx⟩ => .far hlow hp hy hx⟩
  cases h with
  | zero hx =>
    have hzero := Binary64.magnitude_zero false
    exact ⟨.zero false, by rwa [zero_div, Binary64.isNearest_zero_iff],
      by rwa [hzero, scaled_zero_iff]⟩
  | up hpos => omega
  | down hpos => omega
  | far _ hp' hy hx =>
    rw [← hp.magnitude_eq hp' (by positivity)] at hy
    exact ⟨_, hy, hx⟩

theorem scaled_iff_of_large (h : 308 < e) : Scaled q e x ↔ q = 0 ∧ x.magnitude = 0 := by
  constructor
  · intro h
    cases h with
    | zero hx => exact ⟨rfl, hx⟩
    | up _ hhigh => omega
    | down _ hneg => omega
    | far hneg => omega
  · rintro ⟨rfl, hx⟩
    exact .zero hx

end Powers

/-- The scaling of the reader rounds correctly in each of its steps. -/
theorem scaled?_eq_some_iff (hx : x.negative = false) :
    scaled? x e = some y ↔ y.negative = false ∧ Scaled x.magnitude e y := by
  fun_induction scaled? x e with
  | case1 x e hlow hhigh =>
    obtain ⟨p, hp, hsign, hnearest⟩ := exists_powerOfTen? (k := e.toNat) (by omega)
    rw [Int.toNat_of_nonneg hlow] at hnearest
    rw [hp, Option.bind_some, Binary64.mul?_eq_some_iff, hx, hsign, bne_self_eq_false,
      scaled_iff_up hlow hhigh hnearest]
  | case2 x e hlow hhigh hzero =>
    rw [isZero_iff] at hzero
    rw [Option.some.injEq, Binary64.eq_iff_of_magnitude_eq_zero hzero, hx, hzero, scaled_zero_iff]
  | case3 x e hlow hhigh hzero =>
    rw [scaled_iff_of_large (by omega)]
    exact iff_of_false (by simp) fun h => hzero (isZero_iff.2 h.2.1)
  | case4 x e hneg hlow =>
    obtain ⟨p, hp, hsign, hnearest⟩ := exists_powerOfTen? (k := (-e).toNat) (by omega)
    have hpos := one_le_magnitude hnearest (by omega)
    rw [Int.toNat_of_nonneg (by omega)] at hnearest
    rw [hp, Option.bind_some, Binary64.div?_eq_some_iff (by linarith), hx, hsign, bne_self_eq_false,
      scaled_iff_down hlow (by omega) hnearest]
  | case5 x e hneg hlow hzero =>
    rw [isZero_iff] at hzero
    rw [Option.some.injEq, Binary64.eq_iff_of_magnitude_eq_zero hzero, hx, hzero, scaled_zero_iff]
  | case6 x e hneg hlow hzero ih =>
    obtain ⟨p, hp, hsign, hnearest⟩ := exists_powerOfTen? (k := 308) le_rfl
    have hpos := one_le_magnitude hnearest (by decide)
    -- the first division rounds, and the rest scales what it gives
    have hstep : ∀ z : Binary64, x.div? p = some z ↔
        z.negative = false ∧ IsNearest (x.magnitude / p.magnitude) z := by
      intro z
      rw [Binary64.div?_eq_some_iff (by linarith), hx, hsign, bne_self_eq_false]
    rw [hp, Option.bind_some, Option.bind_eq_some_iff, scaled_iff_far (by omega) hnearest]
    constructor
    · rintro ⟨z, hz, hy⟩
      obtain ⟨hzsign, hz⟩ := (hstep z).1 hz
      obtain ⟨hysign, hy⟩ := (ih z hzsign).1 hy
      exact ⟨hysign, z, hz, hy⟩
    · rintro ⟨hysign, z, hz, hy⟩
      exact ⟨z.withSign false, (hstep _).2 ⟨rfl, hz.withSign false⟩, (ih _ rfl).2 ⟨hysign, hy⟩⟩

/-! ## Exponents out of range -/

theorem two_mul_zpow (k : Int) : 2 * (2 : ℚ) ^ k = 2 ^ (1 + k) := by
  rw [zpow_add₀ two_ne_zero, zpow_one]

theorem div_le_of_far {p : Binary64} {k : Int} (hp : IsNearest (10 ^ (308 : Int)) p)
    (hq : q ≤ 2 ^ k) : q / p.magnitude ≤ 2 ^ (k - 1000) := by
  obtain ⟨y, hy⟩ := Binary64.exists_magnitude_eq (s := 2022) (k := Binary64.binade) (by decide)
    le_rfl (by decide)
  have hvalue : y.magnitude = 2 ^ (1000 : Int) := by
    have hbinade : (Binary64.binade : ℚ) = 2 ^ (52 : Int) := by
      rw [Binary64.binade_eq]
      norm_num
    rw [hy, hbinade, Binary64.spacing, ← zpow_add₀ two_ne_zero]
    norm_num
  have hle : 2 ^ (1000 : Int) ≤ p.magnitude := by
    have hnat : 2 ^ 1000 ≤ 10 ^ 308 := by decide +kernel
    rw [← hvalue]
    refine hp.le_magnitude ?_
    rw [hvalue]
    exact_mod_cast hnat
  rw [zpow_sub₀ two_ne_zero]
  exact div_le_div₀ (by positivity) hq (by positivity) hle

theorem scaled?_of_lt (hx : x.negative = false) (hlarge : x.magnitude ≤ 2 ^ (65 : Int))
    (he : e < -616) : scaled? x e = some (.zero false) := by
  obtain ⟨p, hp, -, hnearest⟩ := exists_powerOfTen? (k := 308) le_rfl
  have hone := one_le_magnitude hnearest (by decide)
  have hnonneg : ∀ z : Binary64, 0 ≤ z.magnitude / p.magnitude := fun z =>
    div_nonneg z.magnitude_nonneg p.magnitude_nonneg
  -- the first quotient is small
  obtain ⟨y, -, hy⟩ := Binary64.exists_isNearest (hnonneg x)
    ((div_le_self x.magnitude_nonneg hone).trans_lt x.magnitude_lt) false
  have hsmall : y.magnitude ≤ 2 ^ (1 + (65 - 1000) : Int) := by
    rw [← two_mul_zpow]
    exact (hy.magnitude_le (hnonneg x)).trans
      (mul_le_mul_of_nonneg_left (div_le_of_far hnearest hlarge) two_pos.le)
  -- and the second one is rounded to zero
  have hzero : IsNearest (y.magnitude / p.magnitude) (.zero false) := by
    refine (Binary64.isNearest_iff_of_tiny (hnonneg y) ?_).2 (Binary64.magnitude_zero false)
    calc 2 * (y.magnitude / p.magnitude) ≤ 2 * 2 ^ (1 + (65 - 1000) - 1000 : Int) :=
          mul_le_mul_of_nonneg_left (div_le_of_far hnearest hsmall) two_pos.le
      _ = 2 ^ (1 + (1 + (65 - 1000) - 1000) : Int) := two_mul_zpow _
      _ < 2 ^ (-1074 : Int) := zpow_lt_zpow_right₀ one_lt_two (by decide)
  have hrest : Scaled (Binary64.zero false).magnitude (e + 308 + 308) (.zero false) := by
    rw [Binary64.magnitude_zero]
    exact .zero (Binary64.magnitude_zero false)
  exact (scaled?_eq_some_iff hx).2
    ⟨rfl, .far (by omega) hnearest hy (.far (by omega) hnearest hzero hrest)⟩

theorem scaled?_of_large (he : 308 < e) : scaled? x e = if x.isZero then some x else none := by
  rw [scaled?, if_pos (by omega), if_neg (by omega)]

theorem scaled?_clampExponent (hx : x.negative = false) (hlarge : x.magnitude ≤ 2 ^ (65 : Int))
    (e : Int) : scaled? x (Numeral.clampExponent e) = scaled? x e := by
  rw [Numeral.clampExponent]
  by_cases hlow : e < -2147483648
  · rw [show max (-2147483648) (min 2147483647 e) = -2147483648 by omega,
      scaled?_of_lt hx hlarge (by decide), scaled?_of_lt hx hlarge (by omega)]
  · by_cases hhigh : 2147483647 < e
    · rw [show max (-2147483648) (min 2147483647 e) = 2147483647 by omega,
        scaled?_of_large (by decide), scaled?_of_large (by omega)]
    · rw [show max (-2147483648) (min 2147483647 e) = e by omega]

/-! ## The reader -/

namespace Numeral

theorem Takes.unique (h : n.Takes m shift) (h' : n.Takes m' shift') : m = m' ∧ shift = shift' := by
  cases h with
  | @mk whole left fraction left' hwhole hfraction =>
    cases h' with
    | @mk whole' left₁ fraction' left₁' hwhole' hfraction' =>
      obtain ⟨hvalue, hcount⟩ :=
        Prod.mk.inj ((hwhole.takeDigits_eq 0).symm.trans (hwhole'.takeDigits_eq 0))
      rw [← hvalue] at hfraction'
      obtain ⟨hvalue', hcount'⟩ :=
        Prod.mk.inj ((hfraction.takeDigits_eq 0).symm.trans (hfraction'.takeDigits_eq 0))
      have hlength := congrArg List.length hwhole.eq_append
      have hlength' := congrArg List.length hwhole'.eq_append
      rw [List.length_append] at hlength hlength'
      rw [Nat.ofDigitChars_append, Nat.ofDigitChars_append, ← hvalue, hvalue']
      exact ⟨rfl, by omega⟩

theorem natAbs_exponentValue (below : Bool) (digits : Text) :
    (exponentValue (some (below, digits))).natAbs = Nat.ofDigitChars 10 digits 0 := by
  cases below <;> simp [exponentValue]

/-- The rounded significand scaled, with the sign of the numeral. -/
def scaledFloat? (n : Numeral) (m : Nat) (e : Int) : Option Binary64 := do
  let x ← scaled? ((ofRatio? false m 1).getD (.zero false)) e
  return x.withSign n.negative

theorem exists_ofRatio?_significand (hm : m < 2 ^ 64) : ∃ y, ofRatio? false m 1 = some y ∧
    y.negative = false ∧ IsNearest m y ∧ y.magnitude ≤ 2 ^ (65 : Int) := by
  have hcast : (m : ℚ) ≤ 2 ^ (64 : Int) := by exact_mod_cast hm.le
  have hlimit : (m : ℚ) < 2 ^ 1024 - 2 ^ 970 := by
    have hnat : m + 2 ^ 970 < 2 ^ 1024 :=
      lt_of_lt_of_le (Nat.add_lt_add_right hm _) (by decide +kernel)
    exact lt_sub_iff_add_lt.2 (by exact_mod_cast hnat)
  obtain ⟨y, hsign, hy⟩ := Binary64.exists_isNearest (Nat.cast_nonneg m) hlimit false
  refine ⟨y, ?_, hsign, hy, ?_⟩
  · rw [Binary64.ofRatio?_eq_some_iff Nat.one_pos, Nat.cast_one, div_one]
    exact ⟨hsign, hy⟩
  · calc y.magnitude ≤ 2 * m := hy.magnitude_le (Nat.cast_nonneg m)
      _ ≤ 2 * 2 ^ (64 : Int) := mul_le_mul_of_nonneg_left hcast two_pos.le
      _ = 2 ^ (65 : Int) := two_mul_zpow 64

theorem scaledFloat?_clampExponent (hm : m < 2 ^ 64) (e : Int) :
    scaledFloat? n m (clampExponent e) = scaledFloat? n m e := by
  obtain ⟨y, hy, hsign, -, hlarge⟩ := exists_ofRatio?_significand hm
  rw [scaledFloat?, scaledFloat?, hy, Option.getD_some, scaled?_clampExponent hsign hlarge]

theorem scaledFloat?_eq_some_iff (hm : m < 2 ^ 64) : scaledFloat? n m e = some x ↔
    x.negative = n.negative ∧ ∃ y, IsNearest m y ∧ Scaled y.magnitude e x := by
  obtain ⟨y, hratio, hsign, hy, -⟩ := exists_ofRatio?_significand hm
  rw [scaledFloat?, hratio, Option.getD_some]
  constructor
  · intro h
    obtain ⟨z, hz, heq⟩ := Option.bind_eq_some_iff.1 h
    obtain rfl := Option.some.inj heq
    obtain ⟨-, hz⟩ := (scaled?_eq_some_iff hsign).1 hz
    exact ⟨rfl, y, hy, hz.withSign n.negative⟩
  · rintro ⟨hnegative, z, hz, hx⟩
    rw [hz.magnitude_eq hy (Nat.cast_nonneg m)] at hx
    have hscaled := (scaled?_eq_some_iff hsign).2 ⟨rfl, hx.withSign false⟩
    have hrestored : (x.withSign false).withSign n.negative = x :=
      Binary64.eq_of_magnitude_eq hnegative.symm rfl
    rw [hscaled, ← hrestored]
    rfl

theorem Takes.float?_eq (h : n.Takes m shift) : n.float? =
    if 2 ^ 31 ≤ (exponentValue n.exponent).natAbs then
      if m = 0 ∨ exponentValue n.exponent < 0 then some (.zero n.negative) else none
    else scaledFloat? n m (shift + exponentValue n.exponent) := by
  have hm := h.lt
  cases h with
  | @mk whole left fraction left' hwhole hfraction =>
    have hdropped : n.whole.length - whole.length = left.length := by
      rw [hwhole.eq_append, List.length_append]
      omega
    rw [Nat.ofDigitChars_append] at hm ⊢
    simp only [float?, hwhole.takeDigits_eq, hfraction.takeDigits_eq, Nat.zero_add, hdropped]
    generalize Nat.ofDigitChars 10 fraction (Nat.ofDigitChars 10 whole 0) = m at *
    cases n.exponent with
    | none => rw [exponentValue, if_neg (by decide), add_zero]; rfl
    | some exponent =>
      obtain ⟨below, digits⟩ := exponent
      -- counting exponents in 32 bits makes no difference
      have hclamp := scaledFloat?_clampExponent (n := n) hm
        ((left.length : Int) - fraction.length + exponentValue (some (below, digits)))
      simp only [natAbs_exponentValue]
      have hlimit : exponentLimit = 2 ^ 31 := rfl
      rw [hlimit]
      generalize hdigits : Nat.ofDigitChars 10 digits 0 = k at *
      by_cases hk : 2 ^ 31 ≤ k
      · have hbelow : exponentValue (some (below, digits)) < 0 ↔ below = true := by
          cases below with
          | true =>
            simp only [exponentValue, hdigits, if_true, iff_true]
            omega
          | false => simp [exponentValue]
        rw [if_pos hk, if_pos hk]
        simp only [hbelow, Bool.or_eq_true, decide_eq_true_eq]
        rfl
      · rw [if_neg hk, if_neg hk, ← hclamp]
        cases below <;> simp only [exponentValue, hdigits] <;> rfl

theorem float?_eq_some_iff : n.float? = some x ↔ n.Stepwise x := by
  obtain ⟨m, shift, hm⟩ := n.exists_takes
  rw [hm.float?_eq]
  constructor
  · intro h
    split at h
    next he =>
      split at h
      next hzero =>
        obtain rfl := Option.some.inj h
        exact .immense hm he hzero
      next => cases h
    next he =>
      obtain ⟨hsign, y, hy, hx⟩ := (scaledFloat?_eq_some_iff hm.lt).1 h
      exact .scaled hm (not_le.1 he) hy hx hsign
  · intro h
    cases h with
    | scaled hm' he hy hx hsign =>
      obtain ⟨rfl, rfl⟩ := hm.unique hm'
      rw [if_neg (not_le.2 he)]
      exact (scaledFloat?_eq_some_iff hm.lt).2 ⟨hsign, _, hy, hx⟩
    | immense hm' he hzero =>
      obtain ⟨rfl, rfl⟩ := hm.unique hm'
      rw [if_pos he, if_pos hzero]

theorem Takes.stepwise_iff (hm : n.Takes m shift)
    (he : (exponentValue n.exponent).natAbs < 2 ^ 31) : n.Stepwise x ↔ x.negative = n.negative ∧
      ∃ y, IsNearest m y ∧ Scaled y.magnitude (shift + exponentValue n.exponent) x := by
  rw [← float?_eq_some_iff, hm.float?_eq, if_neg (not_le.2 he), scaledFloat?_eq_some_iff hm.lt]

theorem Stepwise.negative_eq (h : n.Stepwise x) : x.negative = n.negative := by
  cases h with
  | scaled _ _ _ _ hsign => exact hsign
  | immense => rfl

end Numeral

/-! ## Where the steps find the nearest number -/

theorem exists_magnitude_eq_ten_pow (hk : k ≤ 22) : ∃ p : Binary64, p.magnitude = 10 ^ k := by
  have hall : ∀ k < 23, (powerOfTen? k).any (fun p =>
      p.numerator = 10 ^ k * p.denominator) = true := by decide +kernel
  obtain ⟨p, -, hp⟩ := (Option.any_eq_true _ _).1 (hall k (Nat.lt_succ_of_le hk))
  have hden : (p.denominator : ℚ) ≠ 0 := Nat.cast_ne_zero.2 p.denominator_pos.ne'
  refine ⟨p, ?_⟩
  rw [← Binary64.quotient_eq, div_eq_iff hden]
  exact_mod_cast of_decide_eq_true hp

theorem scaled_iff_of_small (he : e.natAbs ≤ 22) : Scaled q e x ↔ IsNearest (q * 10 ^ e) x := by
  obtain ⟨p, hp⟩ := exists_magnitude_eq_ten_pow he
  have hexact : ∀ {r : ℚ}, r = 10 ^ e.natAbs → IsNearest r p := by
    rintro r rfl
    exact hp ▸ Binary64.isNearest_magnitude_iff.2 rfl
  by_cases hsign : 0 ≤ e
  · have hpower : (10 : ℚ) ^ e = 10 ^ e.natAbs := by
      rw [← zpow_natCast, Int.natAbs_of_nonneg hsign]
    rw [scaled_iff_up hsign (by omega) (hexact hpower), hp, hpower]
  · have hpower : (10 : ℚ) ^ (-e) = 10 ^ e.natAbs := by
      rw [← zpow_natCast, Int.ofNat_natAbs_of_nonpos (by omega)]
    rw [scaled_iff_down (by omega) (by omega) (hexact hpower), hp, ← hpower, zpow_neg,
      div_inv_eq_mul]

namespace Numeral

/-- The significand and the power of ten are numbers of the format, and the exponent is not so large
that the reader does not count it. -/
def IsShort (n : Numeral) : Prop :=
  n.significand < 2 ^ 53 ∧ n.power.natAbs ≤ 22 ∧ (exponentValue n.exponent).natAbs < 2 ^ 31

/-- The nearest number to the value of a short numeral. -/
def ShortNearest (n : Numeral) (x : Binary64) : Prop := n.IsShort ∧ n.Nearest x

/-- A short numeral denotes the nearest number, also when it is read in steps. -/
theorem IsShort.stepwise_iff_nearest (h : n.IsShort) : n.Stepwise x ↔ n.Nearest x := by
  obtain ⟨hm, hpower, hexponent⟩ := h
  have htakes := n.takes_significand (hm.trans (by decide))
  have hshift : -((n.fraction.getD []).length : Int) + exponentValue n.exponent = n.power := by
    rw [power]
    ring
  rw [htakes.stepwise_iff hexponent, hshift, Nearest]
  refine and_congr_right fun _ => ?_
  obtain ⟨y, hy⟩ := Binary64.exists_magnitude_eq_natural hm
  constructor
  · rintro ⟨z, hz, hx⟩
    rwa [(Binary64.isNearest_natural_iff hm).1 hz, scaled_iff_of_small hpower] at hx
  · intro hx
    refine ⟨y, (Binary64.isNearest_natural_iff hm).2 hy, ?_⟩
    rwa [hy, scaled_iff_of_small hpower]

theorem nearest?_of_float? (hm : n.significand < 2 ^ 53) (hp : n.power.natAbs ≤ 22)
    (h : n.float? = some x) : n.nearest? = some x := by
  rw [float?_eq_some_iff] at h
  rw [nearest?_eq_some_iff]
  by_cases he : (exponentValue n.exponent).natAbs < 2 ^ 31
  · exact (IsShort.stepwise_iff_nearest ⟨hm, hp, he⟩).1 h
  · -- so large an exponent stands with a small power only if the fraction is as long
    cases h with
    | scaled _ hsmall => exact absurd hsmall he
    | immense htakes _ hzero =>
      obtain ⟨rfl, -⟩ := htakes.unique (n.takes_significand (hm.trans (by decide)))
      have hsignificand : n.significand = 0 := by
        rw [power] at hp
        refine hzero.resolve_right fun hnegative => ?_
        omega
      refine ⟨rfl, ?_⟩
      rw [hsignificand, Nat.cast_zero, zero_mul, Binary64.isNearest_zero_iff]
      exact Binary64.magnitude_zero _

theorem IsWord.stepwise_iff (h : n.IsWord) :
    n.Stepwise x ↔ x.negative = n.negative ∧ IsNearest n.significand x := by
  have hexponent : exponentValue n.exponent = 0 := by
    rw [h.2.1]
    rfl
  have hshift : -((n.fraction.getD []).length : Int) + exponentValue n.exponent = 0 := by
    rw [hexponent, h.1]
    rfl
  rw [(n.takes_significand h.2.2).stepwise_iff (by rw [hexponent]; decide), hshift]
  refine and_congr_right fun _ => ?_
  have hscaled : ∀ y : Binary64, Scaled y.magnitude 0 x ↔ x.magnitude = y.magnitude := by
    intro y
    rw [scaled_iff_of_small (by decide), zpow_zero, mul_one, Binary64.isNearest_magnitude_iff]
  constructor
  · rintro ⟨y, hy, hx⟩
    exact hy.congr ((hscaled y).1 hx)
  · intro hx
    exact ⟨x, hx, (hscaled x).2 rfl⟩

/-- The value of a numeral is what it denotes by reading it in steps. -/
theorem value?_eq_some_iff {v : Number} : n.value? = some v ↔ n.Denotes Stepwise v := by
  by_cases hfits : n.Fits
  · rw [hfits.value?_eq]
    constructor
    · intro h
      obtain rfl := Option.some.inj h
      exact .int hfits
    · intro h
      cases h with
      | int => rfl
      | float hnot => exact absurd hfits hnot
  · have hfloat : n.value? = n.float?.map .float := by
      by_cases hword : n.IsWord
      · rw [(hword.value?_eq_of_not_fits hfits).2]
        refine congrArg (Option.map Number.float) (Option.ext fun x => ?_)
        rw [float?_eq_some_iff, hword.stepwise_iff, Binary64.ofRatio?_eq_some_iff Nat.one_pos,
          Nat.cast_one, div_one]
      · exact value?_of_not_isWord hword
    rw [hfloat]
    constructor
    · intro h
      obtain ⟨x, hx, rfl⟩ := Option.map_eq_some_iff.1 h
      exact .float hfits (float?_eq_some_iff.1 hx)
    · intro h
      cases h with
      | int h => exact absurd h hfits
      | float _ hx => rw [float?_eq_some_iff.2 hx]; rfl

end Numeral

end PropCatalog.Json
