import Mathlib.Data.List.TakeWhile
import Mathlib.Data.Nat.Cast.Order.Field
import PropCatalog.Proofs.Binary64
import PropCatalog.Proofs.Example.Strings
import PropCatalog.Proofs.Json.Grammar

/-!
# The texts of numbers

A number is written as a numeral of JSON (`exists_isNumeral_text`). For an integer this is clear. A
double is written by the point of a decimal grid that reads back as the number, and the text is a
numeral because such a point is found at all: the last of the grids that are tried has steps smaller
than half the distance to the next number of the format (`unit_lt_power`), so that the first point
above the number reads back as it. A point that reads back as a number other than zero is not zero
(`ne_zero_of_gridPoint?`), and so its digits start with one that is not zero.
-/

namespace PropCatalog.Json

variable {n : Nat} {e first : Int} {digits fraction exponent whole : Text}

/-! ## Digits -/

theorem isDigits_toDigits (n : Nat) : IsDigits (Nat.toDigits 10 n) :=
  ⟨Nat.toDigits_ne_nil, fun _ hc => Nat.isDigit_of_mem_toDigits (by decide) (by decide) hc⟩

theorem head?_toDigits_ne (hn : 0 < n) : (Nat.toDigits 10 n).head? ≠ some '0' := by
  induction n using Nat.strongRecOn with
  | ind n ih =>
    by_cases hsmall : n < 10
    · rw [Nat.toDigits_of_lt_base hsmall, List.head?_cons, ne_eq, Option.some_inj,
        Nat.digitChar_eq_zero]
      omega
    · rw [Nat.toDigits_of_base_le (by decide) (by omega), List.head?_append_of_ne_nil _
        Nat.toDigits_ne_nil]
      exact ih (n / 10) (by omega) (by omega)

theorem pow_length_toDigits_le (hn : 0 < n) : 10 ^ ((Nat.toDigits 10 n).length - 1) ≤ n := by
  rcases Nat.eq_zero_or_pos ((Nat.toDigits 10 n).length - 1) with hone | hmany
  · rw [hone]
    exact hn
  · by_contra hlt
    have hshort := (Nat.length_toDigits_le_iff (by decide) hmany).2 (Nat.lt_of_not_le hlt)
    omega

theorem isWhole_toDigits (n : Nat) : IsWhole (Nat.toDigits 10 n) := by
  rcases Nat.eq_zero_or_pos n with rfl | hn
  · exact .inl rfl
  · exact .inr ⟨isDigits_toDigits n, head?_toDigits_ne hn⟩

theorem isDigits_zeros (hn : 0 < n) : IsDigits (List.replicate n '0') :=
  ⟨by simpa using Nat.ne_of_gt hn, fun c hc => by rw [List.eq_of_mem_replicate hc]; rfl⟩

namespace Number

theorem significantDigits_spec (hn : 0 < n) :
    IsDigits (significantDigits n).1 ∧ (significantDigits n).1.head? ≠ some '0' := by
  have hhead := head?_toDigits_ne hn
  obtain ⟨hne, hall⟩ := isDigits_toDigits n
  have hsplit : Nat.toDigits 10 n = (significantDigits n).1 ++
      ((Nat.toDigits 10 n).reverse.takeWhile (· = '0')).reverse := by
    rw [significantDigits, ← List.reverse_append, List.takeWhile_append_dropWhile,
      List.reverse_reverse]
  have hkept : (significantDigits n).1 ≠ [] := by
    intro hnil
    rw [hnil, List.nil_append] at hsplit
    obtain ⟨c, t, hdigits⟩ := List.exists_cons_of_ne_nil hne
    have hzero : c ∈ (Nat.toDigits 10 n).reverse.takeWhile (· = '0') := by
      rw [← List.mem_reverse, ← hsplit, hdigits]
      exact List.mem_cons_self
    have hc : c = '0' := by simpa using List.mem_takeWhile_imp hzero
    rw [hdigits, hc] at hhead
    exact hhead rfl
  refine ⟨⟨hkept, fun c hc => hall c ?_⟩, ?_⟩
  · rw [hsplit]
    exact List.mem_append_left _ hc
  · rwa [hsplit, List.head?_append_of_ne_nil _ hkept] at hhead

/-! ## Magnitudes -/

/-- The text is a numeral, with a minus sign and without one. -/
def IsMagnitude (s : Text) : Prop :=
  ∀ negative : Bool, ∃ n, IsNumeral ((if negative then ['-'] else []) ++ s) n

theorem isMagnitude_parts {fraction? : Option Text} {exponent? : Option (Bool × Text)}
    (hwhole : IsWhole whole) (hfraction : IsFraction fraction fraction?)
    (hexponent : IsExponent exponent exponent?) :
    IsMagnitude (whole ++ (fraction ++ exponent)) :=
  fun _ => ⟨_, .mk hwhole hfraction hexponent⟩

theorem isMagnitude_layout (hdigits : IsDigits digits) (hhead : digits.head? ≠ some '0')
    (e : Int) : IsMagnitude (layout digits e) := by
  obtain ⟨hne, hall⟩ := hdigits
  have hexponent : IsExponent ('e' :: (if e < 0 then '-' else '+') :: Nat.toDigits 10 e.natAbs)
      (some ((if e < 0 then '-' else '+') = '-', Nat.toDigits 10 e.natAbs)) :=
    .signed (.inl rfl) (by split <;> simp) (isDigits_toDigits _)
  rw [layout]
  split
  · split
    · -- below one: the digits stand behind the point and some zeros
      have hfraction : IsDigits (List.replicate (-e - 1).toNat '0' ++ digits) := by
        refine ⟨by simp [hne], fun c hc => ?_⟩
        rcases List.mem_append.1 hc with hc | hc
        · rw [List.eq_of_mem_replicate hc]
          rfl
        · exact hall c hc
      have hparts := isMagnitude_parts (.inl rfl) (.some hfraction) .none
      rw [List.append_nil] at hparts
      exact hparts
    · -- the point stands among the digits, or behind them and some zeros
      dsimp only
      generalize hpadded : digits ++ List.replicate (e.toNat + 1 - digits.length) '0' = padded
      have hdigit : ∀ c ∈ padded, c.isDigit = true := by
        rw [← hpadded]
        intro c hc
        rcases List.mem_append.1 hc with hc | hc
        · exact hall c hc
        · rw [List.eq_of_mem_replicate hc]
          rfl
      have hwhole : IsWhole (padded.take (e.toNat + 1)) := by
        obtain ⟨c, t, rfl⟩ := List.exists_cons_of_ne_nil hne
        rw [List.cons_append] at hpadded
        rw [← hpadded] at hdigit ⊢
        refine .inr ⟨⟨by simp, fun c hc => hdigit c (List.mem_of_mem_take hc)⟩, ?_⟩
        simpa using hhead
      have hfraction : IsDigits
          (if (padded.drop (e.toNat + 1)).isEmpty then ['0'] else padded.drop (e.toNat + 1)) := by
        split
        · exact isDigits_zeros Nat.one_pos
        next hfull =>
          exact ⟨by simpa using hfull, fun c hc => hdigit c (List.mem_of_mem_drop hc)⟩
      have hparts := isMagnitude_parts hwhole (.some hfraction) .none
      rw [List.append_nil] at hparts
      exact hparts
  · -- with an exponent the point stands behind the first digit
    have hone : ∀ {c : Char}, c ∈ digits → c ≠ '0' → IsWhole [c] := fun hc hzero =>
      .inr ⟨⟨by simp, by simpa using hall _ hc⟩, by simpa using hzero⟩
    dsimp only
    split
    next c d t =>
      have hwhole : IsWhole [c] := hone (by simp) (by simpa using hhead)
      exact isMagnitude_parts hwhole
        (.some ⟨by simp, fun c hc => hall c (List.mem_cons_of_mem _ hc)⟩) hexponent
    next hshort =>
      obtain ⟨c, t, rfl⟩ := List.exists_cons_of_ne_nil hne
      obtain rfl : t = [] := by
        cases t with
        | nil => rfl
        | cons d t => exact absurd rfl (hshort c d t)
      exact isMagnitude_parts (hone (by simp) (by simpa using hhead)) .none hexponent

/-! ## The search for the shortest digits -/

theorem zpow_length_toDigits_le {a b k : Nat} {m : Int} (hb : 0 < b) (h : b ≤ a * Nat.pow 10 k)
    (hm : m = k + 1) :
    (10 : ℚ) ^ ((Nat.toDigits 10 (a * Nat.pow 10 k / b)).length - m) ≤ a / b := by
  rw [Nat.pow_eq] at h ⊢
  have hlength := pow_length_toDigits_le ((Nat.one_le_div_iff hb).2 h)
  have hexponent : (Nat.toDigits 10 (a * 10 ^ k / b)).length - m =
      ((Nat.toDigits 10 (a * 10 ^ k / b)).length - 1 : Nat) - (k : Int) := by
    have hpos := Nat.length_toDigits_pos (b := 10) (n := a * 10 ^ k / b)
    omega
  have hcast : (10 : ℚ) ^ ((Nat.toDigits 10 (a * 10 ^ k / b)).length - 1) ≤
      (a * 10 ^ k : Nat) / b := by
    refine le_trans ?_ Nat.cast_div_le
    exact_mod_cast hlength
  rw [hexponent, zpow_sub₀ (by norm_num), zpow_natCast, zpow_natCast, div_le_iff₀ (by positivity)]
  refine hcast.trans (le_of_eq ?_)
  push_cast
  ring

theorem Interval.holds_next {i : Interval} (hunit : 0 < i.unit) (hlow : i.low ≤ i.mid)
    (hstep : i.mid * 10 ^ (-e).toNat + i.unit * 10 ^ e.toNat < i.high * 10 ^ (-e).toNat) :
    i.holds (i.mid * 10 ^ (-e).toNat / (i.unit * 10 ^ e.toNat) + 1) e = true := by
  have hpos : 0 < i.unit * 10 ^ e.toNat := Nat.mul_pos hunit (Nat.pow_pos (by decide))
  have habove := Nat.lt_div_mul_add (a := i.mid * 10 ^ (-e).toNat) hpos
  have hbelow := Nat.div_mul_le_self (i.mid * 10 ^ (-e).toNat) (i.unit * 10 ^ e.toNat)
  generalize i.mid * 10 ^ (-e).toNat / (i.unit * 10 ^ e.toNat) = q at *
  have hvalue : (q + 1) * 10 ^ e.toNat * i.unit =
      q * (i.unit * 10 ^ e.toNat) + i.unit * 10 ^ e.toNat := by ring
  have hscaled := Nat.mul_le_mul_right (10 ^ (-e).toNat) hlow
  unfold holds
  simp only [Nat.pow_eq, hvalue]
  split
  · simp only [Bool.and_eq_true, decide_eq_true_eq]
    omega
  · simp only [Bool.and_eq_true, decide_eq_true_eq]
    omega

theorem Interval.isSome_gridPoint? {i : Interval}
    (h : i.holds (i.mid * 10 ^ (-e).toNat / (i.unit * 10 ^ e.toNat) + 1) e = true) :
    (i.gridPoint? e).isSome := by
  unfold gridPoint?
  simp only [Nat.pow_eq, h]
  split <;> simp_all

theorem Interval.ne_zero_of_holds {i : Interval} (hlow : 0 < i.low) (h : i.holds n e = true) :
    n ≠ 0 := by
  rintro rfl
  have hpos : 0 < i.low * 10 ^ (-e).toNat := Nat.mul_pos hlow (Nat.pow_pos (by decide))
  unfold holds at h
  simp only [Nat.pow_eq, Nat.zero_mul] at h
  split at h
  · simp only [Bool.and_eq_true, decide_eq_true_eq] at h
    omega
  · simp only [Bool.and_eq_true, decide_eq_true_eq] at h
    omega

theorem Interval.ne_zero_of_gridPoint? {i : Interval} (hlow : 0 < i.low)
    (h : i.gridPoint? e = some n) : n ≠ 0 := by
  unfold gridPoint? at h
  dsimp only at h
  split at h
  next hbelow _ =>
    have hpos := ne_zero_of_holds hlow hbelow
    obtain rfl := Option.some.inj h
    unfold Binary64.divEven
    dsimp only
    generalize i.mid * Nat.pow 10 (-e).toNat / (i.unit * Nat.pow 10 e.toNat) = q at *
    split
    · exact hpos
    · split <;> omega
  next hbelow _ =>
    obtain rfl := Option.some.inj h
    exact ne_zero_of_holds hlow hbelow
  next =>
    obtain rfl := Option.some.inj h
    exact Nat.succ_ne_zero _
  next => cases h

theorem Interval.exists_gridPoint?_shortest {i : Interval} {grids : List Nat} {places : Nat}
    (hmem : places ∈ grids) (h : (i.gridPoint? (first - places)).isSome) :
    i.gridPoint? (i.shortest first grids).2 = some (i.shortest first grids).1 := by
  induction grids with
  | nil => cases hmem
  | cons p grids ih =>
    rw [shortest]
    cases hp : i.gridPoint? (first - p) with
    | some n => exact hp
    | none =>
      refine ih ((List.mem_cons.1 hmem).resolve_left ?_)
      rintro rfl
      rw [hp] at h
      cases h

theorem unit_lt_power {x : Binary64} (hx : x.code.val ≠ 0)
    (he : e = decimalExponent x.numerator x.denominator - 17) :
    4 * x.denominator * 10 ^ e.toNat < 2 * 2 ^ (x.scale - 1074) * 10 ^ (-e).toNat := by
  obtain ⟨-, hsignificand, -⟩ := Binary64.code_eq x
  have hden := x.denominator_pos
  have hnum : 0 < x.numerator :=
    Nat.mul_pos (Binary64.significand_pos hx) (Nat.pow_pos (by decide))
  have hsmall : ∀ k : Nat, 1074 ≤ 3 * k → x.denominator ≤ x.numerator * Nat.pow 10 k := by
    intro k hk
    calc x.denominator ≤ 2 ^ (3 * k) := Nat.pow_le_pow_right (by decide) (by omega)
      _ = (2 ^ 3) ^ k := pow_mul 2 3 k
      _ ≤ Nat.pow 10 k := Nat.pow_le_pow_left (by decide) k
      _ ≤ x.numerator * Nat.pow 10 k := Nat.le_mul_of_pos_left _ hnum
  have hfirst : (10 : ℚ) ^ decimalExponent x.numerator x.denominator ≤
      x.numerator / x.denominator := by
    obtain ⟨k, hk⟩ : ∃ k, k = 400 := ⟨_, rfl⟩
    rw [decimalExponent, ← hk]
    exact zpow_length_toDigits_le hden (hsmall k (by omega)) (by omega)
  have hden' : (0 : ℚ) < x.denominator := Nat.cast_pos.2 hden
  have hpower : (0 : ℚ) < 2 ^ (x.scale - 1074) := by positivity
  have hcast : (x.numerator : ℚ) < 2 ^ 53 * 2 ^ (x.scale - 1074) := by
    rw [Binary64.binade_eq] at hsignificand
    have hlt : x.numerator < 2 ^ 53 * 2 ^ (x.scale - 1074) :=
      Nat.mul_lt_mul_of_pos_right hsignificand (Nat.pow_pos (by decide))
    exact_mod_cast hlt
  -- the first digit stands for less than two to the power 53 units in the last place
  have hdigit : (10 : ℚ) ^ (e + 17) * x.denominator < 2 ^ 53 * 2 ^ (x.scale - 1074) := by
    rw [he, Int.sub_add_cancel]
    exact lt_of_le_of_lt ((le_div_iff₀ hden').1 hfirst) hcast
  rw [zpow_add₀ (by norm_num), Binary64.zpow_ten_eq, show ((17 : Int)) = ((17 : Nat) : Int) from rfl,
    zpow_natCast, div_mul_eq_mul_div, div_mul_eq_mul_div, div_lt_iff₀ (by positivity)] at hdigit
  have hgoal : (4 * x.denominator * 10 ^ e.toNat : ℚ) <
      2 * 2 ^ (x.scale - 1074) * 10 ^ (-e).toNat := by
    have hright : (0 : ℚ) < 2 ^ (x.scale - 1074) * 10 ^ (-e).toNat := by positivity
    nlinarith only [hdigit, hright]
  exact_mod_cast hgoal

theorem shortest_ne_zero {x : Binary64} (hx : x.code.val ≠ 0) :
    ((interval x).shortest (decimalExponent x.numerator x.denominator) (List.range 18)).1 ≠ 0 := by
  have hsignificand := Binary64.significand_pos hx
  have hpower : 0 < Nat.pow 2 (x.scale - 1074) := Nat.pow_pos (by decide)
  have hlow : 0 < (interval x).low := by
    refine Nat.mul_pos ?_ hpower
    split <;> omega
  have hfinest : 17 ∈ List.range 18 := by simp
  refine Interval.ne_zero_of_gridPoint? hlow (Interval.exists_gridPoint?_shortest hfinest ?_)
  refine Interval.isSome_gridPoint? (Interval.holds_next ?_ ?_ ?_)
  · exact Nat.mul_pos (by decide) x.denominator_pos
  · refine Nat.mul_le_mul_right _ ?_
    split <;> omega
  · have hstep := unit_lt_power hx rfl
    change 4 * x.significand * 2 ^ (x.scale - 1074) * _ + 4 * x.denominator * _ <
      (4 * x.significand + 2) * 2 ^ (x.scale - 1074) * _
    rw [Nat.add_mul, Nat.add_mul]
    exact Nat.add_lt_add_left hstep _

theorem isMagnitude_floatText (x : Binary64) :
    ∃ magnitude, floatText x = (if x.negative then ['-'] else []) ++ magnitude ∧
      IsMagnitude magnitude := by
  unfold floatText
  extract_lets first magnitude
  refine ⟨magnitude, by split <;> rfl, ?_⟩
  subst magnitude
  split
  · exact isMagnitude_parts (.inl rfl) (.some (isDigits_zeros Nat.one_pos)) .none
  next hzero =>
    have hx : x.code.val ≠ 0 := by simpa [Binary64.isZero] using hzero
    have hpos := shortest_ne_zero hx
    -- the digits stay behind an equation, so that nothing computes them
    split
    next m e' hgrid =>
      rw [hgrid] at hpos
      split
      next digits zeros hsignificant =>
        obtain ⟨hdigits, hhead⟩ := significantDigits_spec (Nat.pos_of_ne_zero hpos)
        rw [hsignificant] at hdigits hhead
        exact isMagnitude_layout hdigits hhead _

/-- A number is written as a numeral. -/
theorem exists_isNumeral_text (x : Number) : ∃ n, IsNumeral x.text n := by
  cases x with
  | int n =>
    have hmagnitude : IsMagnitude (Nat.toDigits 10 n.natAbs) := by
      have hparts := isMagnitude_parts (isWhole_toDigits n.natAbs) .none .none
      simpa using hparts
    rw [text, intText]
    split
    · exact hmagnitude true
    · exact hmagnitude false
  | float x =>
    obtain ⟨magnitude, htext, hmagnitude⟩ := isMagnitude_floatText x
    rw [text, htext]
    exact hmagnitude x.negative

end Number

end PropCatalog.Json
