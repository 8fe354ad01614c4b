import PropCatalog.Proofs.Json.Numeral
import PropCatalog.Proofs.Literal.Evaluation

/-!
# Numerals as literals

A numeral that stands alone is read by the rules of the literals: an integer of 64 bits with its
sign stays one, and the value of any other numeral is rounded once (`number?_of_isNumeral`).
-/

namespace PropCatalog.Literal

open Json

variable {s : Text} {n : Numeral}

/-- An integer that fits into 64 bits with its sign. -/
def FitsSigned (n : Numeral) : Prop :=
  n.IsWord ∧ if n.negative then n.significand ≤ Word64.signedLimit
    else n.significand < Word64.signedLimit

instance (n : Numeral) : Decidable (FitsSigned n) :=
  inferInstanceAs (Decidable (n.IsWord ∧ if n.negative then n.significand ≤ Word64.signedLimit
    else n.significand < Word64.signedLimit))

/-- The number that a numeral denotes as a literal of its own. -/
def ofNumeral? (n : Numeral) : Option Number :=
  if FitsSigned n then some (.int n.signed)
  else n.nearest?.map fun x => Number.wholeToInt (.float x)

theorem FitsSigned.exists_value? (h : FitsSigned n) :
    ∃ x, n.value? = some x ∧ x.wholeToInt = .int n.signed := by
  rw [h.1.value?_eq]
  have hfits := h.2
  cases hnegative : n.negative with
  | false => exact ⟨_, rfl, by rw [Number.wholeToInt, Numeral.signed, hnegative]; rfl⟩
  | true =>
    rw [if_pos hnegative] at hfits
    rcases Nat.eq_zero_or_pos n.significand with hzero | hpos
    · -- the negative zero is read as a double, which equals the integer zero
      refine ⟨.float (.zero true), by rw [hzero]; rfl, ?_⟩
      rw [Number.wholeToInt_eq_int_iff, Numeral.signed, hzero]
      exact ⟨by simpa using Binary64.equals_zero true, by simp⟩
    · refine ⟨.int n.signed, ?_, rfl⟩
      simp [hpos, hfits, Numeral.signed, hnegative]

theorem ne_of_isDigit {c d : Char} (hc : c.isDigit = true) (hd : d.isDigit = false) : c ≠ d := by
  rintro rfl
  rw [hc] at hd
  cases hd

theorem isNumberChar_of_isDigit {c : Char} (hc : c.isDigit = true) : isNumberChar c = true := by
  simp [isNumberChar, hc]

theorem sign_of_isDigits {digits : Text} (h : IsDigits digits) (x : Text) :
    sign (digits ++ x) = (false, digits ++ x) := by
  obtain ⟨c, digits, rfl⟩ := List.exists_cons_of_ne_nil h.1
  have hc := h.2 c (by simp)
  have hdash : c ≠ '-' := ne_of_isDigit hc rfl
  have hplus : c ≠ '+' := ne_of_isDigit hc rfl
  simp [sign, hdash, hplus]

theorem sign_numeral {whole : Text} (negative : Bool) (h : IsWhole whole) (x : Text) :
    sign ((if negative then ['-'] else []) ++ (whole ++ x)) = (negative, whole ++ x) := by
  cases negative with
  | true => rfl
  | false => exact sign_of_isDigits (isDigits_of_isWhole h) x

theorem exponent?_of_isExponent {e : Text} {exponent : Option (Bool × Text)}
    (h : IsExponent e exponent) :
    Literal.exponent? e = some (Numeral.exponentValue exponent) := by
  have hread : ∀ {letter : Char} {t digits : Text} {below : Bool}, letter = 'e' ∨ letter = 'E' →
      IsDigits digits → sign t = (below, digits) →
      Literal.exponent? (letter :: t) = some (Numeral.exponentValue (some (below, digits))) := by
    intro letter t digits below hletter hdigits hsign
    have hvalid : (!digits.isEmpty && digits.all Char.isDigit) = true := by
      rw [List.all_eq_true.2 hdigits.2]
      simpa using hdigits.1
    rw [Literal.exponent?, if_pos (by simpa using hletter), hsign]
    dsimp only
    rw [if_pos hvalid]
    rfl
  cases h with
  | none => rfl
  | @unsigned letter digits hletter hdigits =>
    have hsign := sign_of_isDigits hdigits []
    rw [List.append_nil] at hsign
    exact hread hletter hdigits hsign
  | signed hletter hsign hdigits => rcases hsign with rfl | rfl <;> exact hread hletter hdigits rfl

theorem head?_exponent {e : Text} {exponent : Option (Bool × Text)} (h : IsExponent e exponent) :
    e.head?.any Char.isDigit = false ∧ e.head? ≠ some '.' := by
  cases h with
  | none => exact ⟨rfl, by simp⟩
  | unsigned hletter | signed hletter => rcases hletter with rfl | rfl <;> exact ⟨rfl, by simp⟩

theorem decimal?_of_isNumeral (h : IsNumeral s n) : decimal? s = n.nearest? := by
  obtain @⟨negative, whole, fraction, exponent, fraction?, exponent?, hwhole, hfraction,
    hexponent⟩ := h
  obtain ⟨hne, hdigits⟩ := isDigits_of_isWhole hwhole
  obtain ⟨hdigit, hpoint⟩ := head?_exponent hexponent
  have hempty : whole.isEmpty = false := by simpa using hne
  rw [decimal?, sign_numeral negative hwhole]
  cases hfraction with
  | none =>
    obtain ⟨htake, hdrop⟩ := Text.span_append hdigits hdigit
    simp only [List.nil_append, htake, hdrop]
    split
    · exact absurd rfl hpoint
    · simp only [exponent?_of_isExponent hexponent, Option.bind_eq_bind, Option.bind_some, hempty,
        Bool.false_and, Bool.false_eq_true, if_false]
      rfl
  | @some digits hfraction =>
    obtain ⟨htake, hdrop⟩ := Text.span_append (s := '.' :: (digits ++ exponent)) hdigits rfl
    obtain ⟨htake', hdrop'⟩ := Text.span_append hfraction.2 hdigit
    simp only [List.cons_append, htake, hdrop, htake', hdrop', exponent?_of_isExponent hexponent,
      Option.bind_eq_bind, Option.bind_some, hempty, Bool.false_and, Bool.false_eq_true, if_false]
    rfl

theorem all_isDigit_iff {fraction exponent : Text} {fraction? : Option Text}
    {exponent? : Option (Bool × Text)} (hfraction : IsFraction fraction fraction?)
    (hexponent : IsExponent exponent exponent?) :
    (fraction ++ exponent).all Char.isDigit = true ↔ fraction? = none ∧ exponent? = none := by
  have hletter : ∀ {letter : Char}, letter = 'e' ∨ letter = 'E' → letter.isDigit = false := by
    rintro letter (rfl | rfl) <;> rfl
  cases hfraction with
  | some => simp
  | none =>
    cases hexponent with
    | none => simp
    | unsigned h | signed h => simp [hletter h]

theorem integer?_of_isNumeral (h : IsNumeral s n) : integer? s =
    if FitsSigned n then some n.signed else none := by
  have hlimit : Word64.signedLimit < Word64.limit := by decide
  obtain @⟨negative, whole, fraction, exponent, fraction?, exponent?, hwhole, hfraction,
    hexponent⟩ := h
  obtain ⟨hne, hdigits⟩ := isDigits_of_isWhole hwhole
  have hall := List.all_eq_true.2 hdigits
  have htail := all_isDigit_iff hfraction hexponent
  rw [integer?, sign_numeral negative hwhole]
  by_cases hplain : fraction? = none ∧ exponent? = none
  · obtain ⟨rfl, rfl⟩ := hplain
    cases hfraction
    cases hexponent
    have hempty : whole.isEmpty = false := by simpa using hne
    simp only [List.append_nil, hall, hempty, FitsSigned, Numeral.IsWord, Numeral.signed,
      Numeral.significand_of_fraction_eq_none, true_and, Bool.not_false, Bool.and_true, if_true]
    generalize Nat.ofDigitChars 10 whole 0 = m
    cases negative with
    | true =>
      have hfits : m < Word64.limit ∧ m ≤ Word64.signedLimit ↔ m ≤ Word64.signedLimit := by omega
      simp only [if_true, hfits]
    | false =>
      have hfits : m < Word64.limit ∧ m < Word64.signedLimit ↔ m < Word64.signedLimit := by omega
      simp only [Bool.false_eq_true, if_false, hfits]
  · have hnot : ¬ FitsSigned ⟨negative, whole, fraction?, exponent?⟩ :=
      fun hfits => hplain ⟨hfits.1.1, hfits.1.2.1⟩
    have hfalse : (fraction ++ exponent).all Char.isDigit = false := by
      rw [← Bool.not_eq_true, htail]
      exact hplain
    dsimp only
    rw [if_neg hnot, List.all_append, hfalse, Bool.and_false, Bool.and_false,
      if_neg Bool.false_ne_true]

theorem isNumberChar_of_isNumeral (h : IsNumeral s n) :
    s.any Char.isDigit = true ∧ s.all isNumberChar = true := by
  obtain @⟨negative, whole, fraction, exponent, fraction?, exponent?, hwhole, hfraction,
    hexponent⟩ := h
  have hdigits : ∀ {digits : Text}, IsDigits digits → digits.all isNumberChar = true :=
    fun h => List.all_eq_true.2 fun c hc => isNumberChar_of_isDigit (h.2 c hc)
  have hsome : whole.any Char.isDigit = true := by
    obtain ⟨hne, hall⟩ := isDigits_of_isWhole hwhole
    obtain ⟨c, hc⟩ := List.exists_mem_of_ne_nil whole hne
    exact List.any_eq_true.2 ⟨c, hc, hall c hc⟩
  have hdash : (if negative then ['-'] else [] : Text).all isNumberChar = true := by
    cases negative <;> rfl
  have hfractionChars : fraction.all isNumberChar = true := by
    cases hfraction with
    | none => rfl
    | some h => exact (hdigits h :)
  have hexponentChars : exponent.all isNumberChar = true := by
    cases hexponent with
    | none => rfl
    | unsigned hletter h => rcases hletter with rfl | rfl <;> exact (hdigits h :)
    | signed hletter hsign h =>
      rcases hletter with rfl | rfl <;> rcases hsign with rfl | rfl <;> exact (hdigits h :)
  constructor
  · rw [List.any_append, List.any_append, hsome, Bool.true_or, Bool.or_true]
  · rw [List.all_append, List.all_append, List.all_append, hdash,
      hdigits (isDigits_of_isWhole hwhole), hfractionChars, hexponentChars]
    rfl

/-- A numeral that stands alone: an integer of 64 bits with its sign stays one, and the value of
every other numeral is rounded once. -/
theorem number?_of_isNumeral (h : IsNumeral s n) : number? s = ofNumeral? n := by
  obtain ⟨hdigit, hchars⟩ := isNumberChar_of_isNumeral h
  rw [number?, hdigit, hchars, integer?_of_isNumeral h, decimal?_of_isNumeral h, ofNumeral?]
  by_cases hfits : FitsSigned n
  · rw [if_pos hfits, if_pos hfits]
    rfl
  · rw [if_neg hfits, if_neg hfits]
    rfl

end PropCatalog.Literal
