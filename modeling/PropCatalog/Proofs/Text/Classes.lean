import PropCatalog.Literal.Relaxed
import PropCatalog.Text.Word

/-!
# Classes of characters

The readers tell where a word ends by the class of the next character. Here the classes are kept
apart: a blank belongs to no word and to no identifier, and the characters that structure a text do
not either. There are 25 blanks, so what is to be said of a blank is said of each (`forall_blank`).
-/

namespace PropCatalog.Text

open Literal.Relaxed (isWordStart isWordRest)

/-! ## Blanks -/

/-- The code points of the blanks. -/
def blankCodes : List Nat :=
  [0x9, 0xA, 0xB, 0xC, 0xD, 0x20, 0x85, 0xA0, 0x1680, 0x2000, 0x2001, 0x2002, 0x2003, 0x2004,
   0x2005, 0x2006, 0x2007, 0x2008, 0x2009, 0x200A, 0x2028, 0x2029, 0x202F, 0x205F, 0x3000]

theorem toNat_mem_blankCodes {c : Char} (h : isBlank c = true) : c.toNat ∈ blankCodes := by
  simp only [isBlank, Bool.or_eq_true, Bool.and_eq_true, decide_eq_true_eq, Char.le_def,
    ← Char.toNat_inj, UInt32.le_iff_toNat_le] at h
  simp only [blankCodes, List.mem_cons, List.not_mem_nil, or_false]
  have hval : c.val.toNat = c.toNat := rfl
  simp only [hval] at h
  simp at h
  omega

theorem forall_blank {p : Char → Bool} (hall : blankCodes.all fun n => p (Char.ofNat n)) {c : Char}
    (h : isBlank c = true) : p c = true := by
  have hcode := List.all_eq_true.1 hall _ (toNat_mem_blankCodes h)
  rwa [Char.ofNat_toNat] at hcode

theorem isIdentRest_of_isBlank {c : Char} (h : isBlank c = true) : isIdentRest c = false := by
  have hc := forall_blank (p := fun c => !isIdentRest c) (by decide +kernel) h
  simpa using hc

theorem isWordRest_of_isBlank {c : Char} (h : isBlank c = true) : isWordRest c = false := by
  have hc := forall_blank (p := fun c => !isWordRest c) (by decide +kernel) h
  simpa using hc

/-! ## Words -/

theorem isIdentRest_of_isIdentStart {c : Char} (h : isIdentStart c = true) :
    isIdentRest c = true := by
  simp only [isIdentStart, Bool.or_eq_true, decide_eq_true_eq] at h
  rcases h with (hc | rfl) | rfl
  · have hsmall : c.val < 128 := by
      delta Char.isAlpha Char.isUpper Char.isLower at hc
      simp only [Bool.or_eq_true, Bool.and_eq_true, decide_eq_true_eq, UInt32.le_iff_toNat_le,
        UInt32.lt_iff_toNat_lt] at hc ⊢
      have hZ : 'Z'.val.toNat = 90 := rfl
      have hz : 'z'.val.toNat = 122 := rfl
      have hlimit : (128 : UInt32).toNat = 128 := rfl
      omega
    simp [isIdentRest, isWord, hsmall, Char.isAlphanum, hc]
  · rfl
  · rfl

theorem isIdentStart_of_isBlank {c : Char} (h : isBlank c = true) : isIdentStart c = false := by
  refine Bool.eq_false_iff.2 fun hstart => ?_
  have hrest := isIdentRest_of_isIdentStart hstart
  rw [isIdentRest_of_isBlank h] at hrest
  cases hrest

theorem isBlank_of_isIdentStart {c : Char} (h : isIdentStart c = true) : isBlank c = false := by
  refine Bool.eq_false_iff.2 fun hblank => ?_
  rw [isIdentStart_of_isBlank hblank] at h
  cases h

theorem isWordRest_of_isWordStart {c : Char} (h : isWordStart c = true) : isWordRest c = true := by
  simp only [isWordStart, isWordRest, isAlphanumeric, Bool.or_eq_true] at h ⊢
  exact h.imp_left (Or.imp_left Or.inl)

theorem isWordRest_of_isDigit {c : Char} (h : c.isDigit = true) : isWordRest c = true := by
  have hsmall : c.val < 128 := by
    simp only [Char.isDigit, Bool.and_eq_true, decide_eq_true_eq, UInt32.le_iff_toNat_le,
      UInt32.lt_iff_toNat_lt] at h ⊢
    have h9 : '9'.val.toNat = 57 := rfl
    have hlimit : (128 : UInt32).toNat = 128 := rfl
    omega
  simp [isWordRest, isAlphanumeric, isNumeric, hsmall, h]

theorem isBlank_of_isWordRest {c : Char} (h : isWordRest c = true) : isBlank c = false := by
  refine Bool.eq_false_iff.2 fun hblank => ?_
  rw [isWordRest_of_isBlank hblank] at h
  cases h

theorem le_toNat_of_class {p : Char → Bool} (hp : (List.range 0x20).all fun n => !p (Char.ofNat n))
    {c : Char} (hc : p c = true) : 0x20 ≤ c.toNat := by
  refine Nat.le_of_not_lt fun hlt => ?_
  have hnone := List.all_eq_true.1 hp _ (List.mem_range.2 hlt)
  rw [Char.ofNat_toNat, hc] at hnone
  cases hnone

theorem le_toNat_of_isWordRest {c : Char} (h : isWordRest c = true) : 0x20 ≤ c.toNat :=
  le_toNat_of_class (by decide +kernel) h

end PropCatalog.Text
