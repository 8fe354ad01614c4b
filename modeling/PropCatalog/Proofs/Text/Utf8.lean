import PropCatalog.Text.Utf8
import Mathlib.Tactic.IntervalCases

/-!
# Reading back what was written

The bytes of a text are read as that text (`ofUtf8?_toUtf8`). A character has one to four bytes. The
first one leaves the reader in a state that waits for the others (`leadByte_two`, `leadByte_three`,
`leadByte_four`), and each of the others brings six more bits (`readUtf8_next`). The ranges for the
second byte are where care is needed: they keep out characters that have a shorter form, surrogates
and numbers past the last character, and no character is one of these.
-/

namespace PropCatalog.Text

/-! ## The states of the reader -/

variable {low high value : Nat} {b : UInt8}

theorem readUtf8_last (hlow : low ≤ b.toNat) (hhigh : b.toNat ≤ high) (rest : List UInt8) :
    readUtf8 (some ⟨0, low, high, value⟩) (b :: rest) =
      some (Char.ofNat (value * 64 + (b.toNat - 0x80))) :: readUtf8 none rest := by
  simp [readUtf8, takeByte, hlow, hhigh]

theorem readUtf8_next (more : Nat) (hlow : low ≤ b.toNat) (hhigh : b.toNat ≤ high)
    (rest : List UInt8) : readUtf8 (some ⟨more + 1, low, high, value⟩) (b :: rest) =
      readUtf8 (some ⟨more, 0x80, 0xBF, value * 64 + (b.toNat - 0x80)⟩) rest := by
  simp [readUtf8, takeByte, hlow, hhigh]

theorem readUtf8_of_leadByte {p : Partial} (h : leadByte b.toNat = ([], some p))
    (rest : List UInt8) : readUtf8 none (b :: rest) = readUtf8 (some p) rest := by
  simp [readUtf8, takeByte, h]

theorem leadByte_two {d : Nat} (hlow : 2 ≤ d) (hhigh : d < 32) :
    leadByte (d + 0xC0) = ([], some ⟨0, 0x80, 0xBF, d⟩) := by
  have h₁ : ¬ d + 0xC0 < 0x80 := by omega
  have h₂ : ¬ d + 0xC0 < 0xC2 := by omega
  have h₃ : d + 0xC0 < 0xE0 := by omega
  simp [leadByte, h₁, h₂, h₃]

theorem leadByte_three {d : Nat} (hd : d < 16) : ∃ low high,
    leadByte (d + 0xE0) = ([], some ⟨1, low, high, d⟩) ∧
      low = (if d = 0 then 0xA0 else 0x80) ∧ high = (if d = 13 then 0x9F else 0xBF) := by
  refine ⟨_, _, ?_, rfl, rfl⟩
  interval_cases d <;> rfl

theorem leadByte_four {d : Nat} (hd : d < 5) : ∃ low high,
    leadByte (d + 0xF0) = ([], some ⟨2, low, high, d⟩) ∧
      low = (if d = 0 then 0x90 else 0x80) ∧ high = (if d = 4 then 0x8F else 0xBF) := by
  refine ⟨_, _, ?_, rfl, rfl⟩
  interval_cases d <;> rfl

/-! ## Characters -/

theorem toNat_ofNat_of_lt {n : Nat} (h : n < 256) : (UInt8.ofNat n).toNat = n := by
  rw [UInt8.toNat_ofNat']
  exact Nat.mod_eq_of_lt h

theorem toNat_continuation (n : Nat) : (UInt8.ofNat (n % 0x40 + 0x80)).toNat = n % 0x40 + 0x80 :=
  toNat_ofNat_of_lt (by omega)

theorem readUtf8_one {v : Nat} (hv : v ≤ 0x7F) (rest : List UInt8) :
    readUtf8 none (UInt8.ofNat v :: rest) = some (Char.ofNat v) :: readUtf8 none rest := by
  have hb : (UInt8.ofNat v).toNat = v := toNat_ofNat_of_lt (by omega)
  have hascii : v < 0x80 := by omega
  rw [readUtf8, hb]
  simp [takeByte, leadByte, hascii]

theorem readUtf8_two {v : Nat} (hlow : 0x7F < v) (hhigh : v ≤ 0x7FF) (rest : List UInt8) :
    readUtf8 none (UInt8.ofNat (v / 64 % 0x20 + 0xC0) :: UInt8.ofNat (v % 0x40 + 0x80) :: rest) =
      some (Char.ofNat v) :: readUtf8 none rest := by
  have hlead : (UInt8.ofNat (v / 64 % 0x20 + 0xC0)).toNat = v / 64 % 0x20 + 0xC0 :=
    toNat_ofNat_of_lt (by omega)
  have hsecond := toNat_continuation v
  have hstate := leadByte_two (d := v / 64 % 0x20) (by omega) (by omega)
  have hv : v / 64 % 0x20 * 64 + (v % 0x40 + 0x80 - 0x80) = v := by omega
  rw [readUtf8_of_leadByte (hlead.symm ▸ hstate), readUtf8_last (by omega) (by omega), hsecond, hv]

theorem readUtf8_three {v : Nat} (hlow : 0x7FF < v) (hhigh : v ≤ 0xFFFF)
    (hsurrogate : v < 0xD800 ∨ 0xDFFF < v) (rest : List UInt8) :
    readUtf8 none (UInt8.ofNat (v / 4096 % 0x10 + 0xE0) :: UInt8.ofNat (v / 64 % 0x40 + 0x80) ::
        UInt8.ofNat (v % 0x40 + 0x80) :: rest) =
      some (Char.ofNat v) :: readUtf8 none rest := by
  have hlead : (UInt8.ofNat (v / 4096 % 0x10 + 0xE0)).toNat = v / 4096 % 0x10 + 0xE0 :=
    toNat_ofNat_of_lt (by omega)
  have hsecond := toNat_continuation (v / 64)
  have hthird := toNat_continuation v
  obtain ⟨low, high, hstate, hshort, hgap⟩ := leadByte_three (d := v / 4096 % 0x10) (by omega)
  have hv : (v / 4096 % 0x10 * 64 + (v / 64 % 0x40 + 0x80 - 0x80)) * 64 +
      (v % 0x40 + 0x80 - 0x80) = v := by omega
  have hle : low ≤ v / 64 % 0x40 + 0x80 := by split at hshort <;> omega
  have hge : v / 64 % 0x40 + 0x80 ≤ high := by split at hgap <;> omega
  rw [readUtf8_of_leadByte (hlead.symm ▸ hstate), readUtf8_next 0 (by omega) (by omega),
    readUtf8_last (by omega) (by omega), hsecond, hthird, hv]

theorem readUtf8_four {v : Nat} (hlow : 0xFFFF < v) (hhigh : v < 0x110000) (rest : List UInt8) :
    readUtf8 none (UInt8.ofNat (v / 262144 % 0x08 + 0xF0) :: UInt8.ofNat (v / 4096 % 0x40 + 0x80) ::
        UInt8.ofNat (v / 64 % 0x40 + 0x80) :: UInt8.ofNat (v % 0x40 + 0x80) :: rest) =
      some (Char.ofNat v) :: readUtf8 none rest := by
  have hlead : (UInt8.ofNat (v / 262144 % 0x08 + 0xF0)).toNat = v / 262144 % 0x08 + 0xF0 :=
    toNat_ofNat_of_lt (by omega)
  have hsecond := toNat_continuation (v / 4096)
  have hthird := toNat_continuation (v / 64)
  have hfourth := toNat_continuation v
  obtain ⟨low, high, hstate, hshort, hgreat⟩ := leadByte_four (d := v / 262144 % 0x08) (by omega)
  have hv : ((v / 262144 % 0x08 * 64 + (v / 4096 % 0x40 + 0x80 - 0x80)) * 64 +
      (v / 64 % 0x40 + 0x80 - 0x80)) * 64 + (v % 0x40 + 0x80 - 0x80) = v := by omega
  have hle : low ≤ v / 4096 % 0x40 + 0x80 := by split at hshort <;> omega
  have hge : v / 4096 % 0x40 + 0x80 ≤ high := by split at hgreat <;> omega
  rw [readUtf8_of_leadByte (hlead.symm ▸ hstate), readUtf8_next 1 (by omega) (by omega),
    readUtf8_next 0 (by omega) (by omega), readUtf8_last (by omega) (by omega), hsecond, hthird,
    hfourth, hv]

theorem readUtf8_utf8EncodeChar (c : Char) (rest : List UInt8) :
    readUtf8 none (String.utf8EncodeChar c ++ rest) = some c :: readUtf8 none rest := by
  have hrange : c.toNat < 0xD800 ∨ 0xDFFF < c.toNat ∧ c.toNat < 0x110000 := c.valid
  have hval : c.val.toNat = c.toNat := rfl
  conv_rhs => rw [← Char.ofNat_toNat c]
  rw [String.utf8EncodeChar, hval]
  split
  · next h₁ => exact readUtf8_one h₁ rest
  · split
    · next h₁ h₂ => exact readUtf8_two (by omega) h₂ rest
    · split
      · next h₂ h₃ => exact readUtf8_three (by omega) h₃ (by omega) rest
      · exact readUtf8_four (by omega) (by omega) rest

/-! ## Texts -/

theorem readUtf8_toUtf8 (s : Text) : readUtf8 none (toUtf8 s) = s.map some := by
  induction s with
  | nil => rfl
  | cons c s ih =>
    have hcons : toUtf8 (c :: s) = String.utf8EncodeChar c ++ toUtf8 s := rfl
    rw [hcons, readUtf8_utf8EncodeChar, ih, List.map_cons]

/-- The bytes of a text are read as that text. -/
theorem ofUtf8?_toUtf8 (s : Text) : ofUtf8? (toUtf8 s) = some s := by
  rw [ofUtf8?, readUtf8_toUtf8]
  induction s with
  | nil => rfl
  | cons c s ih => simp [ih]

end PropCatalog.Text
