import PropCatalog.Json.Printer
import PropCatalog.Proofs.Json.Scalar

/-!
# Reading back a written string

A written string is one of the strict dialect for the text it was written for (`quoted_escaped`), so
the reader of strings takes it off the front of whatever follows (`string?_quote`). It has no
control characters (`quote_printable`): they are the ones that are escaped.
-/

namespace PropCatalog.Json

variable {c : Char} {s : Text}

/-- A text without control characters, and so without line breaks. -/
def Printable (s : Text) : Prop := ∀ c ∈ s, 0x20 ≤ c.toNat

theorem Printable.append {a b : Text} (ha : Printable a) (hb : Printable b) : Printable (a ++ b) :=
  List.forall_mem_append.2 ⟨ha, hb⟩

theorem Printable.cons (hc : 0x20 ≤ c.toNat) (hs : Printable s) : Printable (c :: s) :=
  List.forall_mem_cons.2 ⟨hc, hs⟩

theorem Printable.of_all (h : s.all (fun c => 0x20 ≤ c.toNat) = true) : Printable s :=
  fun c hc => of_decide_eq_true (List.all_eq_true.1 h c hc)

theorem hexDigit_spec {n : Nat} (hn : n < 16) :
    IsHexDigit (hexDigit n) n ∧ 0x20 ≤ (hexDigit n).toNat := by
  have hall : ∀ n < 16, hexValue? (hexDigit n) = some n ∧ 0x20 ≤ (hexDigit n).toNat := by decide
  exact (hall n hn).imp_left hexValue?_eq_some_iff.1

theorem isCodeUnit_hexDigit (h : c.toNat < 0x20) :
    IsCodeUnit '0' '0' (hexDigit (c.toNat / 16)) (hexDigit (c.toNat % 16)) c.toNat := by
  have hzero : IsHexDigit '0' 0 := .inl rfl
  obtain ⟨hhigh, -⟩ := hexDigit_spec (n := c.toNat / 16) (by omega)
  obtain ⟨hlow, -⟩ := hexDigit_spec (n := c.toNat % 16) (by omega)
  exact ⟨0, 0, _, _, hzero, hzero, hhigh, hlow, by omega⟩

theorem escapeChar_plain_or_escape (c : Char) :
    escapeChar c = [c] ∧ c ≠ '"' ∧ c ≠ '\\' ∧ 0x20 ≤ c.toNat ∨
      Escape (escapeChar c) c ∧ Printable (escapeChar c) := by
  rw [escapeChar]
  split_ifs with hquote hescape hback hfeed hline hreturn htab hcontrol
  · subst hquote
    exact .inr ⟨.letter (by decide), .of_all (by decide)⟩
  · subst hescape
    exact .inr ⟨.letter (by decide), .of_all (by decide)⟩
  · subst hback
    exact .inr ⟨.letter (by decide), .of_all (by decide)⟩
  · subst hfeed
    exact .inr ⟨.letter (by decide), .of_all (by decide)⟩
  · subst hline
    exact .inr ⟨.letter (by decide), .of_all (by decide)⟩
  · subst hreturn
    exact .inr ⟨.letter (by decide), .of_all (by decide)⟩
  · subst htab
    exact .inr ⟨.letter (by decide), .of_all (by decide)⟩
  · have hunit := Escape.unit (isCodeUnit_hexDigit hcontrol) (.inl (by omega))
    rw [Char.ofNat_toNat] at hunit
    obtain ⟨-, hhigh⟩ := hexDigit_spec (n := c.toNat / 16) (by omega)
    obtain ⟨-, hlow⟩ := hexDigit_spec (n := c.toNat % 16) (by omega)
    have hstart : Printable ['\\', 'u', '0', '0'] := .of_all (by decide)
    exact .inr ⟨hunit, hstart.append (.cons hhigh (.cons hlow (.of_all rfl)))⟩
  · exact .inl ⟨rfl, hquote, hescape, by omega⟩

theorem escapeChar_eq_self (hquote : c ≠ '"') (hescape : c ≠ '\\') (hcontrol : 0x20 ≤ c.toNat) :
    escapeChar c = [c] := by
  have hne : ∀ d : Char, d.toNat < 0x20 → c ≠ d := by
    rintro d hd rfl
    omega
  rw [escapeChar, if_neg hquote, if_neg hescape, if_neg (hne _ (by decide)),
    if_neg (hne _ (by decide)), if_neg (hne _ (by decide)), if_neg (hne _ (by decide)),
    if_neg (hne _ (by decide)), if_neg (by omega)]

theorem quoted_escaped (s : Text) : Quoted .strict '"' (s.flatMap escapeChar) s := by
  induction s with
  | nil => exact .nil
  | cons c s ih =>
    rw [List.flatMap_cons]
    rcases escapeChar_plain_or_escape c with ⟨hc, hquote, hescape, hcontrol⟩ | ⟨hc, -⟩
    · rw [hc]
      exact .plain hquote hescape hcontrol ih
    · exact .escape hc ih

/-- A written string is read off the front of a text. -/
theorem string?_quote (s rest : Text) :
    string? (s.flatMap escapeChar ++ '"' :: rest) = some (s, rest) :=
  string?_eq_some_iff.2 ⟨_, quoted_escaped s, rfl⟩

theorem quote_append (s rest : Text) :
    quote s ++ rest = '"' :: (s.flatMap escapeChar ++ '"' :: rest) := by
  simp [quote]

theorem quote_printable (s : Text) : Printable (quote s) := by
  have hbody : Printable (s.flatMap escapeChar) := by
    intro d hd
    obtain ⟨c, -, hdc⟩ := List.mem_flatMap.1 hd
    rcases escapeChar_plain_or_escape c with ⟨hc, -, -, hcontrol⟩ | ⟨-, hprintable⟩
    · rw [hc, List.mem_singleton] at hdc
      rwa [hdc]
    · exact hprintable d hdc
  exact (Printable.cons (by decide) hbody).append (.of_all (by decide))

end PropCatalog.Json
