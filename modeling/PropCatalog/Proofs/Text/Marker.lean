import PropCatalog.Json.Printer
import PropCatalog.Proofs.Text.Occurrence

/-!
# Markers inside other text

The standard markers are written with few characters: they start with `<`, end with `>`, and have no
lower case letter, digit, bracket, quote, backslash or newline. So a marker cannot start in text
without a `<` (`infix_append_iff`), cannot reach over most punctuation (`infix_append_cons_iff`),
and occurs in an escaped string exactly when it occurs in the string itself
(`infix_escaped_iff`).
-/

namespace PropCatalog.Text

/-- The characters of which markers are made. -/
def markerChars : Text :=
  "<>!-_: ABCDEFGHIJKLMNOPQRSTUVWXYZ".toList

/-- A text of the shape of the standard markers. -/
structure IsMarker (needle : Text) : Prop where
  /-- It starts with `<`. -/
  head : needle.head? = some '<'
  /-- It ends with `>`. -/
  last : needle.getLast? = some '>'
  /-- It is made of marker characters. -/
  chars : ∀ c ∈ needle, c ∈ markerChars

namespace IsMarker

variable {needle : Text} (h : IsMarker needle)
include h

theorem ne_nil : needle ≠ [] := by
  rintro rfl
  simpa using h.head

theorem head_mem : '<' ∈ needle :=
  List.mem_of_head? h.head

theorem infix_append_cons_iff {a b : Text} {c : Char} (hc : c ∉ markerChars) :
    needle <:+: a ++ c :: b ↔ needle <:+: a ∨ needle <:+: b :=
  Text.infix_append_cons_iff fun hmem => hc (h.chars c hmem)

theorem infix_cons_iff {s : Text} {c : Char} (hc : c ≠ '<') :
    needle <:+: c :: s ↔ needle <:+: s :=
  infix_cons_iff_of_head? h.ne_nil (by simpa [h.head] using hc.symm)

theorem infix_append_iff {a s : Text} (ha : '<' ∉ a) : needle <:+: a ++ s ↔ needle <:+: s := by
  induction a with
  | nil => rfl
  | cons c a ih =>
    rw [List.cons_append, h.infix_cons_iff (by rintro rfl; simp at ha)]
    exact ih (fun hmem => ha (by simp [hmem]))

theorem not_infix {s : Text} (hs : '<' ∉ s) : ¬ needle <:+: s :=
  not_infix_of_notMem h.head_mem hs

end IsMarker

/-! ## Escaped strings -/

theorem escapeChar_of_mem_markerChars {c : Char} (hc : c ∈ markerChars) :
    Json.escapeChar c = [c] := by
  have hall : markerChars.all (fun c => Json.escapeChar c = [c]) = true := by decide
  exact of_decide_eq_true (List.all_eq_true.1 hall c hc)

theorem hexDigit_ne : ∀ n < 16, Json.hexDigit n ≠ '<' := by
  decide

theorem escapeChar_cases (c : Char) : Json.escapeChar c = [c] ∨
    c ∉ markerChars ∧ ∃ rest, Json.escapeChar c = '\\' :: rest ∧ '<' ∉ rest := by
  by_cases hc : c ∈ markerChars
  · exact Or.inl (escapeChar_of_mem_markerChars hc)
  · rw [Json.escapeChar]
    split_ifs with _ _ _ _ _ _ _ hlow
    · exact Or.inr ⟨hc, _, rfl, by decide⟩
    · exact Or.inr ⟨hc, _, rfl, by decide⟩
    · exact Or.inr ⟨hc, _, rfl, by decide⟩
    · exact Or.inr ⟨hc, _, rfl, by decide⟩
    · exact Or.inr ⟨hc, _, rfl, by decide⟩
    · exact Or.inr ⟨hc, _, rfl, by decide⟩
    · exact Or.inr ⟨hc, _, rfl, by decide⟩
    · have hhigh := hexDigit_ne (c.toNat / 16) (by omega)
      have hrest := hexDigit_ne (c.toNat % 16) (by omega)
      exact Or.inr ⟨hc, _, rfl, by simp [hhigh.symm, hrest.symm]⟩
    · exact Or.inl rfl

theorem prefix_escaped_iff {t s : Text} (ht : ∀ c ∈ t, c ∈ markerChars) :
    t <+: s.flatMap Json.escapeChar ↔ t <+: s := by
  induction t generalizing s with
  | nil => simp
  | cons c t ih =>
    have hc := ht c (by simp)
    cases s with
    | nil => simp
    | cons d s =>
      rw [List.flatMap_cons]
      rcases escapeChar_cases d with hd | ⟨hd, rest, hrest, -⟩
      · rw [hd, List.singleton_append, List.cons_prefix_cons, List.cons_prefix_cons,
          ih fun x hx => ht x (by simp [hx])]
      · have hslash : c ≠ '\\' := by
          rintro rfl
          exact absurd hc (by decide)
        have hcd : c ≠ d := by
          rintro rfl
          exact hd hc
        simp [hrest, List.cons_prefix_cons, hslash, hcd]

/-- Escaping a string neither makes nor breaks a marker. -/
theorem IsMarker.infix_escaped_iff {needle s : Text} (h : IsMarker needle) :
    needle <:+: s.flatMap Json.escapeChar ↔ needle <:+: s := by
  induction s with
  | nil => simp
  | cons c s ih =>
    rcases escapeChar_cases c with hc | ⟨hc, rest, hrest, hstart⟩
    · have hpre := prefix_escaped_iff (s := c :: s) h.chars
      rw [List.flatMap_cons, hc, List.singleton_append] at hpre ⊢
      rw [List.infix_cons_iff, List.infix_cons_iff, hpre, ih]
    · have hne : c ≠ '<' := by
        rintro rfl
        exact hc (by decide)
      rw [List.flatMap_cons, hrest, List.cons_append, h.infix_cons_iff (by decide),
        h.infix_append_iff hstart, ih, h.infix_cons_iff hne]

theorem IsMarker.infix_quote_append_iff {needle s rest : Text} (h : IsMarker needle) :
    needle <:+: Json.quote s ++ rest ↔ needle <:+: s ∨ needle <:+: rest := by
  have hquote : Json.quote s ++ rest = '"' :: (s.flatMap Json.escapeChar ++ '"' :: rest) := by
    simp [Json.quote]
  rw [hquote, h.infix_cons_iff (by decide), h.infix_append_cons_iff (by decide),
    h.infix_escaped_iff]

end PropCatalog.Text
