import PropCatalog.Proofs.Json.Grammar
import PropCatalog.Proofs.Json.Stepwise
import PropCatalog.Proofs.Text.Runs

/-!
# Reading scalars

The reader of strings takes exactly the strings of the strict dialect (`string?_eq_some_iff`). The
reader of numerals takes numerals only (`numeral?_eq_some`), and a numeral as a whole when the text
after it cannot go on with it, as no text after a complete value can (`numeral?_append`).
-/

namespace PropCatalog.Json

/-! ## Runs of digits -/

variable {s x rest digits : Text}

theorem digits?_append (hdigits : IsDigits digits) (hx : x.head?.any Char.isDigit = false) :
    digits? (digits ++ x) = some (digits, x) := by
  obtain ⟨htake, hdrop⟩ := Text.span_append hdigits.2 hx
  rw [digits?, htake, hdrop]
  cases digits with
  | nil => exact absurd rfl hdigits.1
  | cons c digits => rfl

theorem digits?_eq_some (h : digits? s = some (digits, rest)) :
    IsDigits digits ∧ s = digits ++ rest := by
  rw [digits?] at h
  split at h
  next => cases h
  next hne =>
    obtain ⟨rfl, rfl⟩ := Prod.mk.inj (Option.some.inj h)
    exact ⟨⟨hne, fun c hc => List.all_eq_true.1 List.all_takeWhile c hc⟩,
      List.takeWhile_append_dropWhile.symm⟩

theorem IsDigits.head?_ne {c : Char} (h : IsDigits digits) (hc : c.isDigit = false) (x : Text) :
    (digits ++ x).head? ≠ some c := by
  obtain ⟨hne, hall⟩ := h
  cases digits with
  | nil => exact absurd rfl hne
  | cons d digits =>
    rintro hd
    obtain rfl := Option.some.inj hd
    rw [hall d (by simp)] at hc
    cases hc

/-! ## Numerals -/

/-- A character that a numeral can go on with. -/
def isNumeralRest (c : Char) : Bool := c.isDigit || c = '.' || c = 'e' || c = 'E'

theorem IsWhole.head?_ne (h : IsWhole digits) (x : Text) : (digits ++ x).head? ≠ some '-' := by
  obtain rfl | ⟨hdigits, -⟩ := h
  · simp
  · exact hdigits.head?_ne rfl x

theorem minus_of_head?_ne (h : s.head? ≠ some '-') : minus s = (false, s) := by
  unfold minus
  split
  · exact absurd rfl h
  · rfl

theorem eq_append_minus (s : Text) : s = (if (minus s).1 then ['-'] else []) ++ (minus s).2 := by
  unfold minus
  split <;> rfl

theorem sign_of_head?_ne (hplus : s.head? ≠ some '+') (hminus : s.head? ≠ some '-') :
    sign s = (false, s) := by
  unfold sign
  split
  · exact absurd rfl hplus
  · exact minus_of_head?_ne hminus

theorem wholeDigits?_append (hdigits : IsWhole digits) (hx : x.head?.any Char.isDigit = false) :
    wholeDigits? (digits ++ x) = some (digits, x) := by
  obtain rfl | ⟨hdigits, hzero⟩ := hdigits
  · rfl
  · rw [wholeDigits?, digits?_append hdigits hx]
    rintro t ht
    cases digits with
    | nil => exact hdigits.1 rfl
    | cons c digits => simp_all

theorem wholeDigits?_eq_some (h : wholeDigits? s = some (digits, rest)) :
    IsWhole digits ∧ s = digits ++ rest := by
  unfold wholeDigits? at h
  split at h
  next =>
    obtain ⟨rfl, rfl⟩ := Prod.mk.inj (Option.some.inj h)
    exact ⟨.inl rfl, rfl⟩
  next hzero =>
    obtain ⟨hdigits, rfl⟩ := digits?_eq_some h
    refine ⟨.inr ⟨hdigits, ?_⟩, rfl⟩
    cases digits with
    | nil => exact absurd rfl hdigits.1
    | cons c digits =>
      rintro hc
      obtain rfl := Option.some.inj hc
      exact hzero _ rfl

theorem fraction?_append {fraction : Option Text} (hs : IsFraction s fraction)
    (hx : x.head?.any (fun c => c.isDigit || c = '.') = false) :
    fraction? (s ++ x) = some (fraction, x) := by
  cases hs with
  | none =>
    rw [List.nil_append, fraction?]
    rintro t rfl
    cases hx
  | some hdigits =>
    rw [List.cons_append, fraction?, digits?_append hdigits]
    · rfl
    · cases x <;> simp_all

theorem fraction?_eq_some {fraction : Option Text} (h : fraction? s = some (fraction, rest)) :
    ∃ a, IsFraction a fraction ∧ s = a ++ rest := by
  unfold fraction? at h
  split at h
  next s =>
    obtain ⟨⟨digits, t⟩, hd, heq⟩ := Option.map_eq_some_iff.1 h
    obtain ⟨rfl, rfl⟩ := Prod.mk.inj heq
    obtain ⟨hdigits, rfl⟩ := digits?_eq_some hd
    exact ⟨_, .some hdigits, rfl⟩
  next =>
    obtain ⟨rfl, rfl⟩ := Prod.mk.inj (Option.some.inj h)
    exact ⟨[], .none, rfl⟩

theorem exponent?_append {exponent : Option (Bool × Text)} (hs : IsExponent s exponent)
    (hx : x.head?.any isNumeralRest = false) : exponent? (s ++ x) = some (exponent, x) := by
  have hdigit : x.head?.any Char.isDigit = false := by
    cases x <;> simp_all [isNumeralRest]
  cases hs with
  | none =>
    cases x with
    | nil => rfl
    | cons c x => simp_all [exponent?, isNumeralRest]
  | @unsigned letter digits hletter hdigits =>
    have hsign := sign_of_head?_ne (hdigits.head?_ne rfl x) (hdigits.head?_ne rfl x)
    rw [List.cons_append, exponent?, if_pos (by simpa using hletter), hsign,
      digits?_append hdigits hdigit]
    rfl
  | @signed letter sign digits hletter hsign hdigits =>
    rw [List.cons_append, exponent?, if_pos (by simpa using hletter)]
    obtain rfl | rfl := hsign
    · have hsign : Json.sign ('+' :: (digits ++ x)) = (false, digits ++ x) := rfl
      rw [List.cons_append, hsign, digits?_append hdigits hdigit]
      rfl
    · have hsign : Json.sign ('-' :: (digits ++ x)) = (true, digits ++ x) := rfl
      rw [List.cons_append, hsign, digits?_append hdigits hdigit]
      rfl

theorem exponent?_eq_some {exponent : Option (Bool × Text)}
    (h : exponent? s = some (exponent, rest)) : ∃ a, IsExponent a exponent ∧ s = a ++ rest := by
  unfold exponent? at h
  split at h
  next =>
    obtain ⟨rfl, rfl⟩ := Prod.mk.inj (Option.some.inj h)
    exact ⟨[], .none, rfl⟩
  next letter s =>
    split at h
    next hletter =>
      replace hletter : letter = 'e' ∨ letter = 'E' := by simpa using hletter
      obtain ⟨⟨digits, t⟩, hd, heq⟩ := Option.map_eq_some_iff.1 h
      obtain ⟨rfl, rfl⟩ := Prod.mk.inj heq
      obtain ⟨hdigits, hs⟩ := digits?_eq_some hd
      unfold sign minus at hs ⊢
      split at hs
      next =>
        obtain rfl := hs
        exact ⟨_, .signed hletter (.inl rfl) hdigits, rfl⟩
      next =>
        split at hs
        next =>
          obtain rfl := hs
          exact ⟨_, .signed hletter (.inr rfl) hdigits, rfl⟩
        next =>
          obtain rfl := hs
          exact ⟨_, .unsigned hletter hdigits, rfl⟩
    next =>
      obtain ⟨rfl, rfl⟩ := Prod.mk.inj (Option.some.inj h)
      exact ⟨[], .none, rfl⟩

theorem numeral?_append {n : Numeral} (hs : IsNumeral s n)
    (hx : x.head?.any isNumeralRest = false) :
    numeral? (s ++ x) = some (n, x) := by
  obtain @⟨negative, whole, fraction, exponent, fraction?, exponent?, hwhole, hfraction,
    hexponent⟩ := hs
  have hdigit : x.head?.any (fun c => c.isDigit || c = '.') = false := by
    cases x <;> simp_all [isNumeralRest]
  -- neither the exponent nor the fraction starts with a character of the part before it
  have hafterFraction : (exponent ++ x).head?.any (fun c => c.isDigit || c = '.') = false := by
    cases hexponent with
    | none => exact hdigit
    | unsigned hletter | signed hletter => obtain rfl | rfl := hletter <;> rfl
  have hafterWhole : (fraction ++ (exponent ++ x)).head?.any Char.isDigit = false := by
    cases hfraction with
    | none =>
      rw [List.nil_append]
      revert hafterFraction
      cases exponent ++ x <;> simp_all
    | some => rfl
  have hminus : minus ((if negative then ['-'] else []) ++ (whole ++ (fraction ++ exponent)) ++ x) =
      (negative, whole ++ (fraction ++ (exponent ++ x))) := by
    rw [List.append_assoc, List.append_assoc, List.append_assoc]
    cases negative with
    | true => rfl
    | false => exact minus_of_head?_ne (hwhole.head?_ne _)
  rw [numeral?, hminus]
  simp only [wholeDigits?_append hwhole hafterWhole, Option.bind_some,
    fraction?_append hfraction hafterFraction, exponent?_append hexponent hx, Option.map_some]

theorem numeral?_eq_some {n : Numeral} (h : numeral? s = some (n, rest)) :
    ∃ a, IsNumeral a n ∧ s = a ++ rest := by
  obtain ⟨⟨whole, s₁⟩, hw, h⟩ := Option.bind_eq_some_iff.1 h
  obtain ⟨⟨fraction, s₂⟩, hf, h⟩ := Option.bind_eq_some_iff.1 h
  obtain ⟨⟨exponent, s₃⟩, he, heq⟩ := Option.map_eq_some_iff.1 h
  obtain ⟨rfl, rfl⟩ := Prod.mk.inj heq
  obtain ⟨hwhole, hw⟩ := wholeDigits?_eq_some hw
  obtain ⟨f, hfraction, rfl⟩ := fraction?_eq_some hf
  obtain ⟨e, hexponent, rfl⟩ := exponent?_eq_some he
  refine ⟨_, .mk hwhole hfraction hexponent, ?_⟩
  rw [List.append_assoc, List.append_assoc, List.append_assoc, ← hw]
  exact eq_append_minus s

/-! ## Strings -/

variable {raw value e : Text} {c d c₁ c₂ c₃ c₄ : Char} {n : Nat}

theorem unescape?_eq_some_iff : unescape? c = some d ↔ (c, d) ∈ escapes := by
  constructor
  · intro h
    unfold unescape? at h
    split_ifs at h with hself hb hf hn hr ht
    · obtain rfl := Option.some.inj h
      simp only [Bool.or_eq_true, decide_eq_true_eq] at hself
      rcases hself with (rfl | rfl) | rfl <;> decide
    all_goals
      obtain rfl := Option.some.inj h
      subst c
      decide
  · intro h
    have hall : ∀ pair ∈ escapes, unescape? pair.1 = some pair.2 := by decide
    exact hall _ h

theorem hexValue?_eq_some_iff : hexValue? c = some n ↔ IsHexDigit c n := by
  constructor
  · have hlower : ∀ n < 16, "0123456789abcdef".toList[n]? =
        some (Char.ofNat (if n < 10 then n + 48 else n + 87)) := by decide
    have hupper : ∀ n < 16, "0123456789ABCDEF".toList[n]? =
        some (Char.ofNat (if n < 10 then n + 48 else n + 55)) := by decide
    have hrange : ∀ {a b : Char}, (a ≤ c && c ≤ b) = true →
        a.toNat ≤ c.toNat ∧ c.toNat ≤ b.toNat := by
      intro a b h
      simpa [Char.le_def, UInt32.le_iff_toNat_le] using h
    intro h
    unfold hexValue? at h
    split_ifs at h with hdigit hsmall hlarge <;> obtain rfl := Option.some.inj h
    · have hbounds : 48 ≤ c.toNat ∧ c.toNat ≤ 57 := hrange hdigit
      left
      rw [hlower _ (by omega), if_pos (by omega), Nat.sub_add_cancel hbounds.1, Char.ofNat_toNat]
    · have hbounds : 97 ≤ c.toNat ∧ c.toNat ≤ 102 := hrange hsmall
      left
      rw [hlower _ (by omega), if_neg (by omega), Nat.sub_add_cancel (by omega), Char.ofNat_toNat]
    · have hbounds : 65 ≤ c.toNat ∧ c.toNat ≤ 70 := hrange hlarge
      right
      rw [hupper _ (by omega), if_neg (by omega), Nat.sub_add_cancel (by omega), Char.ofNat_toNat]
  · have hall : ∀ n : Fin 16, hexValue? ("0123456789abcdef".toList[n]) = some n.val ∧
        hexValue? ("0123456789ABCDEF".toList[n]) = some n.val := by decide
    rintro (h | h)
    · obtain ⟨hn, rfl⟩ := List.getElem?_eq_some_iff.1 h
      exact (hall ⟨n, hn⟩).1
    · obtain ⟨hn, rfl⟩ := List.getElem?_eq_some_iff.1 h
      exact (hall ⟨n, hn⟩).2

theorem hex4?_eq_some_iff : hex4? c₁ c₂ c₃ c₄ = some n ↔ IsCodeUnit c₁ c₂ c₃ c₄ n := by
  have hvalue : ∀ n₁ n₂ n₃ n₄ : Nat, ((n₁ * 16 + n₂) * 16 + n₃) * 16 + n₄ =
      n₁ * 16 ^ 3 + n₂ * 16 ^ 2 + n₃ * 16 + n₄ := by
    intros
    ring
  simp only [hex4?, bind, pure, Option.bind_eq_some_iff, hexValue?_eq_some_iff, Option.some.injEq,
    hvalue, IsCodeUnit]
  constructor
  · rintro ⟨n₁, h₁, n₂, h₂, n₃, h₃, n₄, h₄, rfl⟩
    exact ⟨n₁, n₂, n₃, n₄, h₁, h₂, h₃, h₄, rfl⟩
  · rintro ⟨n₁, n₂, n₃, n₄, h₁, h₂, h₃, h₄, rfl⟩
    exact ⟨n₁, h₁, n₂, h₂, n₃, h₃, n₄, h₄, rfl⟩

theorem IsHexDigit.ne (h : IsHexDigit c n) (hd : hexValue? d = none) : c ≠ d := by
  rintro rfl
  rw [hexValue?_eq_some_iff.2 h] at hd
  cases hd

theorem IsCodeUnit.isHexDigit (h : IsCodeUnit c₁ c₂ c₃ c₄ n) :
    ∀ c ∈ [c₁, c₂, c₃, c₄], ∃ m, IsHexDigit c m := by
  obtain ⟨n₁, n₂, n₃, n₄, h₁, h₂, h₃, h₄, -⟩ := h
  simp only [List.forall_mem_cons]
  exact ⟨⟨n₁, h₁⟩, ⟨n₂, h₂⟩, ⟨n₃, h₃⟩, ⟨n₄, h₄⟩, by simp⟩

theorem rawString?_cons_of_ne (hquote : c ≠ '"') (hescape : c ≠ '\\') (s : Text) :
    rawString? (c :: s) = (rawString? s).map fun (raw, rest) => (c :: raw, rest) := by
  rw [rawString?.eq_4 _ _ (by simpa using hquote) (by simp [hescape])]

theorem rawString?_hex (h : IsCodeUnit c₁ c₂ c₃ c₄ n) (s : Text) :
    rawString? (c₁ :: c₂ :: c₃ :: c₄ :: s) =
      (rawString? s).map fun (raw, rest) => (c₁ :: c₂ :: c₃ :: c₄ :: raw, rest) := by
  have hne : ∀ c ∈ [c₁, c₂, c₃, c₄], c ≠ '"' ∧ c ≠ '\\' := by
    intro c hc
    obtain ⟨m, hm⟩ := h.isHexDigit c hc
    exact ⟨hm.ne rfl, hm.ne rfl⟩
  simp only [List.forall_mem_cons] at hne
  obtain ⟨h₁, h₂, h₃, h₄, -⟩ := hne
  rw [rawString?_cons_of_ne h₁.1 h₁.2, rawString?_cons_of_ne h₂.1 h₂.2,
    rawString?_cons_of_ne h₃.1 h₃.2, rawString?_cons_of_ne h₄.1 h₄.2]
  simp only [Option.map_map]
  rfl

theorem rawString?_escape (he : Escape e c) (s : Text) :
    rawString? (e ++ s) = (rawString? s).map fun (raw, rest) => (e ++ raw, rest) := by
  cases he with
  | letter hc => rfl
  | unit hn =>
    simp only [List.cons_append, List.nil_append]
    rw [rawString?, rawString?_hex hn, Option.map_map]
    rfl
  | pair hhigh hlow =>
    simp only [List.cons_append, List.nil_append]
    rw [rawString?, rawString?_hex hhigh, rawString?, rawString?_hex hlow]
    simp only [Option.map_map]
    rfl

theorem rawString?_quoted (h : Quoted .strict '"' raw value) (rest : Text) :
    rawString? (raw ++ '"' :: rest) = some (raw, rest) := by
  induction h with
  | nil => rfl
  | plain hquote hescape _ _ ih =>
    rw [List.cons_append, rawString?_cons_of_ne hquote hescape, ih]
    rfl
  | escape he _ ih =>
    rw [List.append_assoc, rawString?_escape he, ih]
    rfl
  | apostrophe hd => cases hd

theorem rawString?_eq_some (h : rawString? s = some (raw, rest)) : s = raw ++ '"' :: rest := by
  fun_induction rawString? s generalizing raw with
  | case1 => cases h
  | case2 s =>
    obtain ⟨rfl, rfl⟩ := Prod.mk.inj (Option.some.inj h)
    rfl
  | case3 c s ih =>
    obtain ⟨⟨a, b⟩, hs, heq⟩ := Option.map_eq_some_iff.1 h
    obtain ⟨rfl, rfl⟩ := Prod.mk.inj heq
    rw [ih hs, List.cons_append, List.cons_append]
  | case4 c s _ _ ih =>
    obtain ⟨⟨a, b⟩, hs, heq⟩ := Option.map_eq_some_iff.1 h
    obtain ⟨rfl, rfl⟩ := Prod.mk.inj heq
    rw [ih hs, List.cons_append]

theorem decode?_escape (he : Escape e c) (s : Text) :
    decode? (e ++ s) = (decode? s).map (c :: ·) := by
  cases he with
  | @letter e c hc =>
    have hu : e ≠ 'u' := by
      rintro rfl
      exact absurd (unescape?_eq_some_iff.2 hc) (by simp [unescape?])
    simp only [List.cons_append, List.nil_append]
    rw [decode?.eq_3 _ _ (by simp [hu]), unescape?_eq_some_iff.2 hc]
    rfl
  | @unit c₁ c₂ c₃ c₄ n hn hsingle =>
    simp only [List.cons_append, List.nil_append]
    have hhigh : ¬ (0xD800 ≤ n && n ≤ 0xDBFF) = true := by simp; omega
    have hlow : ¬ (0xDC00 ≤ n && n ≤ 0xDFFF) = true := by simp; omega
    rw [decode?, hex4?_eq_some_iff.2 hn]
    simp only [bind, Option.bind_some, if_neg hhigh, if_neg hlow]
  | @pair c₁ c₂ c₃ c₄ d₁ d₂ d₃ d₄ high low hhigh hlow hhighRange hlowRange =>
    have hrange : (0xD800 ≤ high && high ≤ 0xDBFF) = true := by simpa using hhighRange
    have hpair : ofSurrogates? high low =
        some (Char.ofNat (0x10000 + (high - 0xD800) * 0x400 + (low - 0xDC00))) := by
      rw [ofSurrogates?, if_pos (by simpa using hlowRange)]
    simp only [List.cons_append, List.nil_append]
    rw [decode?, hex4?_eq_some_iff.2 hhigh]
    simp only [bind, Option.bind_some, if_pos hrange, hex4?_eq_some_iff.2 hlow, hpair]

theorem decode?_cons_of_ne (hescape : c ≠ '\\') (hcontrol : 0x20 ≤ c.toNat) (s : Text) :
    decode? (c :: s) = (decode? s).map (c :: ·) := by
  have hc : ¬ (c = '\\' || c.toNat < 0x20) = true := by simp [hescape, hcontrol]
  rw [decode?.eq_4 _ _ (by simp [hescape]) (by simp [hescape]), if_neg hc]

theorem decode?_quoted (h : Quoted .strict '"' raw value) : decode? raw = some value := by
  induction h with
  | nil => rfl
  | plain _ hescape hcontrol _ ih => rw [decode?_cons_of_ne hescape hcontrol, ih]; rfl
  | escape he _ ih => rw [decode?_escape he, ih]; rfl
  | apostrophe hd => cases hd

theorem rawString?_of_append {p : Text}
    (hp : ∀ s, rawString? (p ++ s) = (rawString? s).map fun (raw, rest) => (p ++ raw, rest))
    (h : rawString? (p ++ raw ++ '"' :: rest) = some (p ++ raw, rest)) :
    rawString? (raw ++ '"' :: rest) = some (raw, rest) := by
  rw [List.append_assoc, hp] at h
  obtain ⟨⟨a, b⟩, hs, heq⟩ := Option.map_eq_some_iff.1 h
  obtain ⟨ha, rfl⟩ := Prod.mk.inj heq
  rwa [List.append_cancel_left ha] at hs

theorem quoted_of_decode? (hraw : rawString? (raw ++ '"' :: rest) = some (raw, rest))
    (h : decode? raw = some value) : Quoted .strict '"' raw value := by
  -- the cut at the closing quote falls between the pieces that are decoded one by one
  fun_induction decode? raw generalizing value with
  | case1 =>
    obtain rfl := Option.some.inj h
    exact .nil
  | case2 a b c d s ihpair ih =>
    obtain ⟨n, hn, h⟩ := Option.bind_eq_some_iff.1 h
    split at h
    next hhigh =>
      -- the first half of a pair has to be followed by the second one
      replace hhigh : 0xD800 ≤ n ∧ n ≤ 0xDBFF := by simpa using hhigh
      split at h
      next a' b' c' d' s =>
        obtain ⟨low, hlow, h⟩ := Option.bind_eq_some_iff.1 h
        obtain ⟨ch, hch, h⟩ := Option.bind_eq_some_iff.1 h
        obtain ⟨value, hvalue, rfl⟩ := Option.map_eq_some_iff.1 h
        rw [ofSurrogates?] at hch
        split at hch
        next hrange =>
          obtain rfl := Option.some.inj hch
          have he : Escape _ _ := .pair (hex4?_eq_some_iff.1 hn) (hex4?_eq_some_iff.1 hlow) hhigh
            (by simpa using hrange)
          exact .escape he (ihpair (rawString?_of_append (rawString?_escape he) hraw) hvalue)
        next => cases hch
      next => cases h
    next hhigh =>
      split at h
      next => cases h
      next hlow =>
        obtain ⟨value, hvalue, rfl⟩ := Option.map_eq_some_iff.1 h
        have hsingle : n < 0xD800 ∨ 0xDFFF < n := by
          simp only [Bool.and_eq_true, decide_eq_true_eq] at hhigh hlow
          omega
        have he : Escape _ _ := .unit (hex4?_eq_some_iff.1 hn) hsingle
        exact .escape he (ih (rawString?_of_append (rawString?_escape he) hraw) hvalue)
  | case3 e s _ ih =>
    obtain ⟨c, hc, h⟩ := Option.bind_eq_some_iff.1 h
    obtain ⟨value, hvalue, rfl⟩ := Option.map_eq_some_iff.1 h
    have he : Escape _ _ := .letter (unescape?_eq_some_iff.1 hc)
    exact .escape he (ih (rawString?_of_append (rawString?_escape he) hraw) hvalue)
  | case4 => cases h
  | case5 c s _ _ hc ih =>
    obtain ⟨value, hvalue, rfl⟩ := Option.map_eq_some_iff.1 h
    obtain ⟨hescape, hcontrol⟩ : c ≠ '\\' ∧ 0x20 ≤ c.toNat := by simpa using hc
    have hquote : c ≠ '"' := by
      rintro rfl
      cases hraw
    exact .plain hquote hescape hcontrol
      (ih (rawString?_of_append (p := [c]) (rawString?_cons_of_ne hquote hescape) hraw) hvalue)

/-- A string is read exactly when it is one of the grammar. -/
theorem string?_eq_some_iff :
    string? s = some (value, rest) ↔
      ∃ raw, Quoted .strict '"' raw value ∧ s = raw ++ '"' :: rest := by
  simp only [string?, bind, Option.bind_eq_some_iff]
  constructor
  · rintro ⟨⟨raw, r⟩, hraw, v, hv, heq⟩
    obtain ⟨rfl, rfl⟩ := Prod.mk.inj (Option.some.inj heq)
    obtain rfl := rawString?_eq_some hraw
    exact ⟨raw, quoted_of_decode? hraw hv, rfl⟩
  · rintro ⟨raw, hraw, rfl⟩
    exact ⟨(raw, rest), rawString?_quoted hraw rest, value, decode?_quoted hraw, rfl⟩

/-! ## Tokens -/

/-- The text of a token. -/
inductive IsToken : (s : Text) → (t : Token) → Prop
  | openArray : IsToken ['['] .openArray
  | closeArray : IsToken [']'] .closeArray
  | openObject : IsToken ['{'] .openObject
  | closeObject : IsToken ['}'] .closeObject
  | comma : IsToken [','] .comma
  | colon : IsToken [':'] .colon
  | scalar {s : Text} {v : Scalar} (hs : IsScalar .strict Numeral.Stepwise s v) :
      IsToken s (.scalar v)

theorem Token.next?_eq_some {t : Token} (h : Token.next? s = some (t, rest)) :
    ∃ a, IsToken a t ∧ s = a ++ rest := by
  unfold Token.next? at h
  split at h
  case h_1 => cases h
  case h_2 => cases h; exact ⟨_, .openArray, rfl⟩
  case h_3 => cases h; exact ⟨_, .closeArray, rfl⟩
  case h_4 => cases h; exact ⟨_, .openObject, rfl⟩
  case h_5 => cases h; exact ⟨_, .closeObject, rfl⟩
  case h_6 => cases h; exact ⟨_, .comma, rfl⟩
  case h_7 => cases h; exact ⟨_, .colon, rfl⟩
  case h_8 s =>
    obtain ⟨⟨value, r⟩, hs, heq⟩ := Option.map_eq_some_iff.1 h
    obtain ⟨rfl, rfl⟩ := Prod.mk.inj heq
    obtain ⟨raw, hraw, rfl⟩ := string?_eq_some_iff.1 hs
    exact ⟨_, .scalar (.string (.double hraw)), by simp⟩
  case h_9 => cases h; exact ⟨_, .scalar .true, rfl⟩
  case h_10 => cases h; exact ⟨_, .scalar .false, rfl⟩
  case h_11 => cases h; exact ⟨_, .scalar .null, rfl⟩
  case h_12 =>
    obtain ⟨⟨n, r⟩, hn, h⟩ := Option.bind_eq_some_iff.1 h
    obtain ⟨v, hv, heq⟩ := Option.map_eq_some_iff.1 h
    obtain ⟨rfl, rfl⟩ := Prod.mk.inj heq
    obtain ⟨a, ha, rfl⟩ := numeral?_eq_some hn
    exact ⟨a, .scalar (.number ha (Numeral.value?_eq_some_iff.1 hv)), rfl⟩

theorem Token.next?_of_head (hc : c = '-' ∨ c.isDigit = true) (s : Text) :
    Token.next? (c :: s) = (numeral? (c :: s)).bind fun (n, rest) =>
      n.value?.map fun n => (.scalar (.number n), rest) := by
  have hne : ∀ d : Char, d ≠ '-' → d.isDigit = false → c ≠ d := by
    rintro d hminus hdigit rfl
    simp_all
  rw [Token.next?]
  all_goals simp [hne]

theorem Token.next?_scalar {v : Scalar} (hs : IsScalar .strict Numeral.Stepwise s v)
    (hx : x.head?.any isNumeralRest = false) : Token.next? (s ++ x) = some (.scalar v, x) := by
  cases hs with
  | null | true | false => rfl
  | @number s n v hn hv =>
    have hnumeral := numeral?_append hn hx
    obtain ⟨c, t, rfl, hc⟩ := hn.head?
    rw [List.cons_append] at hnumeral ⊢
    simp only [Token.next?_of_head hc, hnumeral, Option.bind_some,
      Numeral.value?_eq_some_iff.2 hv, Option.map_some]
  | string hs =>
    cases hs with
    | double hs =>
      rw [List.cons_append, List.append_assoc, List.singleton_append, Token.next?,
        string?_eq_some_iff.2 ⟨_, hs, rfl⟩]
      rfl
    | single hd => cases hd

end PropCatalog.Json
