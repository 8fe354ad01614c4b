import PropCatalog.Json.Value
import PropCatalog.Word64

/-!
# JSON tokens

The tokens of a JSON text: punctuation and scalars. `Token.scan?` splits a text into tokens; blanks
between them are the four characters that JSON allows.

A number with a fraction or an exponent is read with a significand of 64 bits. Digits that no longer
fit are dropped, those of the integer part while counting up the exponent, and the significand is
then scaled by a power of ten, in steps of at most `10 ^ 308`, each step rounded and with a rounded
power.
-/

namespace PropCatalog.Json

/-- A token of a JSON text. -/
inductive Token where
  | openArray
  | closeArray
  | openObject
  | closeObject
  | comma
  | colon
  | scalar (value : Scalar)
  deriving DecidableEq, Repr

def isSpace (c : Char) : Bool :=
  c = ' ' || c = '\t' || c = '\n' || c = '\r'

/-! ## Strings -/

def hexValue? (c : Char) : Option Nat :=
  if '0' ≤ c && c ≤ '9' then some (c.toNat - 48)
  else if 'a' ≤ c && c ≤ 'f' then some (c.toNat - 87)
  else if 'A' ≤ c && c ≤ 'F' then some (c.toNat - 55)
  else none

/-- The value of four hexadecimal digits. -/
def hex4? (a b c d : Char) : Option Nat := do
  let a ← hexValue? a
  let b ← hexValue? b
  let c ← hexValue? c
  let d ← hexValue? d
  return ((a * 16 + b) * 16 + c) * 16 + d

/-- The character that a letter stands for after a backslash. -/
def unescape? (c : Char) : Option Char :=
  if c = '"' || c = '\\' || c = '/' then some c
  else if c = 'b' then some '\x08'
  else if c = 'f' then some '\x0c'
  else if c = 'n' then some '\n'
  else if c = 'r' then some '\r'
  else if c = 't' then some '\t'
  else none

/-- The character of a pair of surrogates. -/
def ofSurrogates? (high low : Nat) : Option Char :=
  if 0xDC00 ≤ low && low ≤ 0xDFFF then
    some (Char.ofNat (0x10000 + (high - 0xD800) * 0x400 + (low - 0xDC00)))
  else none

/-- The raw body of a string after its opening quote, escapes left as they are, and what follows its
closing quote. -/
def rawString? : Text → Option (Text × Text)
  | [] => none
  | '"' :: s => some ([], s)
  | '\\' :: c :: s => (rawString? s).map fun (raw, rest) => ('\\' :: c :: raw, rest)
  | c :: s => (rawString? s).map fun (raw, rest) => (c :: raw, rest)

/-- The text that the raw body of a string denotes. A surrogate escape counts only as one half of a
pair, and the characters below U+0020 are not allowed. -/
def decode? : Text → Option Text
  | [] => some []
  | '\\' :: 'u' :: a :: b :: c :: d :: s => do
    let n ← hex4? a b c d
    if 0xD800 ≤ n && n ≤ 0xDBFF then
      match s with
      | '\\' :: 'u' :: a :: b :: c :: d :: s =>
        let low ← hex4? a b c d
        let ch ← ofSurrogates? n low
        (decode? s).map (ch :: ·)
      | _ => none
    else if 0xDC00 ≤ n && n ≤ 0xDFFF then none
    else (decode? s).map (Char.ofNat n :: ·)
  | '\\' :: e :: s => do
    let c ← unescape? e
    (decode? s).map (c :: ·)
  | c :: s => if c = '\\' || c.toNat < 0x20 then none else (decode? s).map (c :: ·)

/-- The text of a string after its opening quote, and what follows its closing quote. -/
def string? (s : Text) : Option (Text × Text) := do
  let (raw, rest) ← rawString? s
  let value ← decode? raw
  return (value, rest)

/-! ## Numbers -/

def digitValue (c : Char) : Nat :=
  c.toNat - 48

/-- Takes digits into a significand as long as it fits into 64 bits; the answer has the significand
and the number of the digits taken. -/
def takeDigits : (significand count : Nat) → (digits : Text) → Nat × Nat
  | m, n, [] => (m, n)
  | m, n, d :: digits =>
    let m' := m * 10 + digitValue d
    if m' < Word64.limit then takeDigits m' (n + 1) digits else (m, n)

/-- The power of ten nearest to `10 ^ n`, for an `n` of at most 308. -/
def powerOfTen? (n : Nat) : Option Binary64 :=
  Binary64.ofRatio? false (Nat.pow 10 n) 1

/-- A significand scaled by a power of ten: large negative exponents in steps of `10 ^ 308`. None if
the number is too large. -/
def scaled? (x : Binary64) (exponent : Int) : Option Binary64 :=
  if 0 ≤ exponent then
    if exponent ≤ 308 then (powerOfTen? exponent.toNat).bind x.mul?
    else if x.isZero then some x
    else none
  else if -308 ≤ exponent then (powerOfTen? (-exponent).toNat).bind x.div?
  else if x.isZero then some x
  else ((powerOfTen? 308).bind x.div?).bind fun y => scaled? y (exponent + 308)
termination_by (-exponent).toNat

/-- A number as it is written: the digits before the point, those after it if there is a point, and
the sign and the digits of the exponent if there is one. -/
structure Numeral where
  negative : Bool
  whole : Text
  fraction : Option Text
  /-- The exponent: whether it is negative, and its digits. -/
  exponent : Option (Bool × Text)

namespace Numeral

/-- The largest written exponent that is counted. -/
def exponentLimit : Nat := 2147483648

/-- A number brought into the range of the counted exponents. -/
def clampExponent (e : Int) : Int :=
  max (-2147483648) (min 2147483647 e)

/-- The double precision number that a numeral with a fraction or an exponent, or with too large an
integer, denotes; none if it is too large. -/
def float? (n : Numeral) : Option Binary64 := do
  let (m, taken) := takeDigits 0 0 n.whole
  let dropped := n.whole.length - taken
  let (m, taken) := takeDigits m 0 (n.fraction.getD [])
  let start : Int := (dropped : Int) - taken
  match n.exponent with
  | none =>
    let x ← scaled? ((Binary64.ofRatio? false m 1).getD (.zero false)) start
    return x.withSign n.negative
  | some (below, digits) =>
    let e := Nat.ofDigitChars 10 digits 0
    if exponentLimit ≤ e then
      if m = 0 || below then return .zero n.negative else none
    else
      let e := clampExponent (if below then start - e else start + e)
      let x ← scaled? ((Binary64.ofRatio? false m 1).getD (.zero false)) e
      return x.withSign n.negative

/-- The number that a numeral denotes. An integer that fits into 64 bits, signed when negative,
stays an integer, except the negative zero. -/
def value? (n : Numeral) : Option Number :=
  let m := Nat.ofDigitChars 10 n.whole 0
  if n.fraction.isNone && n.exponent.isNone && m < Word64.limit then
    if !n.negative then some (.int m)
    else if 0 < m && m ≤ Word64.signedLimit then some (.int (-m))
    else (Binary64.ofRatio? true m 1).map .float
  else n.float?.map .float

end Numeral

/-- A non-empty run of digits, and what follows it. -/
def digits? (s : Text) : Option (Text × Text) :=
  match s.takeWhile Char.isDigit with
  | [] => none
  | digits => some (digits, s.dropWhile Char.isDigit)

/-- The digits before the point: a single zero, or digits that do not start with zero. -/
def wholeDigits? : Text → Option (Text × Text)
  | '0' :: s => some (['0'], s)
  | s => digits? s

/-- Takes a minus sign, if there is one. -/
def minus : Text → Bool × Text
  | '-' :: s => (true, s)
  | s => (false, s)

/-- Takes a sign of an exponent, if there is one; the answer is whether it is a minus sign. -/
def sign : Text → Bool × Text
  | '+' :: s => (false, s)
  | s => minus s

/-- Reads a point and the digits it needs after it, if there is a point. -/
def fraction? : Text → Option (Option Text × Text)
  | '.' :: s => (digits? s).map fun (digits, s) => (some digits, s)
  | s => some (none, s)

/-- Reads an exponent letter, an optional sign and the digits they need, if there is a letter. -/
def exponent? : Text → Option (Option (Bool × Text) × Text)
  | [] => some (none, [])
  | c :: s =>
    if c = 'e' || c = 'E' then
      (digits? (sign s).2).map fun (digits, rest) => (some ((sign s).1, digits), rest)
    else some (none, c :: s)

def numeral? (s : Text) : Option (Numeral × Text) :=
  (wholeDigits? (minus s).2).bind fun (whole, s₁) =>
    (fraction? s₁).bind fun (fraction, s₂) =>
      (exponent? s₂).map fun (exponent, s₃) => (⟨(minus s).1, whole, fraction, exponent⟩, s₃)

/-! ## Tokens -/

/-- Reads the token at the head of a text that does not start with white space. -/
def Token.next? : Text → Option (Token × Text)
  | [] => none
  | '[' :: s => some (.openArray, s)
  | ']' :: s => some (.closeArray, s)
  | '{' :: s => some (.openObject, s)
  | '}' :: s => some (.closeObject, s)
  | ',' :: s => some (.comma, s)
  | ':' :: s => some (.colon, s)
  | '"' :: s => (string? s).map fun (value, s) => (.scalar (.string value), s)
  | 't' :: 'r' :: 'u' :: 'e' :: s => some (.scalar (.bool true), s)
  | 'f' :: 'a' :: 'l' :: 's' :: 'e' :: s => some (.scalar (.bool false), s)
  | 'n' :: 'u' :: 'l' :: 'l' :: s => some (.scalar .null, s)
  | s =>
    (numeral? s).bind fun (n, rest) => n.value?.map fun n => (.scalar (.number n), rest)

/-! ## Every token takes at least one character -/

theorem rawString?_length {s raw rest : Text} (h : rawString? s = some (raw, rest)) :
    rest.length < s.length := by
  fun_induction rawString? s generalizing raw rest with
  | case1 => simp at h
  | case2 s => simp_all
  | case3 c s ih =>
    obtain ⟨⟨a, b⟩, hs, heq⟩ := Option.map_eq_some_iff.1 h
    obtain ⟨-, rfl⟩ := Prod.mk.inj heq
    have := ih hs
    simp only [List.length_cons]
    omega
  | case4 c s _ _ ih =>
    obtain ⟨⟨a, b⟩, hs, heq⟩ := Option.map_eq_some_iff.1 h
    obtain ⟨-, rfl⟩ := Prod.mk.inj heq
    have := ih hs
    simp only [List.length_cons]
    omega

theorem string?_length {s value rest : Text} (h : string? s = some (value, rest)) :
    rest.length < s.length := by
  simp only [string?, bind, Option.bind_eq_some_iff] at h
  obtain ⟨⟨raw, r⟩, hraw, v, -, hv⟩ := h
  simp only [pure, Option.some.injEq, Prod.mk.injEq] at hv
  exact hv.2 ▸ rawString?_length hraw

theorem digits?_length {s d rest : Text} (h : digits? s = some (d, rest)) :
    rest.length < s.length := by
  have hsplit := congrArg List.length
    (List.takeWhile_append_dropWhile (p := Char.isDigit) (l := s))
  simp only [digits?] at h
  split at h
  · simp at h
  · obtain ⟨rfl, rfl⟩ := Prod.mk.inj (Option.some.inj h)
    rename_i hne
    have := List.length_pos_iff.2 hne
    simp only [List.length_append] at hsplit
    omega

theorem wholeDigits?_length {s d rest : Text} (h : wholeDigits? s = some (d, rest)) :
    rest.length < s.length := by
  unfold wholeDigits? at h
  split at h
  · obtain ⟨-, rfl⟩ := Prod.mk.inj (Option.some.inj h)
    simp
  · exact digits?_length h

theorem minus_length (s : Text) : (minus s).2.length ≤ s.length := by
  unfold minus
  split <;> simp

theorem sign_length (s : Text) : (sign s).2.length ≤ s.length := by
  unfold sign
  split
  · simp
  · exact minus_length s

theorem fraction?_length {s rest : Text} {d : Option Text} (h : fraction? s = some (d, rest)) :
    rest.length ≤ s.length := by
  unfold fraction? at h
  split at h
  · obtain ⟨⟨a, b⟩, hs, heq⟩ := Option.map_eq_some_iff.1 h
    obtain ⟨-, rfl⟩ := Prod.mk.inj heq
    have := digits?_length hs
    simp only [List.length_cons]
    omega
  · obtain ⟨-, rfl⟩ := Prod.mk.inj (Option.some.inj h)
    exact Nat.le_refl _

theorem exponent?_length {s rest : Text} {d : Option (Bool × Text)}
    (h : exponent? s = some (d, rest)) : rest.length ≤ s.length := by
  unfold exponent? at h
  split at h
  · simp_all
  · rename_i c s
    split at h
    · obtain ⟨⟨a, b⟩, hs, heq⟩ := Option.map_eq_some_iff.1 h
      obtain ⟨-, rfl⟩ := Prod.mk.inj heq
      have := digits?_length hs
      have := sign_length s
      simp only [List.length_cons]
      omega
    · obtain ⟨-, rfl⟩ := Prod.mk.inj (Option.some.inj h)
      exact Nat.le_refl _

theorem numeral?_length {s rest : Text} {n : Numeral} (h : numeral? s = some (n, rest)) :
    rest.length < s.length := by
  obtain ⟨⟨whole, s₁⟩, h₁, h⟩ := Option.bind_eq_some_iff.1 h
  obtain ⟨⟨fraction, s₂⟩, h₂, h⟩ := Option.bind_eq_some_iff.1 h
  obtain ⟨⟨exponent, s₃⟩, h₃, heq⟩ := Option.map_eq_some_iff.1 h
  obtain ⟨-, rfl⟩ := Prod.mk.inj heq
  have := minus_length s
  have := wholeDigits?_length h₁
  have := fraction?_length h₂
  have := exponent?_length h₃
  simp only at *
  omega

theorem Token.next?_length {s rest : Text} {t : Token} (h : next? s = some (t, rest)) :
    rest.length < s.length := by
  unfold next? at h
  split at h
  case h_1 => simp at h
  case h_8 =>
    obtain ⟨⟨a, b⟩, hs, heq⟩ := Option.map_eq_some_iff.1 h
    obtain ⟨-, rfl⟩ := Prod.mk.inj heq
    have := string?_length hs
    simp only [List.length_cons]
    omega
  case h_12 =>
    obtain ⟨⟨n, r⟩, hn, h⟩ := Option.bind_eq_some_iff.1 h
    obtain ⟨v, -, heq⟩ := Option.map_eq_some_iff.1 h
    obtain ⟨-, rfl⟩ := Prod.mk.inj heq
    exact numeral?_length hn
  all_goals
    obtain ⟨-, rfl⟩ := Prod.mk.inj (Option.some.inj h)
    simp only [List.length_cons]
    omega

/-- The tokens of a text; none if it has a part that is no token. -/
def Token.scan? (s : Text) : Option (List Token) :=
  match _hs : s.dropWhile isSpace with
  | [] => some []
  | c :: s' =>
    match _ht : Token.next? (c :: s') with
    | none => none
    | some (t, rest) => (Token.scan? rest).map (t :: ·)
termination_by s.length
decreasing_by
  have hlt := Token.next?_length _ht
  have hle := (List.dropWhile_suffix isSpace (l := s)).length_le
  rw [_hs] at hle
  omega

end PropCatalog.Json
