import Mathlib.Data.List.Dedup
import PropCatalog.Json.Reader
import PropCatalog.Proofs.Json.Numeral
import PropCatalog.Proofs.Text.Classes

/-!
# The grammar of JSON and of its relaxed notation

`Spells d rounding n s v` tells that the text `s`, without spaces around it, denotes the value `v` in
the dialect `d` with at most `n` containers open at once. The relaxed dialect has four rules that the
strict one lacks: strings in single quotes, the escape of the single quote, bare words as field
names, and a comma behind the last part of a container or alone in one without parts.

Escapes are told by a table, hexadecimal digits by their place among all of them, and the double
precision number of a numeral by the relation `rounding`, such as the nearest number. The reader's
functions for all of these are not used here.
-/

namespace PropCatalog.Json

open Literal.Relaxed (isWordStart isWordRest)

/-- A notation for values. -/
inductive Dialect where
  | strict
  | relaxed
  deriving DecidableEq

/-- Nothing but the white space of JSON. -/
def Spaces (s : Text) : Prop := ∀ c ∈ s, isSpace c = true

theorem spaces_nil : Spaces [] := by simp [Spaces]

/-! ## Strings -/

/-- The letters behind a backslash, each with the character it stands for. -/
def escapes : List (Char × Char) :=
  [('"', '"'), ('\\', '\\'), ('/', '/'), ('b', '\x08'), ('f', '\x0c'), ('n', '\n'), ('r', '\r'),
    ('t', '\t')]

/-- The value of a hexadecimal digit is its place among the digits. -/
def IsHexDigit (c : Char) (n : Nat) : Prop :=
  "0123456789abcdef".toList[n]? = some c ∨ "0123456789ABCDEF".toList[n]? = some c

/-- The code unit that four hexadecimal digits write. -/
def IsCodeUnit (c₁ c₂ c₃ c₄ : Char) (n : Nat) : Prop :=
  ∃ n₁ n₂ n₃ n₄, IsHexDigit c₁ n₁ ∧ IsHexDigit c₂ n₂ ∧ IsHexDigit c₃ n₃ ∧ IsHexDigit c₄ n₄ ∧
    n = n₁ * 16 ^ 3 + n₂ * 16 ^ 2 + n₃ * 16 + n₄

/-- The escapes of both dialects, each with the character it denotes. -/
inductive Escape : (s : Text) → (c : Char) → Prop
  | letter {e c : Char} (hc : (e, c) ∈ escapes) : Escape ['\\', e] c
  /-- A code unit that is no half of a pair. -/
  | unit {c₁ c₂ c₃ c₄ : Char} {n : Nat} (hn : IsCodeUnit c₁ c₂ c₃ c₄ n)
      (hsingle : n < 0xD800 ∨ 0xDFFF < n) : Escape ['\\', 'u', c₁, c₂, c₃, c₄] (Char.ofNat n)
  /-- A high and a low surrogate. -/
  | pair {c₁ c₂ c₃ c₄ d₁ d₂ d₃ d₄ : Char} {high low : Nat} (hhigh : IsCodeUnit c₁ c₂ c₃ c₄ high)
      (hlow : IsCodeUnit d₁ d₂ d₃ d₄ low) (hhighRange : 0xD800 ≤ high ∧ high ≤ 0xDBFF)
      (hlowRange : 0xDC00 ≤ low ∧ low ≤ 0xDFFF) :
      Escape ['\\', 'u', c₁, c₂, c₃, c₄, '\\', 'u', d₁, d₂, d₃, d₄]
        (Char.ofNat (0x10000 + (high - 0xD800) * 0x400 + (low - 0xDC00)))

theorem Escape.head? {e : Text} {c : Char} (he : Escape e c) : ∃ t, e = '\\' :: t := by
  cases he <;> exact ⟨_, rfl⟩

/-- `Quoted d quote s value` tells that `s` denotes the text `value` between two `quote`s. -/
inductive Quoted (d : Dialect) (quote : Char) : (s value : Text) → Prop
  | nil : Quoted d quote [] []
  | plain {c : Char} {s value : Text} (hquote : c ≠ quote) (hescape : c ≠ '\\')
      (hcontrol : 0x20 ≤ c.toNat) (hs : Quoted d quote s value) :
      Quoted d quote (c :: s) (c :: value)
  | escape {e s value : Text} {c : Char} (he : Escape e c) (hs : Quoted d quote s value) :
      Quoted d quote (e ++ s) (c :: value)
  | apostrophe {s value : Text} (hd : d = .relaxed) (hs : Quoted d quote s value) :
      Quoted d quote ('\\' :: '\'' :: s) ('\'' :: value)

/-- A string with its quotes. -/
inductive IsString (d : Dialect) : (s value : Text) → Prop
  | double {s value : Text} (hs : Quoted d '"' s value) : IsString d ('"' :: (s ++ ['"'])) value
  | single {s value : Text} (hd : d = .relaxed) (hs : Quoted d '\'' s value) :
      IsString d ('\'' :: (s ++ ['\''])) value

/-! ## Numbers and the other scalars -/

/-- A non-empty run of digits. -/
def IsDigits (s : Text) : Prop := s ≠ [] ∧ ∀ c ∈ s, c.isDigit = true

theorem isDigits_of_all {s : Text} (hne : s ≠ []) (h : s.all Char.isDigit = true) : IsDigits s :=
  ⟨hne, List.all_eq_true.1 h⟩

/-- The digits before the point have no zero in front of others. -/
def IsWhole (s : Text) : Prop := s = ['0'] ∨ IsDigits s ∧ s.head? ≠ some '0'

theorem isDigits_of_isWhole {digits : Text} (h : IsWhole digits) : IsDigits digits := by
  rcases h with rfl | ⟨hdigits, -⟩
  · exact ⟨by simp, by simp⟩
  · exact hdigits

/-- The point with its digits, or nothing. -/
inductive IsFraction : (s : Text) → (fraction : Option Text) → Prop
  | none : IsFraction [] none
  | some {digits : Text} (hdigits : IsDigits digits) : IsFraction ('.' :: digits) (some digits)

/-- The exponent with its letter and an optional sign, or nothing. -/
inductive IsExponent : (s : Text) → (exponent : Option (Bool × Text)) → Prop
  | none : IsExponent [] none
  | unsigned {letter : Char} {digits : Text} (hletter : letter = 'e' ∨ letter = 'E')
      (hdigits : IsDigits digits) : IsExponent (letter :: digits) (some (false, digits))
  | signed {letter sign : Char} {digits : Text} (hletter : letter = 'e' ∨ letter = 'E')
      (hsign : sign = '+' ∨ sign = '-') (hdigits : IsDigits digits) :
      IsExponent (letter :: sign :: digits) (some (sign = '-', digits))

/-- `IsNumeral s n` tells that `s` is written as the numeral `n`. -/
inductive IsNumeral : (s : Text) → (n : Numeral) → Prop
  | mk {negative : Bool} {whole fraction exponent : Text} {fraction? : Option Text}
      {exponent? : Option (Bool × Text)} (hwhole : IsWhole whole)
      (hfraction : IsFraction fraction fraction?) (hexponent : IsExponent exponent exponent?) :
      IsNumeral ((if negative then ['-'] else []) ++ (whole ++ (fraction ++ exponent)))
        ⟨negative, whole, fraction?, exponent?⟩

theorem IsNumeral.exists_append_digits {s : Text} {n : Numeral} (h : IsNumeral s n) :
    ∃ a digits, s = a ++ digits ∧ IsDigits digits := by
  obtain @⟨negative, whole, fraction, exponent, fraction?, exponent?, hwhole, hfraction,
    hexponent⟩ := h
  generalize (if negative then ['-'] else []) = dash
  cases hexponent with
  | @unsigned letter digits _ hdigits =>
    exact ⟨dash ++ (whole ++ (fraction ++ [letter])), digits, by simp, hdigits⟩
  | @signed letter sign digits _ _ hdigits =>
    exact ⟨dash ++ (whole ++ (fraction ++ [letter, sign])), digits, by simp, hdigits⟩
  | none =>
    cases hfraction with
    | @some digits hdigits => exact ⟨dash ++ (whole ++ ['.']), digits, by simp, hdigits⟩
    | none => exact ⟨dash, whole, by simp, isDigits_of_isWhole hwhole⟩

/-- A scalar; of the numerals those that denote a number. -/
inductive IsScalar (d : Dialect) (rounding : Numeral.Rounding) : (s : Text) → (x : Scalar) → Prop
  | null : IsScalar d rounding ['n', 'u', 'l', 'l'] .null
  | true : IsScalar d rounding ['t', 'r', 'u', 'e'] (.bool true)
  | false : IsScalar d rounding ['f', 'a', 'l', 's', 'e'] (.bool false)
  | number {s : Text} {n : Numeral} {x : Number} (hs : IsNumeral s n) (hx : n.Denotes rounding x) :
      IsScalar d rounding s (.number x)
  | string {s value : Text} (hs : IsString d s value) : IsScalar d rounding s (.string value)

/-! ## Containers -/

/-- A bare word. -/
inductive IsWord : (s : Text) → Prop
  | mk {c : Char} {s : Text} (hc : isWordStart c = true) (hs : ∀ c ∈ s, isWordRest c = true) :
      IsWord (c :: s)

/-- The name of a field: a string, or in the relaxed dialect a bare word. -/
inductive IsName (d : Dialect) : (s name : Text) → Prop
  | string {s name : Text} (hs : IsString d s name) : IsName d s name
  | word {s : Text} (hd : d = .relaxed) (hs : IsWord s) : IsName d s s

/-- A field: a name, a colon and a value that `value` spells, with spaces around the colon. -/
inductive IsField (d : Dialect) (value : Text → Value → Prop) : Text → Text × Value → Prop
  | mk {s name w w' t : Text} {v : Value} (hname : IsName d s name) (hw : Spaces w)
      (hw' : Spaces w') (hv : value t v) :
      IsField d value (s ++ (w ++ ':' :: (w' ++ t))) (name, v)

/-- What stands before a closer: spaces, and in the relaxed dialect at most one comma. -/
def Ending (d : Dialect) (s : Text) : Prop :=
  Spaces s ∨ d = .relaxed ∧ ∃ w w', s = w ++ ',' :: w' ∧ Spaces w ∧ Spaces w'

/-- The parts of a container that has some, with commas between them. -/
inductive Parts {α : Type} (d : Dialect) (part : Text → α → Prop) : Text → List α → Prop
  | last {w p e : Text} {x : α} (hw : Spaces w) (hp : part p x) (he : Ending d e) :
      Parts d part (w ++ (p ++ e)) [x]
  | cons {w p w' s : Text} {x : α} {xs : List α} (hw : Spaces w) (hp : part p x) (hw' : Spaces w')
      (hs : Parts d part s xs) : Parts d part (w ++ (p ++ (w' ++ ',' :: s))) (x :: xs)

/-- What stands between an opener and its closer. -/
inductive Inside {α : Type} (d : Dialect) (part : Text → α → Prop) : Text → List α → Prop
  | empty {e : Text} (he : Ending d e) : Inside d part e []
  | parts {s : Text} {xs : List α} (hs : Parts d part s xs) : Inside d part s xs

/-- The names of the fields, each once, in the order in which they stand first. -/
def firstNames (fields : List (Text × Value)) : List Text :=
  (fields.map Prod.fst).reverse.dedup.reverse

/-- The fields of an object as the value keeps them: each name once, in the place where it stands
first and with the value it has last. -/
def merged (fields : List (Text × Value)) : List (Text × Value) :=
  (firstNames fields).filterMap fun name =>
    (fields.reverse.lookup name).map fun v => (name, v)

/-- An array or an object whose parts `value` spells. -/
inductive IsContainer (d : Dialect) (value : Text → Value → Prop) : Text → Value → Prop
  | array {s : Text} {items : List Value} (hs : Inside d value s items) :
      IsContainer d value ('[' :: (s ++ [']'])) (.array items)
  | object {s : Text} {fields : List (Text × Value)} (hs : Inside d (IsField d value) s fields) :
      IsContainer d value ('{' :: (s ++ ['}'])) (.object (merged fields))

/-- A value without parts. -/
inductive IsLeaf (d : Dialect) (rounding : Numeral.Rounding) : Text → Value → Prop
  | scalar {s : Text} {x : Scalar} (hs : IsScalar d rounding s x) : IsLeaf d rounding s (.scalar x)

/-- The texts of values in a dialect, with at most the given number of containers open at once. -/
def Spells (d : Dialect) (rounding : Numeral.Rounding) : (nesting : Nat) → Text → Value → Prop
  | 0, s, v => IsLeaf d rounding s v
  | n + 1, s, v => IsLeaf d rounding s v ∨ IsContainer d (Spells d rounding n) s v

theorem spells_of_isLeaf {d : Dialect} {rounding : Numeral.Rounding} {n : Nat} {s : Text}
    {v : Value} (h : IsLeaf d rounding s v) : Spells d rounding n s v := by
  cases n with
  | zero => exact h
  | succ n => exact .inl h

/-! ## More texts for more parts -/

section Monotone

variable {α : Type} {d : Dialect} {s : Text}

theorem Parts.mono {part part' : Text → α → Prop} (h : ∀ s x, part s x → part' s x) {xs : List α}
    (hs : Parts d part s xs) : Parts d part' s xs := by
  induction hs with
  | last hw hp he => exact .last hw (h _ _ hp) he
  | cons hw hp hw' _ ih => exact .cons hw (h _ _ hp) hw' ih

theorem Inside.mono {part part' : Text → α → Prop} (h : ∀ s x, part s x → part' s x) {xs : List α}
    (hs : Inside d part s xs) : Inside d part' s xs := by
  cases hs with
  | empty he => exact .empty he
  | parts hs => exact .parts (hs.mono h)

theorem IsContainer.mono {value value' : Text → Value → Prop} (h : ∀ s v, value s v → value' s v)
    {v : Value} (hs : IsContainer d value s v) : IsContainer d value' s v := by
  have hfield : ∀ s field, IsField d value s field → IsField d value' s field := by
    intro s field hs
    cases hs with
    | mk hname hw hw' hv => exact .mk hname hw hw' (h _ _ hv)
  cases hs with
  | array hs => exact .array (hs.mono h)
  | object hs => exact .object (hs.mono hfield)

variable {rounding rounding' : Numeral.Rounding} {v : Value}

theorem IsLeaf.mono (h : ∀ n x, rounding n x → rounding' n x) (hs : IsLeaf d rounding s v) :
    IsLeaf d rounding' s v := by
  obtain ⟨hs⟩ := hs
  cases hs with
  | null => exact .scalar .null
  | true => exact .scalar .true
  | false => exact .scalar .false
  | string hs => exact .scalar (.string hs)
  | number hs hx =>
    cases hx with
    | int hfits => exact .scalar (.number hs (.int hfits))
    | float hfits hx => exact .scalar (.number hs (.float hfits (h _ _ hx)))

theorem Spells.mono (h : ∀ n x, rounding n x → rounding' n x) {nesting : Nat}
    (hs : Spells d rounding nesting s v) : Spells d rounding' nesting s v := by
  induction nesting generalizing s v with
  | zero => exact IsLeaf.mono h hs
  | succ nesting ih => exact hs.imp (IsLeaf.mono h) (IsContainer.mono fun _ _ => ih)

end Monotone

/-! ## How a value starts -/

section Begins

variable {d : Dialect} {rounding : Numeral.Rounding} {n : Nat} {s : Text} {v : Value}

/-- A text that starts with neither a blank nor a closer. -/
def Begins (s : Text) : Prop :=
  ∃ c t, s = c :: t ∧ Text.isBlank c = false ∧ c ≠ ']' ∧ c ≠ '}'

theorem Begins.append (h : Begins s) (t : Text) : Begins (s ++ t) := by
  obtain ⟨c, s, rfl, hc⟩ := h
  exact ⟨c, s ++ t, rfl, hc⟩

theorem Begins.head?_not_blank (h : Begins s) : s.head?.any Text.isBlank = false := by
  obtain ⟨c, s, rfl, hblank, -⟩ := h
  simpa using hblank

theorem begins_of_isWordRest {c : Char} (hc : isWordRest c = true) (t : Text) :
    Begins (c :: t) := by
  refine ⟨c, t, rfl, Text.isBlank_of_isWordRest hc, ?_, ?_⟩
  all_goals
    rintro rfl
    cases hc

theorem IsNumeral.head? {m : Numeral} (h : IsNumeral s m) :
    ∃ c t, s = c :: t ∧ (c = '-' ∨ c.isDigit = true) := by
  obtain @⟨negative, whole, fraction, exponent, fraction?, exponent?, hwhole, -, -⟩ := h
  cases negative with
  | true => exact ⟨'-', _, rfl, .inl rfl⟩
  | false =>
    obtain rfl | ⟨⟨hne, hall⟩, -⟩ := hwhole
    · exact ⟨'0', _, rfl, .inr rfl⟩
    · cases whole with
      | nil => exact absurd rfl hne
      | cons c whole => exact ⟨c, _, rfl, .inr (hall c (by simp))⟩

theorem IsString.begins {value : Text} (h : IsString d s value) : Begins s := by
  cases h <;> exact ⟨_, _, rfl, rfl, by decide, by decide⟩

theorem IsScalar.begins {x : Scalar} (h : IsScalar d rounding s x) : Begins s := by
  cases h with
  | null | true | false => exact ⟨_, _, rfl, rfl, by decide, by decide⟩
  | number hs =>
    obtain ⟨c, t, rfl, rfl | hc⟩ := hs.head?
    · exact ⟨_, _, rfl, rfl, by decide, by decide⟩
    · exact begins_of_isWordRest (Text.isWordRest_of_isDigit hc) t
  | string hs => exact hs.begins

theorem IsName.begins {name : Text} (h : IsName d s name) : Begins s := by
  cases h with
  | string hs => exact hs.begins
  | word _ hs =>
    cases hs with
    | mk hc => exact begins_of_isWordRest (Text.isWordRest_of_isWordStart hc) _

theorem IsField.begins {value : Text → Value → Prop} {field : Text × Value}
    (h : IsField d value s field) : Begins s := by
  cases h with
  | mk hname => exact hname.begins.append _

theorem IsLeaf.begins (h : IsLeaf d rounding s v) : Begins s := by
  cases h with
  | scalar hs => exact hs.begins

theorem Spells.begins (h : Spells d rounding n s v) : Begins s := by
  cases n with
  | zero => exact IsLeaf.begins h
  | succ n =>
    obtain h | h := h
    · exact h.begins
    · cases h <;> exact ⟨_, _, rfl, rfl, by decide, by decide⟩

theorem Parts.begins {α : Type} {part : Text → α → Prop} {xs : List α} (h : Parts d part s xs)
    (hbegins : ∀ u v, part u v → Begins u) : ∃ w t, s = w ++ t ∧ Spaces w ∧ Begins t := by
  cases h with
  | last hw hp | cons hw hp => exact ⟨_, _, rfl, hw, (hbegins _ _ hp).append _⟩

end Begins

/-! ## Fields with the same name -/

section Fields

variable {name : Text} {v : Value} {names : List Text} {fields : List (Text × Value)}

theorem firstNames_append_singleton (fields : List (Text × Value)) (name : Text) (v : Value) :
    firstNames (fields ++ [(name, v)]) =
      if name ∈ firstNames fields then firstNames fields else firstNames fields ++ [name] := by
  simp only [firstNames, List.map_append, List.map_cons, List.map_nil, List.reverse_append,
    List.reverse_cons, List.reverse_nil, List.nil_append, List.singleton_append,
    List.mem_reverse, List.mem_dedup]
  split
  next h => rw [List.dedup_cons_of_mem (List.mem_reverse.2 h)]
  next h => rw [List.dedup_cons_of_notMem (mt List.mem_reverse.1 h), List.reverse_cons]

theorem lookup_map_values {α β : Type} (f : α → β) (name : Text) (fields : List (Text × α)) :
    (fields.map (Prod.map id f)).lookup name = (fields.lookup name).map f := by
  induction fields with
  | nil => rfl
  | cons field fields ih =>
    rw [List.map_cons, List.lookup_cons, List.lookup_cons, ih, Prod.map_fst, id]
    cases name == field.1 <;> rfl

theorem setField_of_notMem {α : Type} {v : α} {fields : List (Text × α)}
    (h : name ∉ fields.map Prod.fst) : setField name v fields = fields ++ [(name, v)] := by
  induction fields with
  | nil => rfl
  | cons field fields ih =>
    obtain ⟨hne, hrest⟩ : name ≠ field.1 ∧ name ∉ fields.map Prod.fst := by simpa using h
    rw [setField, if_neg hne.symm, ih hrest, List.cons_append]

theorem setField_filterMap {f : Text → Option Value} (hnodup : names.Nodup) (hname : name ∈ names)
    (hf : ∀ n ∈ names, (f n).isSome) :
    setField name v (names.filterMap fun n => (f n).map fun v => (n, v)) =
      names.filterMap fun n => ((if n = name then some v else f n).map fun v => (n, v)) := by
  induction names with
  | nil => cases hname
  | cons n names ih =>
    obtain ⟨hn, hnodup⟩ := List.nodup_cons.1 hnodup
    obtain ⟨u, hu⟩ := Option.isSome_iff_exists.1 (hf n (by simp))
    by_cases heq : n = name
    · subst heq
      have hrest : names.filterMap (fun m => (f m).map fun v => (m, v)) =
          names.filterMap fun m => ((if m = n then some v else f m).map fun v => (m, v)) := by
        refine List.filterMap_congr fun m hm => ?_
        rw [if_neg]
        rintro rfl
        exact hn hm
      simp [hu, setField, hrest]
    · have hmem : name ∈ names := by simpa [Ne.symm heq] using hname
      have ih := ih hnodup hmem fun n hn => hf n (by simp [hn])
      simp [hu, setField, heq, ih]

theorem nodup_firstNames (fields : List (Text × Value)) : (firstNames fields).Nodup :=
  List.nodup_reverse.2 (List.nodup_dedup _)

theorem lookup_isSome (h : name ∈ fields.map Prod.fst) : (fields.lookup name).isSome := by
  rw [List.lookup_isSome_iff]
  obtain ⟨⟨n, v⟩, hmem, rfl⟩ := List.mem_map.1 h
  exact ⟨_, hmem, by simp⟩

theorem map_fst_filterMap {f : Text → Option Value} (hf : ∀ n ∈ names, (f n).isSome) :
    (names.filterMap fun n => (f n).map fun v => (n, v)).map Prod.fst = names := by
  induction names with
  | nil => rfl
  | cons n names ih =>
    obtain ⟨u, hu⟩ := Option.isSome_iff_exists.1 (hf n (by simp))
    simp [hu, ih fun n hn => hf n (by simp [hn])]

theorem merged_append_singleton (fields : List (Text × Value)) (name : Text) (v : Value) :
    merged (fields ++ [(name, v)]) = setField name v (merged fields) := by
  have hlookup (n : Text) : (fields ++ [(name, v)]).reverse.lookup n =
      if n = name then some v else fields.reverse.lookup n := by
    rw [List.reverse_append, List.reverse_singleton, List.singleton_append, List.lookup_cons]
    by_cases h : n = name
    · simp [h]
    · rw [beq_false_of_ne h, if_neg h]
  have hsome : ∀ n ∈ firstNames fields, (fields.reverse.lookup n).isSome := by
    intro n hn
    exact lookup_isSome (by simpa [firstNames] using hn)
  simp only [merged, hlookup, firstNames_append_singleton]
  split
  next hname => rw [setField_filterMap (nodup_firstNames fields) hname hsome]
  next hname =>
    have hsame : (firstNames fields).filterMap (fun n =>
          (if n = name then some v else fields.reverse.lookup n).map fun v => (n, v)) =
        (firstNames fields).filterMap fun n =>
          (fields.reverse.lookup n).map fun v => (n, v) := by
      refine List.filterMap_congr fun n hn => ?_
      rw [if_neg]
      rintro rfl
      exact hname hn
    rw [setField_of_notMem (by rwa [map_fst_filterMap hsome]), List.filterMap_append, hsame]
    simp

theorem foldl_setField (fields more : List (Text × Value)) :
    more.foldl (fun merged field => setField field.1 field.2 merged) (merged fields) =
      merged (fields ++ more) := by
  induction more generalizing fields with
  | nil => rw [List.foldl_nil, List.append_nil]
  | cons field more ih =>
    rw [List.foldl_cons, ← merged_append_singleton, ih, List.append_assoc, List.singleton_append]

end Fields

end PropCatalog.Json
