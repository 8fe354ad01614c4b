import PropCatalog.Proofs.Literal.Numbers
import PropCatalog.Proofs.Text.Occurrence

/-!
# Simple literals

The defaults of a component are mostly plain data: integers, truth values, strings, and arrays and
objects of these in relaxed notation. `IsSimple` is the part of the relaxed dialect whose numbers
are integers of 64 bits and whose strings hold no raw brace, with the value that is documented for
each text, in which integers are integers; `IsDefault` adds what can stand as a default on its own.
Every such text is evaluated to its value (`evaluate_of_isDefault`).
-/

namespace PropCatalog.Literal

open Json

/-! ## The notation -/

/-- No brace stands in a text. -/
def Braceless (s : Text) : Prop := '{' ∉ s ∧ '}' ∉ s

/-- An integer with a sign that fits into 64 bits, written as JSON writes integers. -/
inductive IsInteger : (s : Text) → (n : Int) → Prop
  | positive {digits : Text} (hdigits : IsWhole digits)
      (hfits : Nat.ofDigitChars 10 digits 0 < Word64.signedLimit) :
      IsInteger digits (Nat.ofDigitChars 10 digits 0)
  | negative {digits : Text} (hdigits : IsWhole digits)
      (hfits : Nat.ofDigitChars 10 digits 0 ≤ Word64.signedLimit) :
      IsInteger ('-' :: digits) (-(Nat.ofDigitChars 10 digits 0))

/-- A value without parts, inside a container. -/
inductive IsSimpleLeaf : Text → Value → Prop
  | null : IsSimpleLeaf "null".toList (.scalar .null)
  | true : IsSimpleLeaf "true".toList (.scalar (.bool true))
  | false : IsSimpleLeaf "false".toList (.scalar (.bool false))
  | integer {s : Text} {n : Int} (hs : IsInteger s n) : IsSimpleLeaf s (.scalar (.number (.int n)))
  | string {s value : Text} (hs : IsString .relaxed s value) (hbraces : Braceless s) :
      IsSimpleLeaf s (.scalar (.string value))

/-- A field of an object. -/
inductive IsSimpleField (value : Text → Value → Prop) : Text → Text × Value → Prop
  | mk {s name w w' t : Text} {v : Value} (hname : IsName .relaxed s name) (hbraces : Braceless s)
      (hw : Spaces w) (hw' : Spaces w') (hv : value t v) :
      IsSimpleField value (s ++ (w ++ ':' :: (w' ++ t))) (name, v)

inductive IsSimpleContainer (value : Text → Value → Prop) : Text → Value → Prop
  | array {s : Text} {items : List Value} (hs : Inside .relaxed value s items) :
      IsSimpleContainer value ('[' :: (s ++ [']'])) (.array items)
  | object {s : Text} {fields : List (Text × Value)}
      (hs : Inside .relaxed (IsSimpleField value) s fields) :
      IsSimpleContainer value ('{' :: (s ++ ['}'])) (.object (merged fields))

/-- The texts of simple values, with at most the given number of containers open at once. -/
def IsSimple : (nesting : Nat) → Text → Value → Prop
  | 0, s, v => IsSimpleLeaf s v
  | n + 1, s, v => IsSimpleLeaf s v ∨ IsSimpleContainer (IsSimple n) s v

/-- A simple literal that is given as a default, and its value. -/
inductive IsDefault : Text → Value → Prop
  | integer {s : Text} {n : Int} (hs : IsInteger s n) : IsDefault s (.scalar (.number (.int n)))
  | true : IsDefault "true".toList (.scalar (.bool true))
  | false : IsDefault "false".toList (.scalar (.bool false))
  | string {quote : Char} {s : Text} (hquote : quote = '\'' ∨ quote = '"' ∨ quote = '\x60')
      (hs : ∀ c ∈ s, c ≠ quote ∧ c ≠ '\\') (hbraces : Braceless s) :
      IsDefault (quote :: (s ++ [quote])) (.scalar (.string s))
  | container {s : Text} {v : Value} (hs : IsSimple Reading.nestingLimit s v) (hopens : Opens s) :
      IsDefault s v

/-! ## Values -/

section Values

variable {α β : Type} {d : Dialect} {s : Text}

theorem Parts.exists_map {part : Text → α → Prop} {part' : Text → β → Prop} {f : β → α}
    (hpart : ∀ t x, part t x → ∃ y, part' t y ∧ f y = x) {xs : List α} (h : Parts d part s xs) :
    ∃ ys, Parts d part' s ys ∧ ys.map f = xs := by
  induction h with
  | last hw hp he =>
    obtain ⟨y, hy, rfl⟩ := hpart _ _ hp
    exact ⟨[y], .last hw hy he, rfl⟩
  | cons hw hp hw' _ ih =>
    obtain ⟨y, hy, rfl⟩ := hpart _ _ hp
    obtain ⟨ys, hys, rfl⟩ := ih
    exact ⟨y :: ys, .cons hw hy hw' hys, rfl⟩

theorem Inside.exists_map {part : Text → α → Prop} {part' : Text → β → Prop} {f : β → α}
    (hpart : ∀ t x, part t x → ∃ y, part' t y ∧ f y = x) {xs : List α} (h : Inside d part s xs) :
    ∃ ys, Inside d part' s ys ∧ ys.map f = xs := by
  cases h with
  | empty he => exact ⟨[], .empty he, rfl⟩
  | parts hs =>
    obtain ⟨ys, hys, rfl⟩ := Parts.exists_map hpart hs
    exact ⟨ys, .parts hys, rfl⟩

end Values

/-- A field with the whole numbers of its value as integers. -/
def fieldToInt : Text × Value → Text × Value := Prod.map id Value.wholeToInt

theorem wholeToIntItems_eq_map (items : List Value) :
    Value.wholeToIntItems items = items.map Value.wholeToInt := by
  induction items with
  | nil => rfl
  | cons v items ih => rw [Value.wholeToIntItems, ih, List.map_cons]

theorem wholeToIntFields_eq_map (fields : List (Text × Value)) :
    Value.wholeToIntFields fields = fields.map fieldToInt := by
  induction fields with
  | nil => rfl
  | cons field fields ih =>
    rw [Value.wholeToIntFields, ih, List.map_cons]
    rfl

theorem merged_map_fieldToInt (fields : List (Text × Value)) :
    merged (fields.map fieldToInt) = (merged fields).map fieldToInt := by
  have hnames : firstNames (fields.map fieldToInt) = firstNames fields := by
    rw [firstNames, List.map_map]
    rfl
  rw [merged, hnames, merged, List.map_filterMap]
  refine List.filterMap_congr fun name _ => ?_
  rw [← List.map_reverse, fieldToInt, lookup_map_values, Option.map_map, Option.map_map]
  rfl

theorem isNumeral_of_isWhole (negative : Bool) {digits : Text} (h : IsWhole digits) :
    IsNumeral ((if negative then ['-'] else []) ++ digits) ⟨negative, digits, none, none⟩ := by
  have hnumeral : IsNumeral ((if negative then ['-'] else []) ++ (digits ++ ([] ++ [])))
      ⟨negative, digits, none, none⟩ := .mk h .none .none
  simpa using hnumeral

theorem IsInteger.exists_isNumeral {s : Text} {k : Int} (h : IsInteger s k) :
    ∃ n, IsNumeral s n ∧ FitsSigned n ∧ n.signed = k := by
  have hlimit : Word64.signedLimit < Word64.limit := by decide
  have hsignificand : ∀ (negative : Bool) (digits : Text),
      Numeral.significand ⟨negative, digits, none, none⟩ = Nat.ofDigitChars 10 digits 0 :=
    fun _ _ => Numeral.significand_of_fraction_eq_none rfl
  cases h with
  | positive hdigits hfits =>
    refine ⟨_, isNumeral_of_isWhole false hdigits, ⟨⟨rfl, rfl, ?_⟩, ?_⟩, ?_⟩
    · rw [hsignificand]
      exact hfits.trans hlimit
    · rw [hsignificand]
      exact hfits
    · rw [Numeral.signed, hsignificand]
      rfl
  | negative hdigits hfits =>
    refine ⟨_, isNumeral_of_isWhole true hdigits, ⟨⟨rfl, rfl, ?_⟩, ?_⟩, ?_⟩
    · rw [hsignificand]
      exact lt_of_le_of_lt hfits hlimit
    · rw [hsignificand]
      exact hfits
    · rw [Numeral.signed, hsignificand]
      rfl

theorem IsInteger.exists_isScalar {s : Text} {k : Int} (h : IsInteger s k) :
    ∃ x, IsScalar .relaxed Numeral.Stepwise s (.number x) ∧ x.wholeToInt = .int k := by
  obtain ⟨n, hs, hfits, rfl⟩ := h.exists_isNumeral
  obtain ⟨x, hx, hwhole⟩ := hfits.exists_value?
  exact ⟨x, .number hs (Numeral.value?_eq_some_iff.1 hx), hwhole⟩

theorem IsSimpleLeaf.exists_isLeaf {s : Text} {v : Value} (h : IsSimpleLeaf s v) :
    ∃ w, IsLeaf .relaxed Numeral.Stepwise s w ∧ w.wholeToInt = v := by
  cases h with
  | null => exact ⟨_, .scalar .null, rfl⟩
  | true => exact ⟨_, .scalar .true, rfl⟩
  | false => exact ⟨_, .scalar .false, rfl⟩
  | integer hs =>
    obtain ⟨x, hx, hwhole⟩ := hs.exists_isScalar
    exact ⟨_, .scalar hx, by rw [Value.wholeToInt, hwhole]⟩
  | string hs => exact ⟨_, .scalar (.string hs), rfl⟩

theorem IsSimple.exists_spells {n : Nat} {s : Text} {v : Value} (h : IsSimple n s v) :
    ∃ w, Spells .relaxed Numeral.Stepwise n s w ∧ w.wholeToInt = v := by
  induction n generalizing s v with
  | zero => exact IsSimpleLeaf.exists_isLeaf h
  | succ n ih =>
    have hitem : ∀ t x, IsSimple n t x →
        ∃ y, Spells .relaxed Numeral.Stepwise n t y ∧ y.wholeToInt = x :=
      fun t x hx => ih hx
    have hfield : ∀ t x, IsSimpleField (IsSimple n) t x →
        ∃ y, IsField .relaxed (Spells .relaxed Numeral.Stepwise n) t y ∧ fieldToInt y = x := by
      rintro _ _ ⟨hname, -, hw, hw', hv⟩
      obtain ⟨w, hspells, rfl⟩ := ih hv
      exact ⟨_, .mk hname hw hw' hspells, rfl⟩
    rcases h with h | h
    · obtain ⟨w, hw, hwhole⟩ := h.exists_isLeaf
      exact ⟨w, spells_of_isLeaf hw, hwhole⟩
    · cases h with
      | array hs =>
        obtain ⟨items, hitems, rfl⟩ := Inside.exists_map hitem hs
        exact ⟨.array items, .inr (.array hitems), by
          rw [Value.wholeToInt, wholeToIntItems_eq_map]⟩
      | object hs =>
        obtain ⟨fields, hfields, rfl⟩ := Inside.exists_map hfield hs
        exact ⟨.object (merged fields), .inr (.object hfields), by
          rw [Value.wholeToInt, wholeToIntFields_eq_map, merged_map_fieldToInt]⟩

/-! ## Evaluation -/

theorem ofText_number {c : Char} (hc : c = '-' ∨ c.isDigit = true) (s : Text) :
    ofText (c :: s) = match number? (c :: s) with
      | some n => .evaluated (.scalar (.number n))
      | none => .unparsed (c :: s) := by
  have hne : ∀ d, d.isDigit = false → d ≠ '-' → c ≠ d := by
    rintro d hd hdash rfl
    rcases hc with hc | hc
    · exact hdash hc
    · exact ne_of_isDigit hc hd rfl
  have hunquote : unquote? (c :: s) = none := by
    simp [unquote?, hne '\'' rfl (by decide), hne '"' rfl (by decide), hne '\x60' rfl (by decide)]
  have hwords : c :: s ≠ "true".toList ∧ c :: s ≠ "false".toList := by
    constructor
    · exact fun h => hne 't' rfl (by decide) (List.cons.inj h).1
    · exact fun h => hne 'f' rfl (by decide) (List.cons.inj h).1
  have hopener : ((c :: s).head? = some '[' || (c :: s).head? = some '{') = false := by
    simp [hne '[' rfl (by decide), hne '{' rfl (by decide)]
  rw [ofText, hunquote, hopener]
  refine (if_neg Bool.false_ne_true).trans ((if_neg hwords.1).trans ((if_neg hwords.2).trans ?_))
  cases number? (c :: s) <;> rfl

theorem number?_of_isInteger {s : Text} {k : Int} (h : IsInteger s k) :
    number? s = some (.int k) := by
  obtain ⟨n, hs, hfits, rfl⟩ := h.exists_isNumeral
  rw [number?_of_isNumeral hs, ofNumeral?, if_pos hfits]

theorem IsSimple.ends {n : Nat} {s : Text} {v : Value} (h : IsSimple n s v) : Ends s := by
  obtain ⟨w, hw, -⟩ := h.exists_spells
  exact ends_of_spells hw

theorem head?_not_blank_of_isDefault {t : Text} {v : Value} (h : IsDefault t v) :
    t.head?.any Text.isBlank = false := by
  cases h with
  | integer hs =>
    obtain ⟨n, hs, -⟩ := hs.exists_isNumeral
    obtain ⟨c, t, rfl, rfl | hc⟩ := hs.head?
    · rfl
    · exact Text.isBlank_of_isWordRest (Text.isWordRest_of_isDigit hc)
  | true => rfl
  | false => rfl
  | string hquote => rcases hquote with rfl | rfl | rfl <;> rfl
  | container _ hopens => exact hopens.begins.head?_not_blank

theorem ends_of_isDefault {t : Text} {v : Value} (h : IsDefault t v) : Ends t := by
  cases h with
  | integer hs =>
    obtain ⟨n, hs, -⟩ := hs.exists_isNumeral
    exact ends_of_isNumeral hs
  | true => exact ends_concat (c := 'e') (by decide) "tru".toList
  | false => exact ends_concat (c := 'e') (by decide) "fals".toList
  | @string quote s hquote =>
    refine ends_concat ?_ (quote :: s)
    rcases hquote with rfl | rfl | rfl <;> decide
  | container hs => exact hs.ends

theorem unquote?_quoted {quote : Char} {s : Text}
    (hquote : quote = '\'' ∨ quote = '"' ∨ quote = '\x60') (hs : ∀ c ∈ s, c ≠ quote ∧ c ≠ '\\')
    (hbraces : Braceless s) : unquote? (quote :: (s ++ [quote])) = some s := by
  have hclass : (quote = '\'' || quote = '"' || quote = '\x60') = true := by
    rcases hquote with rfl | rfl | rfl <;> decide
  have hinner : Text.before? [quote] (s ++ [quote]) = some s :=
    Text.before?_eq_some_iff.2 rfl
  have hfree : quote ∉ s := fun hmem => (hs quote hmem).1 rfl
  have hdollar : Text.contains ['$', '{'] s = false := by
    rw [← Bool.not_eq_true, Text.contains_iff]
    exact Text.not_infix_of_notMem (by decide) hbraces.1
  simp only [unquote?, List.head?_cons, List.tail_cons, Option.bind_eq_bind, Option.bind_some,
    hclass, if_true, hinner, hfree, hdollar]
  simp

/-- A default is evaluated to its value. -/
theorem evaluate_of_isDefault {t : Text} {v : Value} (h : IsDefault t v) :
    evaluate t = .evaluated v := by
  have htext : expressionText t = t :=
    expressionText_eq_self (head?_not_blank_of_isDefault h) (ends_of_isDefault h)
  cases h with
  | integer hs =>
    obtain ⟨n, hnumeral, -⟩ := hs.exists_isNumeral
    obtain ⟨c, t, rfl, hc⟩ := hnumeral.head?
    rw [evaluate, htext, ofText_number hc, number?_of_isInteger hs]
  | true => rfl
  | false => rfl
  | string hquote hs hbraces =>
    rw [evaluate, htext, ofText, unquote?_quoted hquote hs hbraces]
  | container hs hopens =>
    obtain ⟨w, hw, rfl⟩ := hs.exists_spells
    have hread := (read?_toJson_eq_some_iff hopens hs.ends).2 hw
    rw [evaluate_eq hopens hs.ends, container?, hread]
    rfl

end PropCatalog.Literal
