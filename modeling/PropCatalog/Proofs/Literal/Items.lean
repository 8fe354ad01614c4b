import PropCatalog.Proofs.Literal.Simple

/-!
# A literal alone and in an array

A string, a truth value or a number is evaluated by one reader when it stands alone and by another
when it is the item of an array. Alone a string is the text between its quotes, in an array its
escapes are decoded: the two agree on the strings without a backslash. They agree on truth values,
on all integers of 64 bits but those that fit only without a sign, and on every other numeral that
is rounded once as it is rounded in steps, as all with a small significand and a small power are
(`evaluate_eq_item_iff`).
-/

namespace PropCatalog.Literal

open Json

variable {t s inner value : Text} {v w u : Value} {quote : Char} {n : Numeral} {nesting : Nat}
  {rounding : Numeral.Rounding}

/-! ## The item of an array -/

theorem trim_part {a e : Text} (ha : Spaces a) (hs : Spells .relaxed rounding nesting s w)
    (he : Ending .relaxed e) (hend : Ends (Text.trim (a ++ (s ++ e)))) :
    Text.trim (a ++ (s ++ e)) = s := by
  have hblanks : ∀ {a : Text}, Spaces a → a.all Text.isBlank = true :=
    fun ha => List.all_eq_true.2 (Relaxed.isBlank_of_spaces ha)
  rw [Text.trim_blanks_append (hblanks ha)] at hend ⊢
  rcases he with he | ⟨-, b, b', rfl, -, hb'⟩
  · rw [Text.trim_append_blanks (hblanks he), trim_of_spells hs]
  · -- the text would end with a comma
    have hsplit : s ++ (b ++ ',' :: b') = s ++ (b ++ [',']) ++ b' := by simp
    have hlast : (s ++ (b ++ [','])).getLast?.any Text.isBlank = false := by simp; decide
    rw [hsplit, Text.trim_append_blanks (hblanks hb'),
      Text.trim_eq_self (hs.begins.append _).head?_not_blank hlast] at hend
    exact absurd rfl (hend ',' (by simp)).1

theorem exists_part_of_array
    (h : IsContainer .relaxed (Spells .relaxed rounding nesting) ('[' :: (t ++ [']'])) u)
    (hu : u.wholeToInt = .array [w]) : ∃ a s e w₀, t = a ++ (s ++ e) ∧ Spaces a ∧
      Spells .relaxed rounding nesting s w₀ ∧ Ending .relaxed e ∧ w₀.wholeToInt = w := by
  generalize htext : '[' :: (t ++ [']']) = text at h
  cases h with
  | object => cases hu
  | @array s items hs =>
    obtain rfl := List.append_cancel_right (List.cons.inj htext).2
    rw [Value.wholeToInt, wholeToIntItems_eq_map] at hu
    obtain ⟨w₀, rfl, rfl⟩ := List.map_eq_singleton_iff.1 (Value.array.inj hu)
    cases hs with
    | parts hs =>
      cases hs with
      | @last a p e _ ha hp he => exact ⟨a, p, e, w₀, rfl, ha, hp, he, rfl⟩
      | cons _ _ _ hs => cases hs

theorem exists_spells_of_item (hend : Ends (Text.trim t))
    (hitem : evaluate ('[' :: (t ++ [']'])) = .evaluated (.array [w])) :
    ∃ nesting w₀, Spells .relaxed Numeral.Stepwise nesting (Text.trim t) w₀ ∧
      w₀.wholeToInt = w := by
  have hopen : Opens ('[' :: (t ++ [']'])) := .inl rfl
  have hclose : Ends ('[' :: (t ++ [']'])) := ends_concat (by decide) ('[' :: t)
  rw [evaluate_eq hopen hclose, container?] at hitem
  cases hread : read? Reading.nestingLimit (Relaxed.toJson ('[' :: (t ++ [']']))) with
  | none =>
    rw [hread] at hitem
    cases hitem
  | some u =>
    rw [hread] at hitem
    have hu : u.wholeToInt = .array [w] := Literal.evaluated.inj hitem
    have hspells : IsLeaf .relaxed Numeral.Stepwise ('[' :: (t ++ [']'])) u ∨
        IsContainer .relaxed (Spells .relaxed Numeral.Stepwise (Reading.nestingLimit - 1))
          ('[' :: (t ++ [']'])) u :=
      (read?_toJson_eq_some_iff hopen hclose).1 hread
    rcases hspells with h | h
    · cases h with
      | @scalar _ x => cases x <;> cases hu
    · obtain ⟨a, s, e, w₀, rfl, ha, hs, he, hw⟩ := exists_part_of_array h hu
      exact ⟨_, w₀, (trim_part ha hs he hend).symm ▸ hs, hw⟩

theorem isLeaf_of_spells {d : Dialect} (h : Spells d rounding nesting s w) (hopen : ¬ Opens s) :
    IsLeaf d rounding s w := by
  cases nesting with
  | zero => exact h
  | succ nesting =>
    rcases h with h | h
    · exact h
    · cases h with
      | array => exact absurd (.inl rfl) hopen
      | object => exact absurd (.inr rfl) hopen

theorem evaluate_of_ends (hend : Ends (Text.trim t)) : evaluate t = ofText (Text.trim t) := by
  rw [evaluate, expressionText_eq_trim hend]

theorem evaluate_array_of_isLeaf {a e : Text} (ha : Spaces a)
    (hs : IsLeaf .relaxed Numeral.Stepwise s w)
    (he : Ending .relaxed e) :
    evaluate ('[' :: (a ++ (s ++ e) ++ [']'])) = .evaluated (.array [w.wholeToInt]) := by
  have hopen : Opens ('[' :: (a ++ (s ++ e) ++ [']'])) := .inl rfl
  have hclose : Ends ('[' :: (a ++ (s ++ e) ++ [']'])) :=
    ends_concat (by decide) ('[' :: (a ++ (s ++ e)))
  have hspells : Spells .relaxed Numeral.Stepwise Reading.nestingLimit
      ('[' :: (a ++ (s ++ e) ++ [']'])) (.array [w]) :=
    .inr (.array (.parts (.last ha (spells_of_isLeaf hs) he)))
  rw [evaluate_eq hopen hclose, container?, (read?_toJson_eq_some_iff hopen hclose).2 hspells]
  rfl

theorem evaluate_array_self (hs : IsLeaf .relaxed Numeral.Stepwise s w) :
    evaluate ('[' :: (s ++ [']'])) = .evaluated (.array [w.wholeToInt]) := by
  have hitem := evaluate_array_of_isLeaf spaces_nil hs (.inl spaces_nil)
  rwa [List.nil_append, List.append_nil] at hitem

/-! ## Strings -/

theorem length_le_of_escape {e : Text} {c : Char} (h : Escape e c) : 2 ≤ e.length := by
  cases h <;> simp

theorem length_of_quoted {d : Dialect} (h : Quoted d quote s value) :
    value.length ≤ s.length ∧ ('\\' ∈ s → value.length < s.length) ∧
      ('\\' ∉ s → s = value) := by
  induction h with
  | nil => simp
  | plain _ hescape _ _ ih =>
    obtain ⟨hle, hlt, heq⟩ := ih
    simp only [List.length_cons, List.mem_cons, hescape.symm, false_or, List.cons.injEq, true_and]
    exact ⟨by omega, fun hmem => Nat.succ_lt_succ (hlt hmem), heq⟩
  | escape he _ ih =>
    have hlength := length_le_of_escape he
    obtain ⟨t, rfl⟩ := he.head?
    rw [List.length_append, List.length_cons]
    exact ⟨by omega, fun _ => by omega, fun hnot => absurd (by simp) hnot⟩
  | apostrophe _ _ ih =>
    simp only [List.length_cons]
    exact ⟨by omega, fun _ => by omega, fun hnot => absurd (by simp) hnot⟩

theorem eq_value_iff_of_quoted {d : Dialect} (h : Quoted d quote s value) :
    s = value ↔ '\\' ∉ s := by
  obtain ⟨-, hlt, heq⟩ := length_of_quoted h
  exact ⟨fun hs hmem => absurd (congrArg List.length hs) (ne_of_gt (hlt hmem)), heq⟩

theorem eq_of_ofText_quoted (hquote : quote = '\'' ∨ quote = '"')
    (h : ofText (quote :: (inner ++ [quote])) = .evaluated v) : v = .scalar (.string inner) := by
  have hinner : Text.before? [quote] (inner ++ [quote]) = some inner :=
    Text.before?_eq_some_iff.2 rfl
  have hunquote : unquote? (quote :: (inner ++ [quote])) =
      if quote ∈ inner then none else some inner := by
    rcases hquote with rfl | rfl <;> simp [unquote?, hinner]
  by_cases hmem : quote ∈ inner
  · -- with its quote inside it is none of the literals
    have hnumber : number? (quote :: (inner ++ [quote])) = none := by
      rcases hquote with rfl | rfl <;> exact if_neg (by simp [isNumberChar])
    rw [ofText, hunquote, if_pos hmem] at h
    rcases hquote with rfl | rfl <;> simp [hnumber] at h
  · rw [ofText, hunquote, if_neg hmem] at h
    exact (Literal.evaluated.inj h).symm

theorem exists_quoted_of_spells (hquote : quote = '\'' ∨ quote = '"')
    (h : Spells .relaxed rounding nesting (quote :: (inner ++ [quote])) w) :
    ∃ value, Quoted .relaxed quote inner value ∧ w = .scalar (.string value) := by
  have hopen : ¬ Opens (quote :: (inner ++ [quote])) := by
    rcases hquote with rfl | rfl <;> simp [Opens]
  generalize htext : quote :: (inner ++ [quote]) = text at h hopen
  obtain ⟨hs⟩ := isLeaf_of_spells h hopen
  cases hs with
  | null | true | false => rcases hquote with rfl | rfl <;> cases htext
  | number hs =>
    obtain ⟨c, t, rfl, hc⟩ := hs.head?
    obtain rfl := (List.cons.inj htext).1
    rcases hquote with rfl | rfl <;> simp at hc
  | string hs =>
    cases hs with
    | double hs | single _ hs =>
      obtain ⟨rfl, htail⟩ := List.cons.inj htext
      obtain rfl := List.append_cancel_right htail
      exact ⟨_, hs, rfl⟩

/-! ## Truth values and numbers -/

theorem eq_of_spells_bool (b : Bool)
    (h : Spells .relaxed rounding nesting (if b then "true".toList else "false".toList) w) :
    w = .scalar (.bool b) := by
  have hopen : ¬ Opens (if b then "true".toList else "false".toList) := by
    cases b <;> simp [Opens]
  generalize htext : (if b then "true".toList else "false".toList) = text at h hopen
  obtain ⟨hs⟩ := isLeaf_of_spells h hopen
  cases hs with
  | null | true | false => cases b <;> first | rfl | cases htext
  | number hs =>
    obtain ⟨c, t, rfl, hc⟩ := hs.head?
    cases b <;> obtain rfl := (List.cons.inj htext).1 <;> exact absurd hc (by decide)
  | string hs => cases hs <;> cases b <;> cases htext

theorem exists_value?_of_spells (hs : IsNumeral s n)
    (h : Spells .relaxed Numeral.Stepwise nesting s w) :
    ∃ x, n.value? = some x ∧ w = .scalar (.number x) := by
  obtain ⟨c, t, hcons, hc⟩ := hs.head?
  have hopen : ¬ Opens s := by
    rintro (h | h) <;> rw [hcons] at h <;> obtain rfl := Option.some.inj h <;> simp at hc
  obtain ⟨hscalar⟩ := isLeaf_of_spells h hopen
  cases hscalar with
  | null | true | false =>
    obtain rfl := (List.cons.inj hcons).1
    simp at hc
  | @number _ m x hm hx =>
    have hread := numeral?_append hs (x := []) rfl
    rw [numeral?_append hm rfl] at hread
    obtain ⟨rfl, -⟩ := Prod.mk.inj (Option.some.inj hread)
    exact ⟨x, Numeral.value?_eq_some_iff.2 hx, rfl⟩
  | string hs =>
    cases hs <;> obtain rfl := (List.cons.inj hcons).1 <;> simp at hc

theorem number_eq_iff_of_isWord {x y : Number} (hword : n.IsWord) (hx : ofNumeral? n = some x)
    (hy : n.value? = some y) :
    x = y.wholeToInt ↔ n.negative = true ∨ n.significand < Word64.signedLimit := by
  by_cases hfits : FitsSigned n
  · obtain ⟨y', hy', hwhole⟩ := hfits.exists_value?
    obtain rfl := Option.some.inj (hy.symm.trans hy')
    rw [ofNumeral?, if_pos hfits] at hx
    obtain ⟨-, hbound⟩ := hfits
    refine iff_of_true ((Option.some.inj hx).symm.trans hwhole.symm) ?_
    cases hnegative : n.negative with
    | true => exact .inl rfl
    | false => exact .inr (by rwa [hnegative, if_neg Bool.false_ne_true] at hbound)
  · rw [ofNumeral?, if_neg hfits, hword.nearest?_eq] at hx
    obtain ⟨r, hr, rfl⟩ := Option.map_eq_some_iff.1 hx
    rw [hword.value?_eq] at hy
    cases hnegative : n.negative with
    | true =>
      -- below the signed words both readers round
      have hlarge : ¬ n.significand ≤ Word64.signedLimit := fun hle =>
        hfits ⟨hword, by rwa [hnegative, if_pos rfl]⟩
      have hrounds : (0 < n.significand && n.significand ≤ Word64.signedLimit) = false := by
        simp [hlarge]
      rw [hnegative] at hy hr
      rw [hrounds, hr] at hy
      obtain rfl := Option.some.inj hy
      exact iff_of_true rfl (.inl rfl)
    | false =>
      -- above them only one of them does, and what it rounds to is too large for an integer
      have hlarge : ¬ n.significand < Word64.signedLimit := fun hlt =>
        hfits ⟨hword, by rwa [hnegative, if_neg Bool.false_ne_true]⟩
      rw [hnegative] at hy
      obtain rfl := Option.some.inj hy
      refine iff_of_false (fun heq => ?_) (by simp [hlarge])
      obtain ⟨-, hsafe⟩ := Number.wholeToInt_eq_int_iff.1 heq
      have hlimit : 2 ^ 53 ≤ Word64.signedLimit := by decide
      omega

theorem number_eq_iff_of_not_isWord {x y : Number} (hword : ¬ n.IsWord)
    (hx : ofNumeral? n = some x) (hy : n.value? = some y) :
    x = y.wholeToInt ↔ n.nearest? = n.float? := by
  have hfits : ¬ FitsSigned n := fun h => hword h.1
  rw [ofNumeral?, if_neg hfits] at hx
  rw [Numeral.value?_of_not_isWord hword] at hy
  obtain ⟨r, hr, rfl⟩ := Option.map_eq_some_iff.1 hx
  obtain ⟨q, hq, rfl⟩ := Option.map_eq_some_iff.1 hy
  have hsign : r.negative = q.negative :=
    (Numeral.nearest?_eq_some_iff.1 hr).1.trans (Numeral.float?_eq_some_iff.1 hq).negative_eq.symm
  rw [Number.wholeToInt_float_inj hsign, hr, hq, Option.some.injEq]

theorem number_eq_of_small {x y : Number} (hm : n.significand < 2 ^ 53) (hp : n.power.natAbs ≤ 22)
    (hx : ofNumeral? n = some x) (hy : n.value? = some y) : x = y.wholeToInt := by
  by_cases hword : n.IsWord
  · exact (number_eq_iff_of_isWord hword hx hy).2 (.inr (hm.trans_le (by decide)))
  · refine (number_eq_iff_of_not_isWord hword hx hy).2 ?_
    rw [Numeral.value?_of_not_isWord hword] at hy
    obtain ⟨q, hq, -⟩ := Option.map_eq_some_iff.1 hy
    rw [hq, Numeral.nearest?_of_float? hm hp hq]

/-! ## The two readers -/

/-- Alone a string is the text between its quotes, in an array its escapes are decoded. -/
theorem string_item (hquote : quote = '\'' ∨ quote = '"')
    (htrim : Text.trim t = quote :: (inner ++ [quote])) (h : evaluate t = .evaluated v)
    (hitem : evaluate ('[' :: (t ++ [']'])) = .evaluated (.array [w])) :
    v = .scalar (.string inner) ∧
      ∃ value, Quoted .relaxed quote inner value ∧ w = .scalar (.string value) := by
  have hend : Ends (Text.trim t) := by
    rw [htrim]
    refine ends_concat ?_ (quote :: inner)
    rcases hquote with rfl | rfl <;> decide
  obtain ⟨nesting, w₀, hw₀, rfl⟩ := exists_spells_of_item hend hitem
  rw [evaluate_of_ends hend, htrim] at h
  rw [htrim] at hw₀
  obtain ⟨value, hvalue, rfl⟩ := exists_quoted_of_spells hquote hw₀
  exact ⟨eq_of_ofText_quoted hquote h, value, hvalue, rfl⟩

theorem bool_item (b : Bool) (htrim : Text.trim t = if b then "true".toList else "false".toList)
    (h : evaluate t = .evaluated v)
    (hitem : evaluate ('[' :: (t ++ [']'])) = .evaluated (.array [w])) : v = w := by
  have hend : Ends (Text.trim t) := by
    rw [htrim]
    cases b with
    | true => exact ends_concat (c := 'e') (by decide) "tru".toList
    | false => exact ends_concat (c := 'e') (by decide) "fals".toList
  obtain ⟨nesting, w₀, hw₀, rfl⟩ := exists_spells_of_item hend hitem
  rw [evaluate_of_ends hend, htrim] at h
  rw [htrim] at hw₀
  rw [eq_of_spells_bool b hw₀]
  cases b <;> exact (Literal.evaluated.inj h).symm

theorem evaluate_of_isNumeral (hs : IsNumeral (Text.trim t) n) :
    evaluate t = match ofNumeral? n with
      | some x => .evaluated (.scalar (.number x))
      | none => .unparsed (Text.trim t) := by
  obtain ⟨c, s, hcons, hc⟩ := hs.head?
  rw [evaluate_of_ends (ends_of_isNumeral hs), ← number?_of_isNumeral hs, hcons]
  exact ofText_number hc s

/-- Alone a numeral is read by the rules of the literals, in an array by those of JSON. -/
theorem number_item (hs : IsNumeral (Text.trim t) n) (h : evaluate t = .evaluated v)
    (hitem : evaluate ('[' :: (t ++ [']'])) = .evaluated (.array [w])) :
    ∃ x y, ofNumeral? n = some x ∧ n.value? = some y ∧ v = .scalar (.number x) ∧
      w = .scalar (.number y.wholeToInt) := by
  obtain ⟨nesting, w₀, hw₀, rfl⟩ := exists_spells_of_item (ends_of_isNumeral hs) hitem
  obtain ⟨y, hy, rfl⟩ := exists_value?_of_spells hs hw₀
  rw [evaluate_of_isNumeral hs] at h
  cases hx : ofNumeral? n with
  | none =>
    rw [hx] at h
    cases h
  | some x =>
    rw [hx] at h
    exact ⟨x, y, rfl, hy, (Literal.evaluated.inj h).symm, rfl⟩

/-- **When a literal means the same alone and in an array**: a string if it has no backslash, a
truth value always, an integer of 64 bits unless it needs all of them without a sign, and another
numeral if rounding it once and rounding it in steps give the same number, which they do if its
significand and its power are small. -/
theorem evaluate_eq_item_iff (h : evaluate t = .evaluated v)
    (hitem : evaluate ('[' :: (t ++ [']'])) = .evaluated (.array [w])) :
    (∀ quote inner, quote = '\'' ∨ quote = '"' → Text.trim t = quote :: (inner ++ [quote]) →
      v = .scalar (.string inner) ∧
      (∃ value, Quoted .relaxed quote inner value ∧ w = .scalar (.string value)) ∧
      (v = w ↔ '\\' ∉ inner)) ∧
    (Text.trim t = "true".toList ∨ Text.trim t = "false".toList → v = w) ∧
    ∀ n, IsNumeral (Text.trim t) n →
      (n.IsWord → (v = w ↔ n.negative = true ∨ n.significand < Word64.signedLimit)) ∧
      (¬ n.IsWord → (v = w ↔ n.nearest? = n.float?)) ∧
      (n.significand < 2 ^ 53 → n.power.natAbs ≤ 22 → v = w) := by
  refine ⟨fun quote inner hquote htrim => ?_, fun hbool => ?_, fun n hs => ?_⟩
  · obtain ⟨rfl, value, hvalue, rfl⟩ := string_item hquote htrim h hitem
    refine ⟨rfl, ⟨value, hvalue, rfl⟩, ?_⟩
    rw [← eq_value_iff_of_quoted hvalue, Value.scalar.injEq, Scalar.string.injEq]
  · rcases hbool with htrim | htrim
    · exact bool_item true htrim h hitem
    · exact bool_item false htrim h hitem
  · obtain ⟨x, y, hx, hy, rfl, rfl⟩ := number_item hs h hitem
    rw [Value.scalar.injEq, Scalar.number.injEq]
    exact ⟨fun hword => number_eq_iff_of_isWord hword hx hy,
      fun hword => number_eq_iff_of_not_isWord hword hx hy,
      fun hm hp => number_eq_of_small hm hp hx hy⟩

/-- A number with blanks around it. -/
def padded : Text := " -12.50e1 ".toList

theorem evaluate_eq_item_iff_padded : ∃ v w, evaluate padded = .evaluated v ∧
    evaluate ('[' :: (padded ++ [']'])) = .evaluated (.array [w]) ∧ v = w := by
  have hspace : Spaces [' '] := by simp [Spaces, isSpace]
  have hpadded : IsNumeral (Text.trim padded) shortNumeral := isNumeral_shortNumeral
  obtain ⟨x, hx⟩ := Option.isSome_iff_exists.1
    (by decide +kernel : (ofNumeral? shortNumeral).isSome = true)
  obtain ⟨y, hy⟩ := Option.isSome_iff_exists.1
    (by decide +kernel : shortNumeral.value?.isSome = true)
  have h := evaluate_of_isNumeral hpadded
  rw [hx] at h
  have hitem := evaluate_array_of_isLeaf hspace
    (.scalar (.number isNumeral_shortNumeral (Numeral.value?_eq_some_iff.1 hy))) (.inl hspace)
  obtain ⟨-, -, hnumber⟩ := evaluate_eq_item_iff h hitem
  exact ⟨_, _, h, hitem, (hnumber _ hpadded).2.2 (by decide) (by decide)⟩

/-! ## Literals that mean two things -/

/-- A text that means one thing alone and another as the item of an array. -/
def Differs (t : Text) : Prop :=
  ∃ v w, evaluate t = .evaluated v ∧ evaluate ('[' :: (t ++ [']'])) = .evaluated (.array [w]) ∧
    v ≠ w

theorem differs_of_isNumeral (hs : IsNumeral t n) (hx : (ofNumeral? n).isSome = true)
    (hy : n.value?.isSome = true)
    (hne : ∀ x y, ofNumeral? n = some x → n.value? = some y → x ≠ y.wholeToInt) : Differs t := by
  obtain ⟨x, hx⟩ := Option.isSome_iff_exists.1 hx
  obtain ⟨y, hy⟩ := Option.isSome_iff_exists.1 hy
  have hleaf : IsLeaf .relaxed Numeral.Stepwise t (.scalar (.number y)) :=
    .scalar (.number hs (Numeral.value?_eq_some_iff.1 hy))
  have htrim : Text.trim t = t := trim_of_spells (spells_of_isLeaf (n := 0) hleaf)
  have h := evaluate_of_isNumeral (htrim.symm ▸ hs)
  rw [hx] at h
  exact ⟨_, _, h, evaluate_array_self hleaf,
    fun heq => hne x y hx hy (Scalar.number.inj (Value.scalar.inj heq))⟩

/-- Two lines in one string. -/
def twoLines : Text := "'a\\nb'".toList

/-- The first integer that has 64 bits only without a sign. -/
def firstUnsigned : Text := "9223372036854775808".toList

/-- The largest safe integer with a fraction: in steps its significand is rounded first, and the
quotient is the integer below it. -/
def largestSafe : Text := "9007199254740991.0".toList

theorem evaluate_ne_item : Differs twoLines ∧ Differs firstUnsigned ∧ Differs largestSafe := by
  refine ⟨?_, ?_, ?_⟩
  · have hs : IsString .relaxed twoLines ['a', '\n', 'b'] :=
      .single rfl (.plain (by decide) (by decide) (by decide)
        (.escape (.letter (by decide)) (.plain (by decide) (by decide) (by decide) .nil)))
    have hitem := evaluate_array_self (.scalar (.string hs))
    refine ⟨.scalar (.string "a\\nb".toList), _, rfl, hitem, fun heq => ?_⟩
    exact absurd (Scalar.string.inj (Value.scalar.inj heq)) (by decide)
  · have hdigits : IsDigits firstUnsigned := isDigits_of_all (by decide) (by decide)
    have hs := isNumeral_of_isWhole false (.inr ⟨hdigits, by decide⟩)
    refine differs_of_isNumeral hs (by decide +kernel) (by decide +kernel) fun x y hx hy => ?_
    exact mt (number_eq_iff_of_isWord (by decide +kernel) hx hy).1 (by decide +kernel)
  · have hs : IsNumeral largestSafe largestSafeNumeral := isNumeral_largestSafeNumeral
    refine differs_of_isNumeral hs (by decide +kernel) (by decide +kernel) fun x y hx hy => ?_
    exact mt (number_eq_iff_of_not_isWord (by decide) hx hy).1 (by decide +kernel)

end PropCatalog.Literal
