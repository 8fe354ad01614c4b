import PropCatalog.Json.Printer
import PropCatalog.Literal.Basic
import PropCatalog.Proofs.Json.Whole
import PropCatalog.Proofs.Literal.Rewriting

/-!
# The evaluation of arrays and objects

An expression that starts with an opener is rewritten and then read as JSON. It is evaluated exactly
when it is an array or an object of the relaxed dialect, to the value that it denotes there with the
whole numbers of safe size as integers, and otherwise it is kept as its text
(`evaluate_container`). The numbers are those that reading in steps gives. They are the nearest ones
where all numerals are short, but not always (`evaluate_ne_nearest`).
-/

namespace PropCatalog.Literal

open Json

variable {t : Text} {v : Value} {rounding : Numeral.Rounding}

/-- A text that starts with an opener. -/
def Opens (t : Text) : Prop := t.head? = some '[' ∨ t.head? = some '{'

/-- A text that ends with neither a comma nor a blank. -/
def Ends (t : Text) : Prop := ∀ c ∈ t.getLast?, c ≠ ',' ∧ Text.isBlank c = false

theorem Opens.begins (h : Opens t) : Begins t := by
  cases t with
  | nil => simp [Opens] at h
  | cons c t =>
    simp only [Opens, List.head?_cons, Option.some.injEq] at h
    rcases h with rfl | rfl <;> exact ⟨_, _, rfl, rfl, by decide, by decide⟩

theorem Opens.toJson (h : Opens t) : Opens (Relaxed.toJson t) := by
  cases t with
  | nil => simp [Opens] at h
  | cons c t =>
    simp only [Opens, List.head?_cons, Option.some.injEq] at h
    rw [(Relaxed.toJson_eq_opener_iff h).2 ⟨t, rfl, rfl⟩]
    simpa [Opens] using h

theorem ends_concat {c : Char} (hc : c ≠ ',' ∧ Text.isBlank c = false) (s : Text) :
    Ends (s ++ [c]) := by
  intro d hd
  rw [List.getLast?_concat] at hd
  exact Option.some.inj hd ▸ hc

theorem ends_of_isNumeral {n : Numeral} (h : IsNumeral t n) : Ends t := by
  obtain ⟨a, digits, rfl, hne, hdigits⟩ := h.exists_append_digits
  rw [← List.dropLast_concat_getLast hne, ← List.append_assoc]
  have hlast := hdigits _ (List.getLast_mem hne)
  refine ends_concat ⟨?_, Text.isBlank_of_isWordRest (Text.isWordRest_of_isDigit hlast)⟩ _
  intro hcomma
  rw [hcomma] at hlast
  cases hlast

theorem ends_of_isString {d : Dialect} {value : Text} (h : IsString d t value) : Ends t := by
  cases h with
  | @double s => exact ends_concat (by decide) ('"' :: s)
  | @single s => exact ends_concat (by decide) ('\'' :: s)

theorem ends_of_spells {d : Dialect} {n : Nat} (h : Spells d rounding n t v) : Ends t := by
  have hleaf : IsLeaf d rounding t v → Ends t := by
    rintro ⟨hs⟩
    cases hs with
    | null => exact ends_concat (by decide) ['n', 'u', 'l']
    | true => exact ends_concat (by decide) ['t', 'r', 'u']
    | false => exact ends_concat (by decide) ['f', 'a', 'l', 's']
    | number hs => exact ends_of_isNumeral hs
    | string hs => exact ends_of_isString hs
  cases n with
  | zero => exact hleaf h
  | succ n =>
    rcases h with h | h
    · exact hleaf h
    · cases h with
      | @array s => exact ends_concat (by decide) ('[' :: s)
      | @object s => exact ends_concat (by decide) ('{' :: s)

theorem Ends.getLast?_not_blank (h : Ends t) : t.getLast?.any Text.isBlank = false := by
  rw [Option.any_eq_false]
  intro c hc
  simpa using (h c hc).2

theorem trim_of_spells {d : Dialect} {n : Nat} (h : Spells d rounding n t v) : Text.trim t = t :=
  Text.trim_eq_self h.begins.head?_not_blank (ends_of_spells h).getLast?_not_blank

theorem expressionText_eq_trim (hend : Ends (Text.trim t)) : expressionText t = Text.trim t := by
  have hcomma : Text.before? [','] (Text.trim t) = none := by
    rw [Option.eq_none_iff_forall_ne_some]
    intro rest h
    rw [Text.before?_eq_some_iff.1 h] at hend
    exact (hend ',' (by simp)).1 rfl
  rw [expressionText, hcomma]
  exact Text.trimEnd_eq_self hend.getLast?_not_blank

theorem expressionText_eq_self (hhead : t.head?.any Text.isBlank = false) (hend : Ends t) :
    expressionText t = t := by
  have htrim := Text.trim_eq_self hhead hend.getLast?_not_blank
  rw [expressionText_eq_trim (htrim.symm ▸ hend), htrim]

theorem evaluate_eq (hopen : Opens t) (hend : Ends t) : evaluate t =
    match container? t with
    | some v => .evaluated v
    | none => .unparsed t := by
  have hunquote : unquote? t = none := by
    cases t with
    | nil => rfl
    | cons c t =>
      simp only [Opens, List.head?_cons, Option.some.injEq] at hopen
      rcases hopen with rfl | rfl <;> rfl
  have hstructured : (t.head? = some '[' || t.head? = some '{') = true := by
    simpa [Opens] using hopen
  rw [evaluate, expressionText_eq_self hopen.begins.head?_not_blank hend, ofText, hunquote]
  exact if_pos hstructured

theorem eq_nil_of_ends {b w : Text} (hend : Ends (b ++ w)) (hw : Spaces w) : w = [] := by
  rcases List.eq_nil_or_concat w with rfl | ⟨w, c, rfl⟩
  · rfl
  · have hblank := isBlank_of_isSpace (hw c (by simp))
    rw [(hend c (by simp)).2] at hblank
    cases hblank

/-- A container is read exactly if it is one of the relaxed dialect. -/
theorem read?_toJson_eq_some_iff (hopen : Opens t) (hend : Ends t) {limit : Nat} :
    read? limit (Relaxed.toJson t) = some v ↔ Spells .relaxed Numeral.Stepwise limit t v := by
  rw [read?_eq_some_iff]
  constructor
  · rintro ⟨w, a, w', hjson, hw, hw', ha⟩
    -- nothing stands before the opener
    have hnil : w = [] := by
      cases w with
      | nil => rfl
      | cons c w =>
        have hspace := hw c (by simp)
        have hfirst := hopen.toJson
        rw [hjson] at hfirst
        simp only [Opens, List.cons_append, List.head?_cons, Option.some.injEq] at hfirst
        rcases hfirst with rfl | rfl <;> cases hspace
    subst hnil
    obtain ⟨b, s, hb, rfl, hs⟩ :=
      (Relaxed.rewrites_spells limit (closes_of_spaces hw')).1 ⟨a, ha, hjson⟩
    -- and what stands behind the closer is white space, of which there is none
    have hnone : ¬ Relaxed.BeforeCloser [] := by decide
    obtain ⟨s', rfl, hs'⟩ :=
      (Relaxed.toJson_eq_spaces_append_iff hw' hnone).1 (hs.trans (List.append_nil w').symm)
    obtain rfl := Relaxed.toJson_eq_nil hs'
    rw [List.append_nil] at hend ⊢
    rw [eq_nil_of_ends hend hw', List.append_nil]
    exact hb
  · intro h
    obtain ⟨u, hu, hjson⟩ := (Relaxed.rewrites_spells limit (closes_of_spaces spaces_nil)).2
      ⟨t, [], h, (List.append_nil t).symm, Relaxed.toJson_nil⟩
    exact ⟨[], u, [], hjson, spaces_nil, spaces_nil, hu⟩

/-- The array or object of the relaxed dialect that a text is, within the reader's limit of open
containers. -/
def Denotes (rounding : Numeral.Rounding) (t : Text) (w : Value) : Prop :=
  Spells .relaxed rounding Reading.nestingLimit t w

/-- **An array or an object is evaluated exactly if it is one of the relaxed dialect**, its numbers
read in steps, to the value it denotes there with the whole numbers of safe size as integers;
otherwise its text is kept. Where all numerals but the integers of 64 bits are short, that is the
value with the nearest numbers. -/
theorem evaluate_container (hopen : Opens t) (hend : Ends t) :
    ((evaluate t).isEvaluated = true ↔ ∃ w, Denotes Numeral.Stepwise t w) ∧
      (∀ w, Denotes Numeral.Stepwise t w → ∃ v, evaluate t = .evaluated v ∧ w.WholesAsInts v) ∧
      ((¬ ∃ w, Denotes Numeral.Stepwise t w) → evaluate t = .unparsed t) ∧
      (∀ w, Denotes Numeral.ShortNearest t w →
        ∃ v, evaluate t = .evaluated v ∧ w.WholesAsInts v) := by
  have hread (w : Value) : read? Reading.nestingLimit (Relaxed.toJson t) = some w ↔
      Denotes Numeral.Stepwise t w := read?_toJson_eq_some_iff hopen hend
  have hevaluate (w : Value) (hw : Denotes Numeral.Stepwise t w) :
      evaluate t = .evaluated w.wholeToInt := by
    rw [evaluate_eq hopen hend, container?, (hread w).2 hw]
    rfl
  have hvalue (w : Value) (hw : Denotes Numeral.Stepwise t w) :
      ∃ v, evaluate t = .evaluated v ∧ w.WholesAsInts v :=
    ⟨_, hevaluate w hw, w.wholesAsInts_wholeToInt⟩
  have hkept (hnone : ¬ ∃ w, Denotes Numeral.Stepwise t w) : evaluate t = .unparsed t := by
    have hnot : read? Reading.nestingLimit (Relaxed.toJson t) = none := by
      rw [Option.eq_none_iff_forall_ne_some]
      exact fun w hw => hnone ⟨w, (hread w).1 hw⟩
    rw [evaluate_eq hopen hend, container?, hnot]
    rfl
  refine ⟨⟨fun h => ?_, fun ⟨w, hw⟩ => by rw [hevaluate w hw]; rfl⟩, hvalue, hkept, fun w hw => ?_⟩
  · by_contra hnone
    rw [hkept hnone] at h
    cases h
  · exact hvalue w (hw.mono fun n x h => h.1.stepwise_iff_nearest.2 h.2)

theorem denotes_array_of_isNumeral {n : Numeral} {x : Number} (hs : IsNumeral t n)
    (hx : n.Denotes rounding x) :
    Denotes rounding ('[' :: (t ++ [']'])) (.array [.scalar (.number x)]) := by
  have hleaf : IsLeaf .relaxed rounding t (.scalar (.number x)) := .scalar (.number hs hx)
  have hitem := spells_of_isLeaf (n := Reading.nestingLimit - 1) hleaf
  have hparts : Parts .relaxed _ ([] ++ (t ++ [])) _ := .last spaces_nil hitem (.inl spaces_nil)
  rw [List.nil_append, List.append_nil] at hparts
  exact .inr (.array (.parts hparts))

/-- An object with all that the relaxed dialect adds, a repeated name and a whole number that is no
integer. -/
def relaxedObject : Text :=
  "\x7b label: 'old', sizes: [1.0, -2,], label: 'it\\'s \"new\"', \"a b\": \x7b,\x7d \x7d".toList

/-- The value of that object: one label, in the first place and with the last value. -/
def relaxedObjectJson : Text :=
  "\x7b\"label\":\"it's \\\"new\\\"\",\"sizes\":[1,-2],\"a b\":\x7b\x7d\x7d".toList

/-- An object with a variable in it. -/
def objectOfVariable : Text := "\x7b a: someVariable \x7d".toList

/-- A short numeral that is a whole number. -/
def shortNumeral : Numeral := ⟨true, ['1', '2'], some ['5', '0'], some (false, ['1'])⟩

theorem isNumeral_shortNumeral : IsNumeral "-12.50e1".toList shortNumeral := by
  have hwhole : IsDigits ['1', '2'] := isDigits_of_all (by decide) (by decide)
  have hfraction : IsDigits ['5', '0'] := isDigits_of_all (by decide) (by decide)
  have hexponent : IsDigits ['1'] := isDigits_of_all (by decide) (by decide)
  exact @IsNumeral.mk true _ _ _ _ _ (.inr ⟨hwhole, by decide⟩) (.some hfraction)
    (.unsigned (.inl rfl) hexponent)

/-- The array with that numeral. -/
def shortArray : Text := "[-12.50e1]".toList

theorem evaluate_container_relaxedObject :
    (Opens relaxedObject ∧ Ends relaxedObject ∧
      ∃ w v, Denotes Numeral.Stepwise relaxedObject w ∧ evaluate relaxedObject = .evaluated v ∧
        w.WholesAsInts v ∧ v.text = relaxedObjectJson) ∧
    (Opens objectOfVariable ∧ Ends objectOfVariable ∧
      (¬ ∃ w, Denotes Numeral.Stepwise objectOfVariable w) ∧
      evaluate objectOfVariable = .unparsed objectOfVariable) ∧
    (Opens shortArray ∧ Ends shortArray ∧
      ∃ w v, Denotes Numeral.ShortNearest shortArray w ∧ evaluate shortArray = .evaluated v ∧
        w.WholesAsInts v ∧ v.text = "[-125]".toList) := by
  refine ⟨?_, ?_, ?_⟩
  · have hopen : Opens relaxedObject := .inr (by decide)
    have hend : Ends relaxedObject := by
      rintro c ⟨⟩
      decide
    obtain ⟨hiff, hvalue, -⟩ := evaluate_container hopen hend
    obtain ⟨w, hw⟩ := hiff.1 (by decide +kernel)
    obtain ⟨v, hv, hwhole⟩ := hvalue w hw
    have htext : (evaluate relaxedObject).value.text = relaxedObjectJson := by decide +kernel
    rw [hv] at htext
    exact ⟨hopen, hend, w, v, hw, hv, hwhole, htext⟩
  · have hopen : Opens objectOfVariable := .inr (by decide)
    have hend : Ends objectOfVariable := by
      rintro c ⟨⟩
      decide
    obtain ⟨hiff, -, hkept, -⟩ := evaluate_container hopen hend
    have hnone : ¬ ∃ w, Denotes Numeral.Stepwise objectOfVariable w :=
      fun h => absurd (hiff.2 h) (by decide +kernel)
    exact ⟨hopen, hend, hnone, hkept hnone⟩
  · have hopen : Opens shortArray := .inl (by decide)
    have hend : Ends shortArray := by
      rintro c ⟨⟩
      decide
    obtain ⟨-, -, -, hshort⟩ := evaluate_container hopen hend
    obtain ⟨x, hx⟩ := Option.isSome_iff_exists.1
      (by decide +kernel : shortNumeral.nearest?.isSome = true)
    have hw : Denotes Numeral.ShortNearest shortArray (.array [.scalar (.number (.float x))]) :=
      denotes_array_of_isNumeral isNumeral_shortNumeral (.float (by decide)
        ⟨⟨by decide, by decide, by decide⟩, Numeral.nearest?_eq_some_iff.1 hx⟩)
    obtain ⟨v, hv, hwhole⟩ := hshort _ hw
    have htext : (evaluate shortArray).value.text = "[-125]".toList := by decide +kernel
    rw [hv] at htext
    exact ⟨hopen, hend, _, v, hw, hv, hwhole, htext⟩

/-! ## A number that is not the nearest one -/

/-- The largest safe integer as a double precision number. -/
def largestSafeFloat : Binary64 :=
  ⟨false, 1074 * Binary64.binade + Number.maxSafe, by decide⟩

/-- The largest safe integer with a fraction. -/
def largestSafeNumeral : Numeral := ⟨false, "9007199254740991".toList, some ['0'], none⟩

theorem isNumeral_largestSafeNumeral :
    IsNumeral "9007199254740991.0".toList largestSafeNumeral := by
  have hdigits : IsDigits "9007199254740991".toList := isDigits_of_all (by decide) (by decide)
  have hfraction : IsDigits ['0'] := isDigits_of_all (by decide) (by decide)
  exact @IsNumeral.mk false _ _ _ _ _ (.inr ⟨hdigits, by decide⟩) (.some hfraction) .none

/-- The array with that numeral. -/
def largestSafeArray : Text := "[9007199254740991.0]".toList

/-- In steps the significand is rounded first, and the quotient is the integer below. -/
theorem evaluate_ne_nearest : Opens largestSafeArray ∧ Ends largestSafeArray ∧
    ∃ w, Denotes Numeral.Nearest largestSafeArray w ∧
      ¬ ∃ v, evaluate largestSafeArray = .evaluated v ∧ w.WholesAsInts v := by
  have hx : largestSafeNumeral.nearest? = some largestSafeFloat := by decide +kernel
  have hend : Ends largestSafeArray := by
    rintro c ⟨⟩
    decide
  refine ⟨.inl (by decide), hend, _, denotes_array_of_isNumeral isNumeral_largestSafeNumeral
    (.float (by decide) (Numeral.nearest?_eq_some_iff.1 hx)), ?_⟩
  rintro ⟨v, hv, hwhole⟩
  have htext : (evaluate largestSafeArray).value.text = "[9007199254740990]".toList := by
    decide +kernel
  rw [hv] at htext
  cases hwhole with
  | array hitems =>
    cases hitems with
    | cons hitem hrest =>
      cases hrest
      cases hitem with
      | scalar hnumber => exact hnumber _ rfl
      | number hnumber =>
        have hint : largestSafeFloat.toInt? = some 9007199254740991 := by decide +kernel
        cases hnumber with
        | float hlarge => exact absurd (hlarge _ (Binary64.toInt?_eq_some_iff.1 hint)) (by decide)
        | whole hequals =>
          rw [Binary64.toInt?_eq_some_iff.2 hequals] at hint
          obtain rfl := Option.some.inj hint
          exact absurd htext (by decide +kernel)

end PropCatalog.Literal
