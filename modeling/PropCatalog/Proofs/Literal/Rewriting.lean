import PropCatalog.Proofs.Literal.Words

/-!
# The rewriting turns the relaxed dialect into the strict one

`Rewrites follow relaxed strict` tells that, before a text with `follow`, a text of `strict` in the
output comes from a text of `relaxed` in the input and from nothing else, and with the same meaning.
It is shown for scalars and names and carried to fields, to the parts of a container, to containers,
and by induction on the nesting to all values (`rewrites_spells`).
-/

namespace PropCatalog.Literal.Relaxed

open Json

variable {s x y w : Text} {c d : Char} {α : Type} {rounding : Numeral.Rounding}

/-- Where what comes after satisfies `follow`, the rewriting leads from the texts of `relaxed`, and
from no others, to texts of `strict` with the same meaning. -/
def Rewrites (follow : Text → Prop) (relaxed strict : Text → α → Prop) : Prop :=
  ∀ ⦃s x : Text⦄ ⦃a : α⦄, follow x →
    ((∃ u, strict u a ∧ toJson s = u ++ x) ↔ ∃ t s', relaxed t a ∧ s = t ++ s' ∧ toJson s' = x)

/-! ## Scalars -/

theorem isPlain_of_isDigits {digits : Text} (h : IsDigits digits) :
    ∀ c ∈ digits, isPlain c = true :=
  fun c hc => isPlain_of_isWordRest (Text.isWordRest_of_isDigit (h.2 c hc))

theorem isPlain_of_isNumeral {n : Numeral} (h : IsNumeral s n) : ∀ c ∈ s, isPlain c = true := by
  obtain @⟨negative, whole, fraction, exponent, fraction?, exponent?, hwhole, hfraction,
    hexponent⟩ := h
  simp only [List.forall_mem_append]
  refine ⟨?_, ?_, ?_, ?_⟩
  · cases negative <;> simp [isPlain]
  · obtain rfl | ⟨hdigits, -⟩ := hwhole
    · simpa using isPlain_of_isWordRest (Text.isWordRest_of_isDigit (c := '0') rfl)
    · exact isPlain_of_isDigits hdigits
  · cases hfraction with
    | none => simp
    | some hdigits => exact List.forall_mem_cons.2 ⟨rfl, isPlain_of_isDigits hdigits⟩
  · have hletter {letter : Char} (h : letter = 'e' ∨ letter = 'E') : isPlain letter = true := by
      rcases h with rfl | rfl <;> rfl
    cases hexponent with
    | none => simp
    | unsigned h hdigits =>
      exact List.forall_mem_cons.2 ⟨hletter h, isPlain_of_isDigits hdigits⟩
    | signed h hsign hdigits =>
      refine List.forall_mem_cons.2 ⟨hletter h, List.forall_mem_cons.2 ⟨?_, ?_⟩⟩
      · rcases hsign with rfl | rfl <;> rfl
      · exact isPlain_of_isDigits hdigits

theorem isPlain_or_isString {d : Dialect} {v : Scalar} (h : IsScalar d rounding s v) :
    ((∀ c ∈ s, isPlain c = true) ∧ ∀ d', IsScalar d' rounding s v) ∨
      ∃ value, IsString d s value ∧ v = .string value := by
  cases h with
  | null => exact .inl ⟨List.all_eq_true.1 (by decide +kernel), fun _ => .null⟩
  | true => exact .inl ⟨List.all_eq_true.1 (by decide +kernel), fun _ => .true⟩
  | false => exact .inl ⟨List.all_eq_true.1 (by decide +kernel), fun _ => .false⟩
  | number hs hx => exact .inl ⟨isPlain_of_isNumeral hs, fun _ => .number hs hx⟩
  | string hs => exact .inr ⟨_, hs, rfl⟩

theorem head?_of_closes_toJson (h : Closes (toJson s)) : s.head?.any isWordRest = false := by
  have hhead : (toJson s).head?.any (fun c => isWordRest c || c = '"') = false :=
    h.head?_any (by decide +kernel)
  cases s with
  | nil => rfl
  | cons c s =>
    refine Bool.eq_false_iff.2 fun hc => ?_
    replace hc : isWordRest c = true := by simpa using hc
    by_cases hstart : isWordStart c = true
    · obtain ⟨word, rest, rfl, hall, hrest⟩ := Text.exists_span isWordRest s
      rw [← List.cons_append, toJson_word (.mk hstart hall) hrest] at hhead
      split at hhead <;> simp [hc] at hhead
    · have hcopied := isCopied_of_isPlain (isPlain_of_isWordRest hc) (Bool.eq_false_iff.2 hstart)
      rw [toJson_cons hcopied.1] at hhead
      simp [hc] at hhead

theorem firstInk?_of_closes_toJson (h : Closes (toJson s)) : firstInk? s ≠ some ':' := by
  intro hcolon
  obtain ⟨w, t, rfl, hw, -⟩ := firstInk?_eq_some hcolon
  rw [toJson_blanks_append hw, toJson_cons isCopied_colon, Closes,
    List.find?_append] at h
  cases hfind : w.find? fun c => !isSpace c with
  | none =>
    rw [hfind] at h
    have hclose := h ':' rfl
    simp at hclose
  | some d =>
    rw [hfind] at h
    have hblank := hw d (List.mem_of_find?_eq_some hfind)
    rcases h d rfl with rfl | rfl | rfl <;> cases hblank

theorem rewrites_scalar :
    Rewrites Closes (IsScalar .relaxed rounding) (IsScalar .strict rounding) := by
  intro s x v hx
  constructor
  · rintro ⟨u, hu, h⟩
    obtain ⟨hplain, hall⟩ | ⟨value, hstring, rfl⟩ := isPlain_or_isString hu
    · obtain ⟨s', rfl, hs'⟩ := toJson_eq_plain_append hplain (hx.head?_any (by decide +kernel)) h
      exact ⟨u, s', hall _, rfl, hs'⟩
    · obtain ⟨t, s', ht, rfl, hs'⟩ | ⟨s', -, -, hcolon, rfl⟩ :=
        toJson_eq_string_append_iff.1 ⟨u, hstring, h⟩
      · exact ⟨t, s', .string ht, rfl, hs'⟩
      · exact absurd hcolon (firstInk?_of_closes_toJson hx)
  · rintro ⟨t, s', ht, rfl, rfl⟩
    obtain ⟨hplain, hall⟩ | ⟨value, hstring, rfl⟩ := isPlain_or_isString ht
    · exact ⟨t, hall _, toJson_plain_append hplain (head?_of_closes_toJson hx)
        (firstInk?_of_closes_toJson hx)⟩
    · obtain ⟨u, hu, h⟩ := toJson_eq_string_append_iff.2 (.inl ⟨t, s', hstring, rfl, rfl⟩)
      exact ⟨u, .string hu, h⟩

theorem rewrites_leaf : Rewrites Closes (IsLeaf .relaxed rounding) (IsLeaf .strict rounding) := by
  intro s x v hx
  constructor
  · rintro ⟨u, ⟨hu⟩, h⟩
    obtain ⟨t, s', ht, hs, hs'⟩ := (rewrites_scalar hx).1 ⟨u, hu, h⟩
    exact ⟨t, s', .scalar ht, hs, hs'⟩
  · rintro ⟨t, s', ⟨ht⟩, hs, hs'⟩
    obtain ⟨u, hu, h⟩ := (rewrites_scalar hx).2 ⟨t, s', ht, hs, hs'⟩
    exact ⟨u, .scalar hu, h⟩

/-! ## Fields -/

theorem begins_colon (s : Text) : Begins (':' :: s) :=
  ⟨':', s, rfl, rfl, by decide, by decide⟩

theorem toJson_eq_colon_iff : toJson s = ':' :: y ↔ ∃ s', s = ':' :: s' ∧ toJson s' = y :=
  toJson_eq_cons_iff isCopied_colon rfl ⟨by decide, by decide⟩

/-- Behind spaces comes a colon. -/
def BeforeColon (s : Text) : Prop := ∃ w t, s = w ++ ':' :: t ∧ Spaces w

theorem firstInk?_of_beforeColon (h : BeforeColon (toJson s)) : firstInk? s = some ':' := by
  obtain ⟨w, t, hjson, hw⟩ := h
  obtain ⟨s', rfl, hs'⟩ :=
    (toJson_eq_spaces_append_iff hw (not_beforeCloser_of_begins (begins_colon t))).1 hjson
  obtain ⟨s'', rfl, -⟩ := toJson_eq_colon_iff.1 hs'
  rw [firstInk?_spaces_append hw, firstInk?_cons rfl]

theorem rewrites_name : Rewrites BeforeColon (IsName .relaxed) (IsName .strict) := by
  intro s x name hx
  constructor
  · rintro ⟨u, hu, h⟩
    cases hu with
    | word hd => cases hd
    | string hu =>
      obtain ⟨t, s', ht, rfl, hs'⟩ | ⟨s', hword, rfl, -, hs'⟩ :=
        toJson_eq_string_append_iff.1 ⟨u, hu, h⟩
      · exact ⟨t, s', .string ht, rfl, hs'⟩
      · exact ⟨name, s', .word rfl hword, rfl, hs'⟩
  · rintro ⟨t, s', ht, rfl, rfl⟩
    cases ht with
    | string ht =>
      obtain ⟨u, hu, h⟩ := toJson_eq_string_append_iff.2 (.inl ⟨t, s', ht, rfl, rfl⟩)
      exact ⟨u, .string hu, h⟩
    | word _ hword =>
      obtain ⟨u, hu, h⟩ := toJson_eq_string_append_iff.2
        (.inr ⟨s', hword, rfl, firstInk?_of_beforeColon hx, rfl⟩)
      exact ⟨u, .string hu, h⟩

theorem Rewrites.field {relaxed strict : Text → Value → Prop}
    (hvalue : Rewrites Closes relaxed strict) (hbegins : ∀ u v, strict u v → Begins u) :
    Rewrites Closes (IsField .relaxed relaxed) (IsField .strict strict) := by
  intro s x field hx
  constructor
  · rintro ⟨u, @⟨a, name, w, w', t, v, hname, hw, hw', hv⟩, h⟩
    have happend : a ++ (w ++ ':' :: (w' ++ t)) ++ x = a ++ (w ++ ':' :: (w' ++ (t ++ x))) := by
      simp
    rw [happend] at h
    obtain ⟨b, s₁, hb, rfl, h₁⟩ := (rewrites_name ⟨w, _, rfl, hw⟩).1 ⟨a, hname, h⟩
    obtain ⟨s₂, rfl, h₂⟩ := (toJson_eq_spaces_append_iff hw
      (not_beforeCloser_of_begins (begins_colon _))).1 h₁
    obtain ⟨s₃, rfl, h₃⟩ := toJson_eq_colon_iff.1 h₂
    obtain ⟨s₄, rfl, h₄⟩ := (toJson_eq_spaces_append_iff hw'
      (not_beforeCloser_of_begins ((hbegins t v hv).append x))).1 h₃
    obtain ⟨t', s₅, ht', rfl, h₅⟩ := (hvalue hx).1 ⟨t, hv, h₄⟩
    exact ⟨_, s₅, .mk hb hw hw' ht', by simp, h₅⟩
  · rintro ⟨u, s', @⟨a, name, w, w', t, v, hname, hw, hw', hv⟩, rfl, rfl⟩
    obtain ⟨t', ht', h⟩ := (hvalue hx).2 ⟨t, s', hv, rfl, rfl⟩
    have hrest : toJson (w ++ ':' :: (w' ++ (t ++ s'))) =
        w ++ ':' :: (w' ++ (t' ++ toJson s')) := by
      rw [toJson_spaces_append hw, toJson_cons isCopied_colon, toJson_spaces_append hw', h]
    obtain ⟨b, hb, h⟩ := (rewrites_name ⟨w, _, rfl, hw⟩).2
      ⟨a, w ++ ':' :: (w' ++ (t ++ s')), hname, rfl, hrest⟩
    refine ⟨_, .mk hb hw hw' ht', ?_⟩
    have happend : a ++ (w ++ ':' :: (w' ++ t)) ++ s' = a ++ (w ++ ':' :: (w' ++ (t ++ s'))) := by
      simp
    rw [happend, h]
    simp

/-! ## Containers -/

section Containers

theorem ending_strict_iff {e : Text} : Ending .strict e ↔ Spaces e :=
  ⟨Reading.spaces_of_ending, .inl⟩

theorem begins_comma (s : Text) : Begins (',' :: s) :=
  ⟨',', s, rfl, rfl, by decide, by decide⟩

variable {relaxed strict : Text → α → Prop}

theorem toJson_eq_ending_iff (hc : c = ']' ∨ c = '}') :
    (∃ e, Ending .strict e ∧ toJson s = e ++ c :: x) ↔
      ∃ e s', Ending .relaxed e ∧ s = e ++ c :: s' ∧ toJson s' = x := by
  simp only [ending_strict_iff, toJson_eq_closer_iff hc]

theorem Rewrites.parts (hpart : Rewrites Closes relaxed strict)
    (hstrict : ∀ u v, strict u v → Begins u) (hrelaxed : ∀ u v, relaxed u v → Begins u)
    (hc : c = ']' ∨ c = '}') {xs : List α} :
    (∃ u, Parts .strict strict u xs ∧ toJson s = u ++ c :: x) ↔
      ∃ t s', Parts .relaxed relaxed t xs ∧ s = t ++ c :: s' ∧ toJson s' = x := by
  constructor
  · rintro ⟨u, hu, h⟩
    -- the parts are found from the left; what follows one there closes it
    induction hu generalizing s with
    | @last w p e v hw hp he =>
      rw [List.append_assoc, List.append_assoc] at h
      obtain ⟨s₁, rfl, h₁⟩ := (toJson_eq_spaces_append_iff hw
        (not_beforeCloser_of_begins ((hstrict p v hp).append _))).1 h
      have hcloses : Closes (e ++ c :: x) :=
        (closes_cons (.inr hc) x).append_left (ending_strict_iff.1 he)
      obtain ⟨t, s₂, ht, rfl, h₂⟩ := (hpart hcloses).1 ⟨p, hp, h₁⟩
      obtain ⟨e', s₃, he', rfl, h₃⟩ := (toJson_eq_ending_iff hc).1 ⟨e, he, h₂⟩
      exact ⟨_, s₃, .last hw ht he', by simp, h₃⟩
    | @cons w p w' u v xs hw hp hw' hu ih =>
      have happend : w ++ (p ++ (w' ++ ',' :: u)) ++ c :: x =
          w ++ (p ++ (w' ++ ',' :: (u ++ c :: x))) := by simp
      rw [happend] at h
      obtain ⟨s₁, rfl, h₁⟩ := (toJson_eq_spaces_append_iff hw
        (not_beforeCloser_of_begins ((hstrict p v hp).append _))).1 h
      have hcloses : Closes (w' ++ ',' :: (u ++ c :: x)) :=
        (closes_cons (.inl rfl) _).append_left hw'
      obtain ⟨t, s₂, ht, rfl, h₂⟩ := (hpart hcloses).1 ⟨p, hp, h₁⟩
      obtain ⟨s₃, rfl, h₃⟩ := (toJson_eq_spaces_append_iff hw'
        (not_beforeCloser_of_begins (begins_comma _))).1 h₂
      obtain ⟨s₄, rfl, -, h₄⟩ := toJson_eq_comma_iff.1 h₃
      obtain ⟨t', s₅, ht', rfl, h₅⟩ := ih h₄
      exact ⟨_, s₅, .cons hw ht hw' ht', by simp, h₅⟩
  · rintro ⟨t, s', ht, rfl, rfl⟩
    induction ht with
    | @last w p e v hw hp he =>
      obtain ⟨e', he', h₁⟩ := (toJson_eq_ending_iff hc).2 ⟨e, s', he, rfl, rfl⟩
      have hcloses : Closes (e' ++ c :: toJson s') :=
        (closes_cons (.inr hc) _).append_left (ending_strict_iff.1 he')
      obtain ⟨u, hu, h₂⟩ := (hpart hcloses).2 ⟨p, _, hp, rfl, h₁⟩
      refine ⟨_, .last hw hu he', ?_⟩
      rw [List.append_assoc, List.append_assoc, toJson_spaces_append hw, h₂]
      simp
    | @cons w p w' t v xs hw hp hw' ht ih =>
      obtain ⟨u', hu', h₁⟩ := ih
      obtain ⟨w₁, t₁, rfl, hw₁, ht₁⟩ := ht.begins hrelaxed
      -- a part begins behind the comma, so the comma is not dropped
      have hkept : ¬ BeforeCloser (w₁ ++ t₁ ++ c :: s') := by
        rw [List.append_assoc, beforeCloser_spaces_append_iff hw₁]
        exact not_beforeCloser_of_begins (ht₁.append _)
      have h₂ : toJson (w' ++ ',' :: (w₁ ++ t₁ ++ c :: s')) =
          w' ++ ',' :: (u' ++ c :: toJson s') := by
        rw [toJson_spaces_append hw', toJson_comma, if_neg hkept, h₁]
      have hcloses : Closes (w' ++ ',' :: (u' ++ c :: toJson s')) :=
        (closes_cons (.inl rfl) _).append_left hw'
      obtain ⟨u, hu, h₃⟩ := (hpart hcloses).2 ⟨p, _, hp, rfl, h₂⟩
      refine ⟨_, .cons hw hu hw' hu', ?_⟩
      have happend : w ++ (p ++ (w' ++ ',' :: (w₁ ++ t₁))) ++ c :: s' =
          w ++ (p ++ (w' ++ ',' :: (w₁ ++ t₁ ++ c :: s'))) := by simp
      rw [happend, toJson_spaces_append hw, h₃]
      simp

theorem Rewrites.inside (hpart : Rewrites Closes relaxed strict)
    (hstrict : ∀ u v, strict u v → Begins u) (hrelaxed : ∀ u v, relaxed u v → Begins u)
    (hc : c = ']' ∨ c = '}') {xs : List α} :
    (∃ u, Inside .strict strict u xs ∧ toJson s = u ++ c :: x) ↔
      ∃ t s', Inside .relaxed relaxed t xs ∧ s = t ++ c :: s' ∧ toJson s' = x := by
  constructor
  · rintro ⟨u, hu, h⟩
    cases hu with
    | empty he =>
      obtain ⟨e, s', he, rfl, hs'⟩ := (toJson_eq_ending_iff hc).1 ⟨u, he, h⟩
      exact ⟨e, s', .empty he, rfl, hs'⟩
    | parts hu =>
      obtain ⟨t, s', ht, rfl, hs'⟩ := (hpart.parts hstrict hrelaxed hc).1 ⟨u, hu, h⟩
      exact ⟨t, s', .parts ht, rfl, hs'⟩
  · rintro ⟨t, s', ht, rfl, rfl⟩
    cases ht with
    | empty he =>
      obtain ⟨e, he, h⟩ := (toJson_eq_ending_iff hc).2 ⟨t, s', he, rfl, rfl⟩
      exact ⟨e, .empty he, h⟩
    | parts ht =>
      obtain ⟨u, hu, h⟩ := (hpart.parts hstrict hrelaxed hc).2 ⟨t, s', ht, rfl, rfl⟩
      exact ⟨u, .parts hu, h⟩

end Containers

theorem toJson_eq_opener_iff (hc : c = '[' ∨ c = '{') :
    toJson s = c :: y ↔ ∃ s', s = c :: s' ∧ toJson s' = y := by
  have hcopied : IsCopied c := by
    rcases hc with rfl | rfl <;> exact ⟨by decide, by decide, by decide, rfl⟩
  rcases hc with rfl | rfl <;> exact toJson_eq_cons_iff hcopied rfl ⟨by decide, by decide⟩

theorem Rewrites.container {relaxed strict : Text → Value → Prop}
    (hvalue : Rewrites Closes relaxed strict) (hstrict : ∀ u v, strict u v → Begins u)
    (hrelaxed : ∀ u v, relaxed u v → Begins u) :
    Rewrites Closes (IsContainer .relaxed relaxed) (IsContainer .strict strict) := by
  have hfields := hvalue.field hstrict
  intro s x v _
  constructor
  · rintro ⟨u, hu, h⟩
    cases hu with
    | @array inside items hinside =>
      rw [List.cons_append, List.append_assoc, List.singleton_append] at h
      obtain ⟨s₁, rfl, h₁⟩ := (toJson_eq_opener_iff (.inl rfl)).1 h
      obtain ⟨t, s', ht, rfl, hs'⟩ := (hvalue.inside hstrict hrelaxed (.inl rfl)).1 ⟨_, hinside, h₁⟩
      exact ⟨_, s', .array ht, by simp, hs'⟩
    | @object inside fields hinside =>
      rw [List.cons_append, List.append_assoc, List.singleton_append] at h
      obtain ⟨s₁, rfl, h₁⟩ := (toJson_eq_opener_iff (.inr rfl)).1 h
      obtain ⟨t, s', ht, rfl, hs'⟩ := (hfields.inside (fun _ _ => IsField.begins)
        (fun _ _ => IsField.begins) (.inr rfl)).1 ⟨_, hinside, h₁⟩
      exact ⟨_, s', .object ht, by simp, hs'⟩
  · rintro ⟨t, s', ht, rfl, rfl⟩
    cases ht with
    | @array inside items hinside =>
      obtain ⟨u, hu, h⟩ :=
        (hvalue.inside hstrict hrelaxed (.inl rfl)).2 ⟨inside, s', hinside, rfl, rfl⟩
      refine ⟨_, .array hu, ?_⟩
      rw [List.cons_append, List.append_assoc, List.singleton_append]
      simpa using (toJson_eq_opener_iff (.inl rfl)).2 ⟨_, rfl, h⟩
    | @object inside fields hinside =>
      obtain ⟨u, hu, h⟩ := (hfields.inside (fun _ _ => IsField.begins)
        (fun _ _ => IsField.begins) (.inr rfl)).2 ⟨inside, s', hinside, rfl, rfl⟩
      refine ⟨_, .object hu, ?_⟩
      rw [List.cons_append, List.append_assoc, List.singleton_append]
      simpa using (toJson_eq_opener_iff (.inr rfl)).2 ⟨_, rfl, h⟩

/-- The rewriting turns the relaxed spellings of a value, and nothing else, into strict ones. -/
theorem rewrites_spells (n : Nat) :
    Rewrites Closes (Spells .relaxed rounding n) (Spells .strict rounding n) := by
  induction n with
  | zero => exact rewrites_leaf
  | succ n ih =>
    have hcontainer := ih.container (fun _ _ => Spells.begins) (fun _ _ => Spells.begins)
    intro s x v hx
    simp only [Spells, or_and_right, exists_or]
    rw [rewrites_leaf hx, hcontainer hx]

end PropCatalog.Literal.Relaxed
