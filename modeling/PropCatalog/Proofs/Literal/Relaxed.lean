import PropCatalog.Proofs.Json.Reader

/-!
# What the rewriting of relaxed notation does to a text

`Relaxed.toJson` goes over a text once. Here its output is led back to its input: each theorem tells
which texts are rewritten into one that starts in a given way. White space and signs come from
themselves, with the exception of the comma that goes missing before a closer
(`toJson_eq_closer_iff`).
-/

namespace PropCatalog.Literal.Relaxed

open Json

variable {s x y w word rest : Text} {c d q : Char}

/-! ## The next character that is no blank -/

theorem firstInk?_blanks_append (hw : ∀ c ∈ w, Text.isBlank c = true) (s : Text) :
    firstInk? (w ++ s) = firstInk? s := by
  have hnone : w.find? (fun c => !Text.isBlank c) = none := by
    rw [List.find?_eq_none]
    intro c hc
    simpa using hw c hc
  rw [firstInk?, List.find?_append, hnone, Option.none_or, firstInk?]

theorem firstInk?_cons (hc : Text.isBlank c = false) (s : Text) : firstInk? (c :: s) = some c :=
  List.find?_cons_of_pos (by simp [hc])

theorem firstInk?_eq_some (h : firstInk? s = some c) :
    ∃ w t, s = w ++ c :: t ∧ (∀ d ∈ w, Text.isBlank d = true) ∧ Text.isBlank c = false := by
  obtain ⟨hc, w, t, rfl, hw⟩ := List.find?_eq_some_iff_append.1 h
  exact ⟨w, t, rfl, fun d hd => by simpa using hw d hd, by simpa using hc⟩

theorem isBlank_of_spaces (hw : Spaces w) : ∀ c ∈ w, Text.isBlank c = true :=
  fun c hc => isBlank_of_isSpace (hw c hc)

theorem firstInk?_spaces_append (hw : Spaces w) (s : Text) : firstInk? (w ++ s) = firstInk? s :=
  firstInk?_blanks_append (isBlank_of_spaces hw) s

/-- A comma here is dropped: a closer comes next. -/
def BeforeCloser (s : Text) : Prop := firstInk? s = some ']' ∨ firstInk? s = some '}'

instance (s : Text) : Decidable (BeforeCloser s) :=
  inferInstanceAs (Decidable (firstInk? s = some ']' ∨ firstInk? s = some '}'))

theorem beforeCloser_spaces_append_iff (hw : Spaces w) :
    BeforeCloser (w ++ s) ↔ BeforeCloser s := by
  rw [BeforeCloser, firstInk?_spaces_append hw, BeforeCloser]

theorem not_beforeCloser_of_begins (hs : Begins s) : ¬ BeforeCloser s := by
  obtain ⟨c, t, rfl, hblank, hsquare, hcurly⟩ := hs
  rw [BeforeCloser, firstInk?_cons hblank]
  simp [hsquare, hcurly]

/-! ## One step of the rewriting -/

/-- The body of a string and everything behind it, rewritten. -/
def copied (quote : Char) (s : Text) : Text :=
  (string quote s).1 ++ toJson (string quote s).2

/-- A character that is copied for itself. -/
def IsCopied (c : Char) : Prop := c ≠ '\'' ∧ c ≠ '"' ∧ c ≠ ',' ∧ isWordStart c = false

theorem toJson_nil : toJson [] = [] := by
  rw [toJson]

theorem toJson_quote (hq : q = '\'' ∨ q = '"') (s : Text) :
    toJson (q :: s) = '"' :: copied q s := by
  rw [toJson, if_pos (by simpa using hq)]
  rfl

theorem toJson_comma (s : Text) :
    toJson (',' :: s) = if BeforeCloser s then toJson s else ',' :: toJson s := by
  rw [toJson, if_neg (by decide), if_pos rfl]
  by_cases h : BeforeCloser s
  · rw [if_pos h, if_pos (by simpa [BeforeCloser] using h)]
  · rw [if_neg h, if_neg (by simpa [BeforeCloser] using h)]

theorem toJson_cons (hc : IsCopied c) (s : Text) : toJson (c :: s) = c :: toJson s := by
  obtain ⟨hsingle, hdouble, hcomma, hword⟩ := hc
  rw [toJson, if_neg (by simp [hsingle, hdouble]), if_neg hcomma, if_neg (by simp [hword])]

theorem ne_of_isWordStart (hc : isWordStart c = true) : c ≠ '\'' ∧ c ≠ '"' ∧ c ≠ ',' := by
  refine ⟨?_, ?_, ?_⟩
  all_goals
    rintro rfl
    cases hc

theorem toJson_word (hword : IsWord word) (hrest : rest.head?.any isWordRest = false) :
    toJson (word ++ rest) =
      if firstInk? rest = some ':' then '"' :: word ++ '"' :: toJson rest
      else word ++ toJson rest := by
  obtain ⟨hc, hs⟩ := hword
  obtain ⟨hsingle, hdouble, hcomma⟩ := ne_of_isWordStart hc
  obtain ⟨htake, hdrop⟩ := Text.span_append hs hrest
  rw [List.cons_append, toJson, if_neg (by simp [hsingle, hdouble]), if_neg hcomma, if_pos hc]
  simp only [htake, hdrop]

theorem isCopied_of_isBlank (hc : Text.isBlank c = true) : IsCopied c := by
  refine ⟨?_, ?_, ?_, Bool.eq_false_iff.2 fun hword => ?_⟩
  case refine_4 =>
    have hrest := Text.isBlank_of_isWordRest (Text.isWordRest_of_isWordStart hword)
    rw [hc] at hrest
    cases hrest
  all_goals
    rintro rfl
    cases hc

theorem isCopied_closer (hc : c = ']' ∨ c = '}') : IsCopied c ∧ Text.isBlank c = false := by
  rcases hc with rfl | rfl <;> exact ⟨⟨by decide, by decide, by decide, rfl⟩, rfl⟩

theorem isCopied_colon : IsCopied ':' := ⟨by decide, by decide, by decide, rfl⟩

theorem toJson_blanks_append (hw : ∀ c ∈ w, Text.isBlank c = true) (s : Text) :
    toJson (w ++ s) = w ++ toJson s := by
  induction w with
  | nil => rfl
  | cons c w ih =>
    obtain ⟨hc, hw⟩ := List.forall_mem_cons.1 hw
    rw [List.cons_append, toJson_cons (isCopied_of_isBlank hc), ih hw, List.cons_append]

theorem toJson_spaces_append (hw : Spaces w) (s : Text) : toJson (w ++ s) = w ++ toJson s :=
  toJson_blanks_append (isBlank_of_spaces hw) s

theorem BeforeCloser.toJson (hs : BeforeCloser s) :
    ∃ w c t, s = w ++ c :: t ∧ (∀ d ∈ w, Text.isBlank d = true) ∧ (c = ']' ∨ c = '}') ∧
      Relaxed.toJson s = w ++ c :: Relaxed.toJson t := by
  obtain ⟨c, hc, hfirst⟩ : ∃ c, (c = ']' ∨ c = '}') ∧ firstInk? s = some c := by
    rcases hs with h | h
    · exact ⟨_, .inl rfl, h⟩
    · exact ⟨_, .inr rfl, h⟩
  obtain ⟨w, t, rfl, hw, -⟩ := firstInk?_eq_some hfirst
  refine ⟨w, c, t, rfl, hw, hc, ?_⟩
  rw [toJson_blanks_append hw, toJson_cons (isCopied_closer hc).1]

theorem BeforeCloser.toJson_self (hs : BeforeCloser s) : BeforeCloser (Relaxed.toJson s) := by
  obtain ⟨w, c, t, -, hw, hc, hjson⟩ := hs.toJson
  rw [BeforeCloser, hjson, firstInk?_blanks_append hw, firstInk?_cons (isCopied_closer hc).2]
  rcases hc with rfl | rfl <;> simp

theorem BeforeCloser.toJson_eq_cons (hs : BeforeCloser s) :
    ∃ c y, Relaxed.toJson s = c :: y ∧ (Text.isBlank c = true ∨ c = ']' ∨ c = '}') := by
  obtain ⟨w, c, t, -, hw, hc, hjson⟩ := hs.toJson
  cases w with
  | nil => exact ⟨_, _, hjson, .inr hc⟩
  | cons b w => exact ⟨_, _, hjson, .inl (hw b (by simp))⟩

/-! ## Where the output comes from -/

/-- How the rewriting of `s` comes to start with `c` and to go on with `y`. -/
inductive Starts : (s : Text) → (c : Char) → (y : Text) → Prop
  | quote {q : Char} {s : Text} (hq : q = '\'' ∨ q = '"') : Starts (q :: s) '"' (copied q s)
  | comma {s : Text} (hs : ¬ BeforeCloser s) : Starts (',' :: s) ',' (toJson s)
  | dropped {s y : Text} {c : Char} (hs : BeforeCloser s) (hy : toJson s = c :: y) :
      Starts (',' :: s) c y
  | key {word rest : Text} (hword : IsWord word) (hrest : rest.head?.any isWordRest = false)
      (hkey : firstInk? rest = some ':') :
      Starts (word ++ rest) '"' (word ++ '"' :: toJson rest)
  | word {c : Char} {word rest : Text} (hword : IsWord (c :: word))
      (hrest : rest.head?.any isWordRest = false) :
      Starts (c :: (word ++ rest)) c (word ++ toJson rest)
  | same {c : Char} {s : Text} (hc : IsCopied c) : Starts (c :: s) c (toJson s)

theorem exists_starts (d : Char) (s : Text) :
    ∃ c y, toJson (d :: s) = c :: y ∧ Starts (d :: s) c y := by
  by_cases hq : d = '\'' ∨ d = '"'
  · exact ⟨_, _, toJson_quote hq s, .quote hq⟩
  by_cases hcomma : d = ','
  · subst hcomma
    by_cases hs : BeforeCloser s
    · obtain ⟨c, y, hjson, -⟩ := hs.toJson_eq_cons
      exact ⟨c, y, by rw [toJson_comma, if_pos hs, hjson], .dropped hs hjson⟩
    · exact ⟨_, _, by rw [toJson_comma, if_neg hs], .comma hs⟩
  by_cases hstart : isWordStart d = true
  · -- the longest word that starts here
    obtain ⟨word, rest, rfl, hall, hrest⟩ := Text.exists_span isWordRest s
    have hword : IsWord (d :: word) := .mk hstart hall
    have hjson := toJson_word hword hrest
    by_cases hkey : firstInk? rest = some ':'
    · rw [if_pos hkey] at hjson
      exact ⟨_, _, hjson, .key hword hrest hkey⟩
    · rw [if_neg hkey] at hjson
      exact ⟨_, _, hjson, .word hword hrest⟩
  · have hc : IsCopied d :=
      ⟨fun h => hq (.inl h), fun h => hq (.inr h), hcomma, Bool.eq_false_iff.2 hstart⟩
    exact ⟨_, _, toJson_cons hc s, .same hc⟩

theorem starts_of_toJson (h : toJson s = c :: y) : Starts s c y := by
  cases s with
  | nil => simp [toJson_nil] at h
  | cons d s =>
    obtain ⟨c', y', hjson, hstarts⟩ := exists_starts d s
    rw [h] at hjson
    obtain ⟨rfl, rfl⟩ := List.cons.inj hjson
    exact hstarts

theorem toJson_eq_nil (h : toJson s = []) : s = [] := by
  cases s with
  | nil => rfl
  | cons d s =>
    obtain ⟨c, y, hjson, -⟩ := exists_starts d s
    rw [h] at hjson
    cases hjson

theorem isWordStart_of_isWord (h : IsWord (c :: word)) : isWordStart c = true := by
  cases h with
  | mk hc => exact hc

/-! ## White space and signs -/

theorem toJson_eq_copied (hc : IsCopied c) (h : toJson s = c :: y) :
    (∃ s', s = c :: s' ∧ toJson s' = y) ∨
      ∃ s', s = ',' :: s' ∧ BeforeCloser s' ∧ toJson s' = c :: y := by
  cases starts_of_toJson h with
  | quote | key => exact absurd rfl hc.2.1
  | comma => exact absurd rfl hc.2.2.1
  | dropped hs h => exact .inr ⟨_, rfl, hs, h⟩
  | word hword =>
    have hstart := isWordStart_of_isWord hword
    rw [hc.2.2.2] at hstart
    cases hstart
  | same => exact .inl ⟨_, rfl, rfl⟩

theorem toJson_eq_cons_iff (hc : IsCopied c) (hblank : Text.isBlank c = false)
    (hclose : c ≠ ']' ∧ c ≠ '}') : toJson s = c :: y ↔ ∃ s', s = c :: s' ∧ toJson s' = y := by
  constructor
  · intro h
    obtain hsame | ⟨s', -, hs, hjson⟩ := toJson_eq_copied hc h
    · exact hsame
    · obtain ⟨d, z, hjson', hd⟩ := hs.toJson_eq_cons
      rw [hjson] at hjson'
      obtain ⟨rfl, -⟩ := List.cons.inj hjson'
      simp [hblank, hclose] at hd
  · rintro ⟨s', rfl, rfl⟩
    exact toJson_cons hc s'

theorem toJson_eq_comma_iff :
    toJson s = ',' :: y ↔ ∃ s', s = ',' :: s' ∧ ¬ BeforeCloser s' ∧ toJson s' = y := by
  constructor
  · intro h
    generalize hc : ',' = c at h
    cases starts_of_toJson h with
    | quote | key => cases hc
    | comma hs => exact ⟨_, rfl, hs, rfl⟩
    | dropped hs h =>
      obtain ⟨d, z, hjson, hd⟩ := hs.toJson_eq_cons
      rw [h, ← hc] at hjson
      obtain ⟨rfl, -⟩ := List.cons.inj hjson
      rcases hd with hd | hd | hd <;> cases hd
    | word hword =>
      have hstart := isWordStart_of_isWord hword
      rw [← hc] at hstart
      cases hstart
    | same hsame => exact absurd hc.symm hsame.2.2.1
  · rintro ⟨s', rfl, hs, rfl⟩
    rw [toJson_comma, if_neg hs]

theorem toJson_eq_spaces_append_iff (hw : Spaces w) (hy : ¬ BeforeCloser y) :
    toJson s = w ++ y ↔ ∃ s', s = w ++ s' ∧ toJson s' = y := by
  constructor
  · intro h
    induction w generalizing s with
    | nil => exact ⟨s, rfl, h⟩
    | cons c w ih =>
      obtain ⟨hc, hw'⟩ := List.forall_mem_cons.1 hw
      rw [List.cons_append] at h
      obtain ⟨s', rfl, hs'⟩ | ⟨s', -, hs, hjson⟩ :=
        toJson_eq_copied (isCopied_of_isBlank (isBlank_of_isSpace hc)) h
      · obtain ⟨t, rfl, ht⟩ := ih hw' hs'
        exact ⟨t, rfl, ht⟩
      · have hclose := hs.toJson_self
        rw [hjson, ← List.cons_append, beforeCloser_spaces_append_iff hw] at hclose
        exact absurd hclose hy
  · rintro ⟨s', rfl, rfl⟩
    exact toJson_spaces_append hw s'

/-! ## The last comma -/

theorem blanks_append_inj {w' : Text} (hw : ∀ c ∈ w, Text.isBlank c = true)
    (hw' : ∀ c ∈ w', Text.isBlank c = true) (hc : Text.isBlank c = false)
    (hd : Text.isBlank d = false) (h : w ++ c :: x = w' ++ d :: y) : w = w' ∧ c = d ∧ x = y := by
  have htake := Text.span_append (s := c :: x) hw (by simpa using hc)
  have htake' := Text.span_append (s := d :: y) hw' (by simpa using hd)
  rw [h] at htake
  obtain rfl := htake.1.symm.trans htake'.1
  exact ⟨rfl, List.cons.inj (List.append_cancel_left h)⟩

theorem beforeCloser_append (hw : Spaces w) (hc : c = ']' ∨ c = '}') (s : Text) :
    BeforeCloser (w ++ c :: s) := by
  rw [beforeCloser_spaces_append_iff hw, BeforeCloser, firstInk?_cons (isCopied_closer hc).2]
  rcases hc with rfl | rfl <;> simp

theorem BeforeCloser.exists_of_toJson (hs : BeforeCloser s) (hw : Spaces w) (hc : c = ']' ∨ c = '}')
    (h : Relaxed.toJson s = w ++ c :: x) : ∃ s', s = w ++ c :: s' ∧ Relaxed.toJson s' = x := by
  obtain ⟨w', d, t, rfl, hw', hd, hjson⟩ := hs.toJson
  rw [h] at hjson
  obtain ⟨rfl, rfl, rfl⟩ := blanks_append_inj (isBlank_of_spaces hw) hw' (isCopied_closer hc).2
    (isCopied_closer hd).2 hjson
  exact ⟨t, rfl, rfl⟩

/-- Before a closer, white space comes from white space with at most one comma in it. -/
theorem toJson_eq_closer_iff (hc : c = ']' ∨ c = '}') :
    (∃ w, Spaces w ∧ toJson s = w ++ c :: x) ↔
      ∃ e s', Ending .relaxed e ∧ s = e ++ c :: s' ∧ toJson s' = x := by
  constructor
  · rintro ⟨w, hw, h⟩
    induction w generalizing s with
    | nil =>
      obtain ⟨s', rfl, hs'⟩ | ⟨s', rfl, hs, hjson⟩ := toJson_eq_copied (isCopied_closer hc).1 h
      · exact ⟨[], s', .inl hw, rfl, hs'⟩
      · obtain ⟨t, rfl, ht⟩ := hs.exists_of_toJson hw hc hjson
        exact ⟨[','], t, .inr ⟨rfl, [], [], rfl, hw, hw⟩, rfl, ht⟩
    | cons b w ih =>
      obtain ⟨hb, hw'⟩ := List.forall_mem_cons.1 hw
      obtain ⟨s', rfl, hs'⟩ | ⟨s', rfl, hs, hjson⟩ :=
        toJson_eq_copied (isCopied_of_isBlank (isBlank_of_isSpace hb)) h
      · obtain ⟨e, t, he, rfl, ht⟩ := ih hw' hs'
        refine ⟨b :: e, t, ?_, rfl, ht⟩
        obtain he | ⟨hd, v, v', rfl, hv, hv'⟩ := he
        · exact .inl (List.forall_mem_cons.2 ⟨hb, he⟩)
        · exact .inr ⟨hd, b :: v, v', rfl, List.forall_mem_cons.2 ⟨hb, hv⟩, hv'⟩
      · obtain ⟨t, rfl, ht⟩ := hs.exists_of_toJson hw hc hjson
        exact ⟨',' :: b :: w, t, .inr ⟨rfl, [], b :: w, rfl, by simp [Spaces], hw⟩, rfl, ht⟩
  · rintro ⟨e, s', he, rfl, rfl⟩
    obtain he | ⟨-, w, w', rfl, hw, hw'⟩ := he
    · exact ⟨e, he, by rw [toJson_spaces_append he, toJson_cons (isCopied_closer hc).1]⟩
    · refine ⟨w ++ w', List.forall_mem_append.2 ⟨hw, hw'⟩, ?_⟩
      rw [List.append_assoc, toJson_spaces_append hw, List.cons_append, toJson_comma,
        if_pos (beforeCloser_append hw' hc s'), toJson_spaces_append hw',
        toJson_cons (isCopied_closer hc).1, List.append_assoc]

end PropCatalog.Literal.Relaxed
