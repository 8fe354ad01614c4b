import PropCatalog.Proofs.Literal.Relaxed

/-!
# Numerals, keywords and strings in the rewriting

Before a text that may follow a value, numerals and keywords come from themselves
(`toJson_eq_plain_append`): the words in them are not quoted. A string of JSON comes from a
string of the relaxed dialect or from a bare word before a colon (`toJson_eq_string_append_iff`).
-/

namespace PropCatalog.Literal.Relaxed

open Json

variable {s x y w word rest : Text} {c d q : Char}

/-! ## Numerals and keywords -/

/-- A character of a numeral or a keyword. -/
def isPlain (c : Char) : Bool := isWordRest c || c = '+' || c = '-' || c = '.'

theorem isPlain_of_isWordRest (hc : isWordRest c = true) : isPlain c = true := by
  simp [isPlain, hc]

theorem isCopied_of_isPlain (hc : isPlain c = true) (hword : isWordStart c = false) :
    IsCopied c ∧ Text.isBlank c = false ∧ c ≠ ']' ∧ c ≠ '}' := by
  simp only [isPlain, Bool.or_eq_true, decide_eq_true_eq] at hc
  obtain ((hrest | rfl) | rfl) | rfl := hc
  · refine ⟨⟨?_, ?_, ?_, hword⟩, Text.isBlank_of_isWordRest hrest, ?_, ?_⟩
    all_goals
      rintro rfl
      cases hrest
  all_goals exact ⟨⟨by decide, by decide, by decide, hword⟩, rfl, by decide, by decide⟩

theorem append_eq_append_of_head? {p : Char → Bool} {a b u : Text} (ha : ∀ c ∈ a, p c = true)
    (hx : x.head?.any p = false) (h : a ++ b = u ++ x) : ∃ v, u = a ++ v ∧ b = v ++ x := by
  obtain ⟨v, rfl, rfl⟩ | ⟨v, rfl, rfl⟩ := List.append_eq_append_iff.1 h
  · exact ⟨v, rfl, rfl⟩
  · cases v with
    | nil => exact ⟨[], by simp, rfl⟩
    | cons c v =>
      have hc := ha c (by simp)
      simp [hc] at hx

theorem toJson_eq_plain_append (hw : ∀ c ∈ w, isPlain c = true)
    (hx : x.head?.any isWordRest = false)
    (h : toJson s = w ++ x) : ∃ s', s = w ++ s' ∧ toJson s' = x := by
  induction hn : w.length using Nat.strongRecOn generalizing s w with
  | ind n ih =>
    cases w with
    | nil => exact ⟨s, rfl, h⟩
    | cons c w =>
      obtain ⟨hc, hw⟩ := List.forall_mem_cons.1 hw
      rw [List.cons_append] at h
      rw [List.length_cons] at hn
      by_cases hstart : isWordStart c = true
      · generalize hz : w ++ x = z at h
        cases starts_of_toJson h with
        | quote | key | comma => cases hstart
        | dropped hs h =>
          obtain ⟨d, y, hjson, hd⟩ := hs.toJson_eq_cons
          rw [h] at hjson
          obtain ⟨rfl, -⟩ := List.cons.inj hjson
          obtain hblank | rfl | rfl := hd
          · rw [(isCopied_of_isBlank hblank).2.2.2] at hstart
            cases hstart
          all_goals cases hstart
        | @word _ word rest hword hrest =>
          -- the word ends within the plain text, so that what is left of it is shorter
          have hall : ∀ c ∈ word, isWordRest c = true := by
            cases hword with
            | mk _ hall => exact hall
          obtain ⟨v, rfl, hv⟩ := append_eq_append_of_head? hall hx hz.symm
          obtain ⟨t, rfl, ht⟩ := ih v.length (by simp at hn; omega)
            (fun c hc => hw c (by simp [hc])) hv rfl
          exact ⟨t, by simp, ht⟩
        | same hsame =>
          rw [hsame.2.2.2] at hstart
          cases hstart
      · obtain ⟨hcopied, hblank, hclose⟩ := isCopied_of_isPlain hc (Bool.eq_false_iff.2 hstart)
        obtain ⟨s', rfl, hs'⟩ := (toJson_eq_cons_iff hcopied hblank hclose).1 h
        obtain ⟨t, rfl, ht⟩ := ih _ (by omega) hw hs' rfl
        exact ⟨t, rfl, ht⟩

theorem toJson_plain_append (hw : ∀ c ∈ w, isPlain c = true)
    (hrest : s.head?.any isWordRest = false)
    (hkey : firstInk? s ≠ some ':') : toJson (w ++ s) = w ++ toJson s := by
  induction hn : w.length using Nat.strongRecOn generalizing w with
  | ind n ih =>
    cases w with
    | nil => rfl
    | cons c w =>
      obtain ⟨hc, hw⟩ := List.forall_mem_cons.1 hw
      rw [List.length_cons] at hn
      by_cases hstart : isWordStart c = true
      · -- the longest word that starts here, and what is left of the plain text behind it
        obtain ⟨word, v, rfl, hword, hv⟩ := Text.exists_span isWordRest w
        have hstop : (v ++ s).head?.any isWordRest = false ∧ firstInk? (v ++ s) ≠ some ':' := by
          cases v with
          | nil => exact ⟨hrest, hkey⟩
          | cons d v =>
            have hd : isPlain d = true := hw d (by simp)
            have hdrest : isWordRest d = false := by simpa using hv
            have hdstart : isWordStart d = false := by
              refine Bool.eq_false_iff.2 fun h => ?_
              rw [Text.isWordRest_of_isWordStart h] at hdrest
              cases hdrest
            refine ⟨by simpa using hdrest, ?_⟩
            rw [List.cons_append, firstInk?_cons (isCopied_of_isPlain hd hdstart).2.1]
            rintro ⟨⟩
            cases hd
        have hrec : toJson (v ++ s) = v ++ toJson s :=
          ih v.length (by simp at hn; omega) (fun c hc => hw c (by simp [hc])) rfl
        rw [List.cons_append, List.append_assoc, ← List.cons_append,
          toJson_word (.mk hstart hword) hstop.1, if_neg hstop.2, hrec]
        simp
      · obtain ⟨hcopied, -⟩ := isCopied_of_isPlain hc (Bool.eq_false_iff.2 hstart)
        rw [List.cons_append, toJson_cons hcopied, ih _ (by omega) hw rfl, List.cons_append]

/-! ## The body of a string -/

section Copied

variable {e raw value : Text} {n : Nat}

theorem copied_nil (q : Char) : copied q [] = [] := by
  rw [copied, string, toJson_nil, List.append_nil]

theorem copied_backslash (q : Char) : copied q ['\\'] = ['\\'] := by
  rw [copied, string, toJson_nil, List.append_nil]

theorem copied_apostrophe (q : Char) (s : Text) :
    copied q ('\\' :: '\'' :: s) = '\'' :: copied q s := by
  rw [copied, string]
  rfl

theorem copied_escaped (hc : c ≠ '\'') (q : Char) (s : Text) :
    copied q ('\\' :: c :: s) = '\\' :: c :: copied q s := by
  rw [copied, string]
  simp only [if_neg hc]
  rfl

theorem copied_quote (hq : q = '\'' ∨ q = '"') (s : Text) :
    copied q (q :: s) = '"' :: toJson s := by
  rcases hq with rfl | rfl <;> rfl

theorem copied_double (hq : q ≠ '"') (s : Text) :
    copied q ('"' :: s) = '\\' :: '"' :: copied q s := by
  rw [copied, string.eq_4 _ _ _ (by simp) (by simp)]
  simp only [if_neg hq.symm]
  rfl

theorem copied_cons (hc : c ≠ '\\') (hq : c ≠ q) (hd : c ≠ '"') (s : Text) :
    copied q (c :: s) = c :: copied q s := by
  rw [copied, string.eq_4 _ _ _ (by simp [hc]) (by simp [hc])]
  simp only [if_neg hq, if_neg hd]
  rfl

/-- How the rewritten body of a string comes to start with `c` and to go on with `y`. -/
inductive BodyStarts (q : Char) : (s : Text) → (c : Char) → (y : Text) → Prop
  | escaped {c : Char} {s : Text} (hc : c ≠ '\'') :
      BodyStarts q ('\\' :: c :: s) '\\' (c :: copied q s)
  | backslash : BodyStarts q ['\\'] '\\' []
  | apostrophe {s : Text} : BodyStarts q ('\\' :: '\'' :: s) '\'' (copied q s)
  | quote {s : Text} : BodyStarts q (q :: s) '"' (toJson s)
  | double {s : Text} (hq : q ≠ '"') : BodyStarts q ('"' :: s) '\\' ('"' :: copied q s)
  | same {c : Char} {s : Text} (hc : c ≠ '\\') (hq : c ≠ q) (hd : c ≠ '"') :
      BodyStarts q (c :: s) c (copied q s)

theorem bodyStarts_of_copied (hq : q = '\'' ∨ q = '"') (h : copied q s = c :: y) :
    BodyStarts q s c y := by
  cases s with
  | nil =>
    rw [copied_nil] at h
    cases h
  | cons d s =>
    by_cases hescape : d = '\\'
    · subst hescape
      cases s with
      | nil =>
        rw [copied_backslash] at h
        cases h
        exact .backslash
      | cons d s =>
        by_cases hd : d = '\''
        · subst hd
          rw [copied_apostrophe] at h
          cases h
          exact .apostrophe
        · rw [copied_escaped hd] at h
          cases h
          exact .escaped hd
    by_cases hclose : d = q
    · subst hclose
      rw [copied_quote hq] at h
      cases h
      exact .quote
    by_cases hdouble : d = '"'
    · subst hdouble
      rw [copied_double (Ne.symm hclose)] at h
      cases h
      exact .double (Ne.symm hclose)
    · rw [copied_cons hescape hclose hdouble] at h
      cases h
      exact .same hescape hclose hdouble

theorem copied_eq_cons (hq : q = '\'' ∨ q = '"') (hc : c ≠ '\\') (hd : c ≠ '"')
    (h : copied q s = c :: y) : (∃ s', s = c :: s' ∧ c ≠ q ∧ copied q s' = y) ∨
      c = '\'' ∧ ∃ s', s = '\\' :: '\'' :: s' ∧ copied q s' = y := by
  cases bodyStarts_of_copied hq h with
  | escaped | backslash | double => exact absurd rfl hc
  | apostrophe => exact .inr ⟨rfl, _, rfl, rfl⟩
  | quote => exact absurd rfl hd
  | same _ hne => exact .inl ⟨_, rfl, hne, rfl⟩

theorem copied_eq_quote (hq : q = '\'' ∨ q = '"') (h : copied q s = '"' :: y) :
    ∃ s', s = q :: s' ∧ toJson s' = y := by
  generalize hb : '"' = b at h
  cases bodyStarts_of_copied hq h with
  | escaped | backslash | apostrophe | double => cases hb
  | quote => exact ⟨_, rfl, rfl⟩
  | same _ _ hd => exact absurd hb.symm hd

theorem copied_eq_backslash (hq : q = '\'' ∨ q = '"') (h : copied q s = '\\' :: c :: y) :
    (∃ s', s = '\\' :: c :: s' ∧ copied q s' = y) ∨
      c = '"' ∧ q ≠ '"' ∧ ∃ s', s = '"' :: s' ∧ copied q s' = y := by
  generalize hb : '\\' = b at h
  generalize hz : c :: y = z at h
  cases bodyStarts_of_copied hq h with
  | escaped =>
    obtain ⟨rfl, rfl⟩ := List.cons.inj hz
    exact .inl ⟨_, rfl, rfl⟩
  | backslash => cases hz
  | apostrophe | quote => cases hb
  | double hne =>
    obtain ⟨rfl, rfl⟩ := List.cons.inj hz
    exact .inr ⟨rfl, hne, _, rfl, rfl⟩
  | same hc => exact absurd hb.symm hc

/-! ## Escapes -/

theorem ne_of_isCodeUnit {c₁ c₂ c₃ c₄ : Char} (h : IsCodeUnit c₁ c₂ c₃ c₄ n) :
    ∀ c ∈ [c₁, c₂, c₃, c₄], c ≠ '\\' ∧ c ≠ '"' ∧ c ≠ '\'' := by
  intro c hc
  obtain ⟨m, hm⟩ := h.isHexDigit c hc
  exact ⟨hm.ne rfl, hm.ne rfl, hm.ne rfl⟩

theorem copied_append (hq : q = '\'' ∨ q = '"') (hw : ∀ c ∈ w, c ≠ '\\' ∧ c ≠ '"' ∧ c ≠ '\'')
    (s : Text) : copied q (w ++ s) = w ++ copied q s := by
  induction w with
  | nil => rfl
  | cons c w ih =>
    obtain ⟨⟨hescape, hdouble, hsingle⟩, hw⟩ := List.forall_mem_cons.1 hw
    have hclose : c ≠ q := by rcases hq with rfl | rfl <;> assumption
    rw [List.cons_append, copied_cons hescape hclose hdouble, ih hw, List.cons_append]

theorem copied_eq_append (hq : q = '\'' ∨ q = '"') (hw : ∀ c ∈ w, c ≠ '\\' ∧ c ≠ '"' ∧ c ≠ '\'')
    (h : copied q s = w ++ y) : ∃ s', s = w ++ s' ∧ copied q s' = y := by
  induction w generalizing s with
  | nil => exact ⟨s, rfl, h⟩
  | cons c w ih =>
    obtain ⟨⟨hescape, hdouble, hsingle⟩, hw⟩ := List.forall_mem_cons.1 hw
    obtain ⟨s', rfl, -, hs'⟩ | ⟨heq, -⟩ := copied_eq_cons hq hescape hdouble h
    · obtain ⟨t, rfl, ht⟩ := ih hw hs'
      exact ⟨t, rfl, ht⟩
    · exact absurd heq hsingle

theorem copied_unit {c₁ c₂ c₃ c₄ : Char} (hq : q = '\'' ∨ q = '"')
    (h : IsCodeUnit c₁ c₂ c₃ c₄ n) (s : Text) :
    copied q (['\\', 'u', c₁, c₂, c₃, c₄] ++ s) = ['\\', 'u', c₁, c₂, c₃, c₄] ++ copied q s :=
  (copied_escaped (by decide) q _).trans
    (congrArg ('\\' :: 'u' :: ·) (copied_append hq (ne_of_isCodeUnit h) s))

theorem copied_eq_unit {c₁ c₂ c₃ c₄ : Char} (hq : q = '\'' ∨ q = '"')
    (h : IsCodeUnit c₁ c₂ c₃ c₄ n) (hs : copied q s = ['\\', 'u', c₁, c₂, c₃, c₄] ++ y) :
    ∃ s', s = ['\\', 'u', c₁, c₂, c₃, c₄] ++ s' ∧ copied q s' = y := by
  obtain ⟨s', rfl, hs'⟩ | ⟨hu, -⟩ := copied_eq_backslash hq hs
  · obtain ⟨t, rfl, ht⟩ := copied_eq_append (w := [c₁, c₂, c₃, c₄]) hq (ne_of_isCodeUnit h) hs'
    exact ⟨t, rfl, ht⟩
  · cases hu

theorem copied_escape_append (hq : q = '\'' ∨ q = '"') (he : Escape e c) (s : Text) :
    copied q (e ++ s) = e ++ copied q s := by
  cases he with
  | @letter e c hc =>
    have he : e ≠ '\'' := by
      rintro rfl
      exact absurd hc (by simp [escapes])
    exact copied_escaped he q s
  | unit hn => exact copied_unit hq hn s
  | pair hhigh hlow =>
    exact (copied_unit hq hhigh _).trans
      (congrArg (['\\', 'u', _, _, _, _] ++ ·) (copied_unit hq hlow s))

theorem copied_eq_escape_append (hq : q = '\'' ∨ q = '"') (he : Escape e c)
    (h : copied q s = e ++ y) : (∃ s', s = e ++ s' ∧ copied q s' = y) ∨
      c = '"' ∧ q ≠ '"' ∧ ∃ s', s = '"' :: s' ∧ copied q s' = y := by
  cases he with
  | @letter e c hc =>
    obtain hsame | ⟨rfl, hdouble⟩ := copied_eq_backslash hq h
    · exact .inl hsame
    · have hc : c = '"' := by simpa [escapes] using hc
      exact .inr ⟨hc, hdouble⟩
  | unit hn => exact .inl (copied_eq_unit hq hn h)
  | pair hhigh hlow =>
    obtain ⟨s', rfl, hs'⟩ := copied_eq_unit hq hhigh h
    obtain ⟨t, rfl, ht⟩ := copied_eq_unit hq hlow hs'
    exact .inl ⟨t, rfl, ht⟩

/-! ## Strings -/

theorem copied_eq_quoted_append_iff (hq : q = '\'' ∨ q = '"') :
    (∃ raw, Quoted .strict '"' raw value ∧ copied q s = raw ++ '"' :: x) ↔
      ∃ raw s', Quoted .relaxed q raw value ∧ s = raw ++ q :: s' ∧ toJson s' = x := by
  constructor
  · rintro ⟨raw, hraw, h⟩
    induction hraw generalizing s with
    | nil =>
      obtain ⟨s', rfl, hs'⟩ := copied_eq_quote hq h
      exact ⟨[], s', .nil, rfl, hs'⟩
    | plain hdouble hescape hcontrol _ ih =>
      obtain ⟨s', rfl, hclose, hs'⟩ | ⟨rfl, s', rfl, hs'⟩ := copied_eq_cons hq hescape hdouble h
      · obtain ⟨raw, t, hraw, rfl, ht⟩ := ih hs'
        exact ⟨_, t, .plain hclose hescape hcontrol hraw, rfl, ht⟩
      · obtain ⟨raw, t, hraw, rfl, ht⟩ := ih hs'
        exact ⟨_, t, .apostrophe rfl hraw, rfl, ht⟩
    | escape he _ ih =>
      rw [List.append_assoc] at h
      obtain ⟨s', rfl, hs'⟩ | ⟨rfl, hclose, s', rfl, hs'⟩ := copied_eq_escape_append hq he h
      · obtain ⟨raw, t, hraw, rfl, ht⟩ := ih hs'
        exact ⟨_, t, .escape he hraw, by simp, ht⟩
      · obtain ⟨raw, t, hraw, rfl, ht⟩ := ih hs'
        exact ⟨_, t, .plain hclose.symm (by decide) (by decide) hraw, rfl, ht⟩
    | apostrophe hd => cases hd
  · rintro ⟨raw, s', hraw, rfl, rfl⟩
    induction hraw with
    | nil => exact ⟨[], .nil, copied_quote hq s'⟩
    | @plain c s value hclose hescape hcontrol _ ih =>
      obtain ⟨raw, hraw, h⟩ := ih
      -- a double quote that stands bare between single quotes is escaped
      by_cases hdouble : c = '"'
      · subst hdouble
        refine ⟨_, .escape (.letter (e := '"') (by decide)) hraw, ?_⟩
        rw [List.cons_append, copied_double hclose.symm, h]
        rfl
      · refine ⟨_, .plain hdouble hescape hcontrol hraw, ?_⟩
        rw [List.cons_append, copied_cons hescape hclose hdouble, h, List.cons_append]
    | escape he _ ih =>
      obtain ⟨raw, hraw, h⟩ := ih
      refine ⟨_, .escape he hraw, ?_⟩
      rw [List.append_assoc, copied_escape_append hq he, h, List.append_assoc]
    | apostrophe _ _ ih =>
      obtain ⟨raw, hraw, h⟩ := ih
      refine ⟨_, .plain (by decide) (by decide) (by decide) hraw, ?_⟩
      rw [List.cons_append, List.cons_append, copied_apostrophe, h, List.cons_append]

theorem isWordRest_ne (hc : isWordRest c = true) : c ≠ '"' ∧ c ≠ '\\' ∧ 0x20 ≤ c.toNat := by
  refine ⟨?_, ?_, Text.le_toNat_of_isWordRest hc⟩
  all_goals
    rintro rfl
    cases hc

theorem quoted_of_isWordRest (hword : ∀ c ∈ word, isWordRest c = true) :
    Quoted .strict '"' word word := by
  induction word with
  | nil => exact .nil
  | cons c word ih =>
    obtain ⟨hc, hword⟩ := List.forall_mem_cons.1 hword
    obtain ⟨hquote, hescape, hcontrol⟩ := isWordRest_ne hc
    exact .plain hquote hescape hcontrol (ih hword)

theorem eq_of_quoted_of_isWordRest (hraw : Quoted .strict '"' raw value)
    (hword : ∀ c ∈ word, isWordRest c = true) (h : word ++ '"' :: y = raw ++ '"' :: x) :
    value = word ∧ raw = word ∧ y = x := by
  induction hraw generalizing word with
  | nil =>
    cases word with
    | nil => exact ⟨rfl, rfl, (List.cons.inj h).2⟩
    | cons c word =>
      obtain ⟨rfl, -⟩ := List.cons.inj h
      exact absurd rfl (isWordRest_ne (hword _ (by simp))).1
  | plain hquote _ _ _ ih =>
    cases word with
    | nil => exact absurd (List.cons.inj h).1.symm hquote
    | cons c word =>
      obtain ⟨rfl, htail⟩ := List.cons.inj h
      obtain ⟨rfl, rfl, rfl⟩ := ih (fun c hc => hword c (List.mem_cons_of_mem _ hc)) htail
      exact ⟨rfl, rfl, rfl⟩
  | escape he =>
    obtain ⟨t, rfl⟩ := he.head?
    cases word with
    | nil => cases (List.cons.inj h).1
    | cons c word => exact absurd (List.cons.inj h).1 (isWordRest_ne (hword c (by simp))).2.1
  | apostrophe hd => cases hd

theorem toJson_eq_quote (h : toJson s = '"' :: y) :
    (∃ q s', (q = '\'' ∨ q = '"') ∧ s = q :: s' ∧ copied q s' = y) ∨
      ∃ word rest, IsWord word ∧ firstInk? rest = some ':' ∧ s = word ++ rest ∧
        word ++ '"' :: toJson rest = y := by
  generalize hb : '"' = b at h
  cases starts_of_toJson h with
  | quote hq => exact .inl ⟨_, _, hq, rfl, rfl⟩
  | comma => cases hb
  | dropped hs h =>
    obtain ⟨d, z, hjson, hd⟩ := hs.toJson_eq_cons
    rw [h, ← hb] at hjson
    obtain ⟨rfl, -⟩ := List.cons.inj hjson
    rcases hd with hd | hd | hd <;> cases hd
  | key hword _ hkey => exact .inr ⟨_, _, hword, hkey, rfl, rfl⟩
  | word hword =>
    have hstart := isWordStart_of_isWord hword
    rw [← hb] at hstart
    cases hstart
  | same hc => exact absurd hb.symm hc.2.1

theorem isWordRest_of_isWord (h : IsWord word) : ∀ c ∈ word, isWordRest c = true := by
  cases h with
  | mk hc hs => exact List.forall_mem_cons.2 ⟨Text.isWordRest_of_isWordStart hc, hs⟩

theorem head?_of_firstInk?_eq_colon (h : firstInk? s = some ':') :
    s.head?.any isWordRest = false := by
  obtain ⟨w, t, rfl, hw, -⟩ := firstInk?_eq_some h
  cases w with
  | nil => rfl
  | cons c w => simpa using Text.isWordRest_of_isBlank (hw c (by simp))

/-- A string comes from a string of the relaxed dialect or from a bare word before a colon. -/
theorem toJson_eq_string_append_iff :
    (∃ u, IsString .strict u value ∧ toJson s = u ++ x) ↔
      (∃ u s', IsString .relaxed u value ∧ s = u ++ s' ∧ toJson s' = x) ∨
        ∃ s', IsWord value ∧ s = value ++ s' ∧ firstInk? s' = some ':' ∧ toJson s' = x := by
  constructor
  · rintro ⟨u, hu, h⟩
    cases hu with
    | single hd => cases hd
    | @double raw _ hraw =>
      rw [List.cons_append, List.append_assoc, List.singleton_append] at h
      obtain ⟨q, s', hq, rfl, hbody⟩ | ⟨word, rest, hword, hkey, rfl, hbody⟩ := toJson_eq_quote h
      · left
        obtain ⟨raw', t, hraw', rfl, ht⟩ :=
          (copied_eq_quoted_append_iff hq).1 ⟨raw, hraw, hbody⟩
        -- single quotes become double ones
        rcases hq with rfl | rfl
        · exact ⟨_, t, .single rfl hraw', by simp, ht⟩
        · exact ⟨_, t, .double hraw', by simp, ht⟩
      · right
        obtain ⟨rfl, -, hrest⟩ := eq_of_quoted_of_isWordRest hraw (isWordRest_of_isWord hword) hbody
        exact ⟨rest, hword, rfl, hkey, hrest⟩
  · rintro (⟨u, s', hu, rfl, rfl⟩ | ⟨s', hword, rfl, hkey, rfl⟩)
    · cases hu with
      | @double raw _ hraw =>
        obtain ⟨raw', hraw', h⟩ :=
          (copied_eq_quoted_append_iff (.inr rfl)).2 ⟨raw, s', hraw, rfl, rfl⟩
        refine ⟨_, .double hraw', ?_⟩
        rw [List.cons_append, List.append_assoc, List.singleton_append, toJson_quote (.inr rfl), h]
        simp
      | @single raw _ _ hraw =>
        obtain ⟨raw', hraw', h⟩ :=
          (copied_eq_quoted_append_iff (.inl rfl)).2 ⟨raw, s', hraw, rfl, rfl⟩
        refine ⟨_, .double hraw', ?_⟩
        rw [List.cons_append, List.append_assoc, List.singleton_append, toJson_quote (.inl rfl), h]
        simp
    · refine ⟨_, .double (quoted_of_isWordRest (isWordRest_of_isWord hword)), ?_⟩
      rw [toJson_word hword (head?_of_firstInk?_eq_colon hkey), if_pos hkey]
      simp

end Copied

end PropCatalog.Literal.Relaxed
