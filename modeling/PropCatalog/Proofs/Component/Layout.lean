import PropCatalog.Component.Entries
import PropCatalog.Proofs.Literal.Simple
import PropCatalog.Proofs.Text.Nesting

/-!
# The layout of an entry

The reader of entries puts an entry on one line: white space with a line break in it becomes one
space, and everything else is kept. `Takes k t t'` tells that the text `t`, at a bracket depth of at
least `k`, is taken as `t'`. A simple literal is taken as a text of the same value
(`exists_takes_isDefault`), since white space stands only between the parts of containers, where any
other will do.
-/

namespace PropCatalog.Component

open PropCatalog.Bracket (isOpener isCloser)
open Json (Spaces Ending Parts Inside IsString IsName)
open Literal (IsInteger IsSimpleLeaf IsSimpleField IsSimpleContainer IsSimple IsDefault)

variable {k d : Nat} {a a' b b' r s t t' w : Text} {c quote : Char}

/-! ## The equations of the reader -/

theorem entriesFrom_code_cons (p : Pending) (d : Nat) (c : Char) (s : Text) :
    entriesFrom p d .code (c :: s) =
      if isQuote c then entriesFrom (p.push c) d (.quoted c) s
      else if c = '/' && s.head? = some '/' then entriesFrom p d .comment s
      else if c = ',' && d = 0 then p.finish ++ entriesFrom .empty d .code s
      else if c = '\n' then entriesFrom p.endLine d .code s
      else entriesFrom (p.push c) (Bracket.depth d c) .code s := (rfl)

theorem entriesFrom_quoted_cons (p : Pending) (d : Nat) (quote c : Char) (s : Text) :
    entriesFrom p d (.quoted quote) (c :: s) =
      entriesFrom (p.push c) d
        (if c = '\\' then .escaped quote else if c = quote then .code else .quoted quote) s := (rfl)

theorem entriesFrom_escaped_cons (p : Pending) (d : Nat) (quote c : Char) (s : Text) :
    entriesFrom p d (.escaped quote) (c :: s) = entriesFrom (p.push c) d (.quoted quote) s := (rfl)

/-! ## Single characters -/

/-- What has been read, with the space that is due. -/
def Pending.settled (p : Pending) : Text :=
  if p.spaceDue && !p.reversed.isEmpty then ' ' :: p.reversed else p.reversed

@[simp] theorem Pending.settled_mk_false (r : Text) : Pending.settled ⟨r, false⟩ = r := rfl

theorem Pending.push_of_not_blank (hc : Text.isBlank c = false) (p : Pending) :
    p.push c = ⟨c :: p.settled, false⟩ := by
  rw [push, settled, hc, Bool.false_and, if_neg Bool.false_ne_true]
  split <;> rfl

/-- A character that is nothing but a part of an entry. -/
def isInk (c : Char) : Bool :=
  !Text.isBlank c && !isQuote c && !isOpener c && !isCloser c && c ≠ '/' && c ≠ ','

theorem entriesFrom_ink (hc : isInk c = true) (p : Pending) (d : Nat) (s : Text) :
    entriesFrom p d .code (c :: s) = entriesFrom ⟨c :: p.settled, false⟩ d .code s := by
  simp only [isInk, Bool.and_eq_true, Bool.not_eq_true', decide_eq_true_eq] at hc
  obtain ⟨⟨⟨⟨⟨hblank, hquote⟩, hopener⟩, hcloser⟩, hslash⟩, hcomma⟩ := hc
  have hnewline : c ≠ '\n' := by
    rintro rfl
    cases hblank
  rw [entriesFrom_code_cons, hquote, if_neg Bool.false_ne_true, if_neg (by simp [hslash]),
    if_neg (by simp [hcomma]), if_neg hnewline, Bracket.depth_plain hopener hcloser,
    Pending.push_of_not_blank hblank]

theorem entriesFrom_comma (p : Pending) (d : Nat) (s : Text) :
    entriesFrom p (d + 1) .code (',' :: s) =
      entriesFrom ⟨',' :: p.settled, false⟩ (d + 1) .code s := by
  have hblank : Text.isBlank ',' = false := rfl
  rw [entriesFrom_code_cons, if_neg (by decide), if_neg (by simp), if_neg (by simp),
    if_neg (by decide), Pending.push_of_not_blank hblank, Bracket.depth_plain rfl rfl]

theorem entriesFrom_bracket (hc : isOpener c = true ∨ isCloser c = true) (p : Pending) (d : Nat)
    (s : Text) : entriesFrom p d .code (c :: s) =
      entriesFrom ⟨c :: p.settled, false⟩ (Bracket.depth d c) .code s := by
  have hclass : isQuote c = false ∧ c ≠ '/' ∧ c ≠ ',' ∧ c ≠ '\n' ∧ Text.isBlank c = false := by
    simp only [isOpener, isCloser, Bool.or_eq_true, decide_eq_true_eq] at hc
    rcases hc with ((rfl | rfl) | rfl) | ((rfl | rfl) | rfl) <;> decide
  obtain ⟨hquote, hslash, hcomma, hnewline, hblank⟩ := hclass
  rw [entriesFrom_code_cons, hquote, if_neg Bool.false_ne_true, if_neg (by simp [hslash]),
    if_neg (by simp [hcomma]), if_neg hnewline, Pending.push_of_not_blank hblank]

theorem entriesFrom_opener (hc : isOpener c = true) (p : Pending) (d : Nat) (s : Text) :
    entriesFrom p d .code (c :: s) = entriesFrom ⟨c :: p.settled, false⟩ (d + 1) .code s := by
  rw [entriesFrom_bracket (.inl hc), Bracket.depth, if_pos hc]

theorem entriesFrom_closer (hc : isCloser c = true) (p : Pending) (d : Nat) (s : Text) :
    entriesFrom p (d + 1) .code (c :: s) = entriesFrom ⟨c :: p.settled, false⟩ d .code s := by
  have hopener : isOpener c = false := by
    simp only [isCloser, Bool.or_eq_true, decide_eq_true_eq] at hc
    rcases hc with (rfl | rfl) | rfl <;> rfl
  rw [entriesFrom_bracket (.inr hc), Bracket.depth, hopener, if_neg Bool.false_ne_true, if_pos hc,
    Nat.add_sub_cancel]

/-! ## Texts -/

/-- At a bracket depth of at least `k`, the text `t` is taken as `t'`, which does not end with a
blank. -/
structure Takes (k : Nat) (t t' : Text) : Prop where
  entriesFrom_append : ∀ p d s, k ≤ d → entriesFrom p d .code (t ++ s) =
    entriesFrom ⟨t'.reverse ++ p.settled, false⟩ d .code s
  last : t'.getLast?.all Text.isBlank = false

theorem Takes.mono {k' : Nat} (hk : k ≤ k') (h : Takes k t t') : Takes k' t t' :=
  ⟨fun p d s hd => h.entriesFrom_append p d s (hk.trans hd), h.last⟩

theorem last_append (ha : a.getLast?.all Text.isBlank = false) (r : Text) :
    (a.reverse ++ r).head?.all Text.isBlank = false := by
  rw [List.head?_append, List.head?_reverse]
  cases h : a.getLast? with
  | none =>
    rw [h] at ha
    cases ha
  | some c =>
    rw [h] at ha
    exact ha

theorem getLast?_append_all (hb : b.getLast?.all Text.isBlank = false) (a : Text) :
    (a ++ b).getLast?.all Text.isBlank = false := by
  rw [List.getLast?_append]
  cases h : b.getLast? with
  | none =>
    rw [h] at hb
    cases hb
  | some c =>
    rw [h] at hb
    exact hb

theorem Takes.append (ha : Takes k a a') (hb : Takes k b b') : Takes k (a ++ b) (a' ++ b') := by
  refine ⟨fun p d s hd => ?_, getLast?_append_all hb.last a'⟩
  rw [List.append_assoc, ha.entriesFrom_append p d _ hd, hb.entriesFrom_append _ d s hd,
    Pending.settled_mk_false, List.reverse_append, List.append_assoc]

theorem takes_of_isInk (hc : isInk c = true) : Takes 0 [c] [c] := by
  refine ⟨fun p d s _ => entriesFrom_ink hc p d s, ?_⟩
  simp only [isInk, Bool.and_eq_true, Bool.not_eq_true'] at hc
  exact hc.1.1.1.1.1

theorem takes_ink (hne : t ≠ []) (h : ∀ c ∈ t, isInk c = true) : Takes 0 t t := by
  induction t with
  | nil => exact absurd rfl hne
  | cons c t ih =>
    obtain ⟨hc, ht⟩ := List.forall_mem_cons.1 h
    cases t with
    | nil => exact takes_of_isInk hc
    | cons e t => exact (takes_of_isInk hc).append (ih (by simp) ht)

theorem takes_word (h : t.all isInk = true) (hne : t ≠ []) : Takes 0 t t :=
  takes_ink hne (List.all_eq_true.1 h)

theorem takes_comma : Takes 1 [','] [','] := by
  refine ⟨fun p d s hd => ?_, rfl⟩
  obtain ⟨d, rfl⟩ := Nat.exists_eq_add_of_le' hd
  exact entriesFrom_comma p d s

/-! ## Strings -/

/-- A text between quotes in which the quote stands only behind a backslash. -/
inductive IsBody (quote : Char) : Text → Prop
  | nil : IsBody quote []
  | plain {c : Char} {s : Text} (hquote : c ≠ quote) (hescape : c ≠ '\\') (hs : IsBody quote s) :
      IsBody quote (c :: s)
  | escaped {c : Char} {s : Text} (hs : IsBody quote s) : IsBody quote ('\\' :: c :: s)

theorem Pending.push_quoted (hr : r ≠ []) (c : Char) :
    Pending.push ⟨r, false⟩ c = ⟨c :: r, false⟩ := by
  have hempty : r.isEmpty = false := by simpa using hr
  simp [push, hempty]

theorem entriesFrom_body (h : IsBody quote b) (hquote : quote ≠ '\\') (hr : r ≠ []) (d : Nat)
    (s : Text) : entriesFrom ⟨r, false⟩ d (.quoted quote) (b ++ quote :: s) =
      entriesFrom ⟨quote :: (b.reverse ++ r), false⟩ d .code s := by
  induction h generalizing r with
  | nil =>
    rw [List.nil_append, entriesFrom_quoted_cons, Pending.push_quoted hr, if_neg hquote,
      if_pos rfl, List.reverse_nil, List.nil_append]
  | @plain c b hne hescape _ ih =>
    rw [List.cons_append, entriesFrom_quoted_cons, Pending.push_quoted hr, if_neg hescape,
      if_neg hne, ih (by simp), List.reverse_cons, List.append_assoc, List.singleton_append]
  | @escaped c b _ ih =>
    rw [List.cons_append, List.cons_append, entriesFrom_quoted_cons, Pending.push_quoted hr,
      if_pos rfl, entriesFrom_escaped_cons, Pending.push_quoted (by simp), ih (by simp),
      List.reverse_cons, List.reverse_cons, List.append_assoc, List.append_assoc,
      List.singleton_append, List.singleton_append]

theorem takes_quoted (hquote : isQuote quote = true) (h : IsBody quote b) :
    Takes 0 (quote :: (b ++ [quote])) (quote :: (b ++ [quote])) := by
  have hclass : quote ≠ '\\' ∧ Text.isBlank quote = false := by
    simp only [isQuote, Bool.or_eq_true, decide_eq_true_eq] at hquote
    rcases hquote with (rfl | rfl) | rfl <;> decide
  refine ⟨fun p d s _ => ?_, ?_⟩
  · rw [List.cons_append, List.append_assoc, List.singleton_append, entriesFrom_code_cons,
      if_pos hquote, Pending.push_of_not_blank hclass.2, entriesFrom_body h hclass.1 (by simp)]
    simp
  · rw [← List.cons_append, List.getLast?_concat]
    exact hclass.2

theorem IsBody.plain_append (hw : ∀ c ∈ w, c ≠ quote ∧ c ≠ '\\') (h : IsBody quote b) :
    IsBody quote (w ++ b) := by
  induction w with
  | nil => exact h
  | cons c w ih =>
    obtain ⟨hc, hw⟩ := List.forall_mem_cons.1 hw
    exact .plain hc.1 hc.2 (ih hw)

theorem isBody_of_quoted {value : Text} (hquote : quote = '"' ∨ quote = '\'')
    (h : Json.Quoted .relaxed quote b value) : IsBody quote b := by
  have hunit : ∀ {c₁ c₂ c₃ c₄ : Char} {n : Nat} {b : Text},
      Json.IsCodeUnit c₁ c₂ c₃ c₄ n → IsBody quote b →
        IsBody quote ('\\' :: 'u' :: ([c₁, c₂, c₃, c₄] ++ b)) := by
    intro c₁ c₂ c₃ c₄ n b hn hb
    refine .escaped (.plain_append (fun c hc => ?_) hb)
    obtain ⟨hescape, hdouble, hsingle⟩ := Literal.Relaxed.ne_of_isCodeUnit hn c hc
    rcases hquote with rfl | rfl
    · exact ⟨hdouble, hescape⟩
    · exact ⟨hsingle, hescape⟩
  induction h with
  | nil => exact .nil
  | plain hne hescape _ _ ih => exact .plain hne hescape ih
  | escape he _ ih =>
    cases he with
    | letter => exact .escaped ih
    | unit hn => exact hunit hn ih
    | pair hhigh hlow => exact hunit hhigh (hunit hlow ih)
  | apostrophe _ _ ih => exact .escaped ih

theorem takes_isString {value : Text} (h : IsString .relaxed s value) : Takes 0 s s := by
  cases h with
  | double hs => exact takes_quoted (by decide) (isBody_of_quoted (.inl rfl) hs)
  | single _ hs => exact takes_quoted (by decide) (isBody_of_quoted (.inr rfl) hs)

/-! ## White space -/

/-- White space as it is taken: one space in the place of line breaks and what is around them. -/
def oneLine (w : Text) : Text :=
  if '\n' ∈ w then [' '] else w

theorem spaces_oneLine (hw : Spaces w) : Spaces (oneLine w) := by
  unfold oneLine
  split
  · simp [Spaces, Json.isSpace]
  · exact hw

theorem entriesFrom_space (hc : Json.isSpace c = true) (hne : c ≠ '\n') (p : Pending) (d : Nat)
    (s : Text) : entriesFrom p d .code (c :: s) = entriesFrom (p.push c) d .code s := by
  have hclass : isQuote c = false ∧ c ≠ '/' ∧ c ≠ ',' ∧ isOpener c = false ∧
      isCloser c = false := by
    simp only [Json.isSpace, Bool.or_eq_true, decide_eq_true_eq] at hc
    rcases hc with ((rfl | rfl) | rfl) | rfl <;> decide
  obtain ⟨hquote, hslash, hcomma, hopener, hcloser⟩ := hclass
  rw [entriesFrom_code_cons, hquote, if_neg Bool.false_ne_true, if_neg (by simp [hslash]),
    if_neg (by simp [hcomma]), if_neg hne, Bracket.depth_plain hopener hcloser]

theorem entriesFrom_newline (p : Pending) (d : Nat) (s : Text) :
    entriesFrom p d .code ('\n' :: s) = entriesFrom p.endLine d .code s := (rfl)

theorem entriesFrom_spaceDue (hw : Spaces w) (hr : r.head?.all Text.isBlank = false) (d : Nat)
    (s : Text) : entriesFrom ⟨r, true⟩ d .code (w ++ s) = entriesFrom ⟨r, true⟩ d .code s := by
  have hline : Pending.endLine ⟨r, true⟩ = ⟨r, true⟩ := by
    rw [Pending.endLine, Text.dropWhile_eq_self]
    cases r <;> simp_all
  induction w with
  | nil => rfl
  | cons c w ih =>
    obtain ⟨hc, hw⟩ := List.forall_mem_cons.1 hw
    rw [List.cons_append]
    by_cases hne : c = '\n'
    · rw [hne, entriesFrom_newline, hline, ih hw]
    · have hpush : Pending.push ⟨r, true⟩ c = ⟨r, true⟩ := by
        simp [Pending.push, Json.isBlank_of_isSpace hc]
      rw [entriesFrom_space hc hne, hpush, ih hw]

theorem entriesFrom_spaces (hw : Spaces w) (hr : r.head?.all Text.isBlank = false) (d : Nat)
    (s : Text) : ∃ p, entriesFrom ⟨r, false⟩ d .code (w ++ s) = entriesFrom p d .code s ∧
      p.settled = (oneLine w).reverse ++ r := by
  have hne : r ≠ [] := by
    rintro rfl
    cases hr
  -- the blanks `u` are those read since the last character that is none
  have hgo : ∀ u : Text, (∀ c ∈ u, Text.isBlank c = true) →
      entriesFrom ⟨u ++ r, false⟩ d .code (w ++ s) =
        entriesFrom (if '\n' ∈ w then ⟨r, true⟩ else ⟨w.reverse ++ (u ++ r), false⟩) d .code s := by
    induction w with
    | nil =>
      intro u _
      rfl
    | cons c w ih =>
      intro u hu
      obtain ⟨hc, hw⟩ := List.forall_mem_cons.1 hw
      rw [List.cons_append]
      by_cases hbreak : c = '\n'
      · have hline : Pending.endLine ⟨u ++ r, false⟩ = ⟨r, true⟩ := by
          rw [Pending.endLine, List.dropWhile_append_of_pos hu, Text.dropWhile_eq_self]
          cases r <;> simp_all
        rw [hbreak, entriesFrom_newline, hline, entriesFrom_spaceDue hw hr, if_pos (by simp)]
      · have hblank := Json.isBlank_of_isSpace hc
        rw [entriesFrom_space hc hbreak, Pending.push_quoted (by simp [hne]), ← List.cons_append,
          ih hw (c :: u) (List.forall_mem_cons.2 ⟨hblank, hu⟩)]
        simp [Ne.symm hbreak]
  have hstart := hgo [] (by simp)
  rw [List.nil_append] at hstart
  refine ⟨_, hstart, ?_⟩
  unfold oneLine
  split
  · simp [Pending.settled, hne]
  · rfl

theorem Takes.spaces (ha : Takes k a a') (hw : Spaces w) (hb : Takes k b b') :
    Takes k (a ++ (w ++ b)) (a' ++ (oneLine w ++ b')) := by
  refine ⟨fun p d s hd => ?_, getLast?_append_all (getLast?_append_all hb.last _) a'⟩
  obtain ⟨q, hq, hsettled⟩ := entriesFrom_spaces hw (last_append ha.last p.settled) d (b ++ s)
  rw [List.append_assoc, List.append_assoc, ha.entriesFrom_append p d _ hd, hq,
    hb.entriesFrom_append q d s hd, hsettled]
  simp only [List.reverse_append, List.append_assoc]

/-! ## Containers -/

/-- Behind an opener or a comma, the text `t` is taken as `t'` in front of a closer. -/
def TakesInside (t t' : Text) : Prop :=
  ∀ r d c s, r.head?.all Text.isBlank = false → isCloser c = true →
    entriesFrom ⟨r, false⟩ (d + 1) .code (t ++ c :: s) =
      entriesFrom ⟨c :: (t'.reverse ++ r), false⟩ d .code s

theorem takesInside_spaces (hw : Spaces w) : TakesInside w (oneLine w) := by
  intro r d c s hr hc
  obtain ⟨p, hp, hsettled⟩ := entriesFrom_spaces hw hr (d + 1) (c :: s)
  rw [hp, entriesFrom_closer hc, hsettled]

theorem TakesInside.cons (hw : Spaces w) (ha : Takes 1 a a') (hb : TakesInside b b') :
    TakesInside (w ++ (a ++ b)) (oneLine w ++ (a' ++ b')) := by
  intro r d c s hr hc
  obtain ⟨p, hp, hsettled⟩ := entriesFrom_spaces hw hr (d + 1) (a ++ (b ++ c :: s))
  rw [List.append_assoc, List.append_assoc, hp, ha.entriesFrom_append p (d + 1) _ (by omega),
    hb _ d c s (last_append ha.last _) hc, hsettled]
  simp only [List.reverse_append, List.append_assoc]

theorem takes_brackets {opener closer : Char} (hopener : isOpener opener = true)
    (hcloser : isCloser closer = true) (h : TakesInside t t') :
    Takes 0 (opener :: (t ++ [closer])) (opener :: (t' ++ [closer])) := by
  have hblank : Text.isBlank opener = false ∧ Text.isBlank closer = false := by
    simp only [isOpener, isCloser, Bool.or_eq_true, decide_eq_true_eq] at hopener hcloser
    constructor
    · rcases hopener with (rfl | rfl) | rfl <;> rfl
    · rcases hcloser with (rfl | rfl) | rfl <;> rfl
  refine ⟨fun p d s _ => ?_, ?_⟩
  · rw [List.cons_append, List.append_assoc, List.singleton_append, entriesFrom_opener hopener,
      h _ d closer s (by simpa using hblank.1) hcloser]
    simp
  · rw [← List.cons_append, List.getLast?_concat]
    exact hblank.2

/-! ## Simple literals -/

theorem exists_takes_ending {e : Text} (he : Ending .relaxed e) :
    ∃ e', Ending .relaxed e' ∧ TakesInside e e' := by
  rcases he with he | ⟨-, w, w', rfl, hw, hw'⟩
  · exact ⟨oneLine e, .inl (spaces_oneLine he), takesInside_spaces he⟩
  · exact ⟨oneLine w ++ ',' :: oneLine w',
      .inr ⟨rfl, _, _, rfl, spaces_oneLine hw, spaces_oneLine hw'⟩,
      .cons hw takes_comma (takesInside_spaces hw')⟩

section Parts

variable {α : Type} {part : Text → α → Prop} {xs : List α}
  (hpart : ∀ u x, part u x → ∃ u', part u' x ∧ Takes 0 u u')

include hpart

theorem exists_takes_parts (h : Parts .relaxed part s xs) :
    ∃ s', Parts .relaxed part s' xs ∧ TakesInside s s' := by
  induction h with
  | last hw hp he =>
    obtain ⟨p', hp', htakes⟩ := hpart _ _ hp
    obtain ⟨e', he', hinside⟩ := exists_takes_ending he
    exact ⟨_, .last (spaces_oneLine hw) hp' he', .cons hw (htakes.mono (by omega)) hinside⟩
  | cons hw hp hw' _ ih =>
    obtain ⟨p', hp', htakes⟩ := hpart _ _ hp
    obtain ⟨s', hs', hinside⟩ := ih
    exact ⟨_, .cons (spaces_oneLine hw) hp' (spaces_oneLine hw') hs',
      .cons hw (htakes.mono (by omega)) (.cons hw' takes_comma hinside)⟩

theorem exists_takes_inside (h : Inside .relaxed part s xs) :
    ∃ s', Inside .relaxed part s' xs ∧ TakesInside s s' := by
  cases h with
  | empty he =>
    obtain ⟨e', he', hinside⟩ := exists_takes_ending he
    exact ⟨e', .empty he', hinside⟩
  | parts hs =>
    obtain ⟨s', hs', hinside⟩ := exists_takes_parts hpart hs
    exact ⟨s', .parts hs', hinside⟩

end Parts

theorem isInk_of_class {p : Char → Bool} (hblank : Text.isBlank c = false)
    (hp : ['\'', '"', '\x60', '{', '[', '(', '}', ']', ')', '/', ','].all fun e => !p e)
    (hc : p c = true) : isInk c = true := by
  have hne : ∀ e ∈ ['\'', '"', '\x60', '{', '[', '(', '}', ']', ')', '/', ','], c ≠ e := by
    rintro e he rfl
    simpa [hc] using List.all_eq_true.1 hp c he
  simp only [List.forall_mem_cons] at hne
  simp [isInk, isQuote, isOpener, isCloser, hblank, hne]

theorem isInk_of_isWordRest (hc : Literal.Relaxed.isWordRest c = true) : isInk c = true :=
  isInk_of_class (Text.isBlank_of_isWordRest hc) (by decide +kernel) hc

theorem takes_isInteger {n : Int} (h : IsInteger s n) : Takes 0 s s := by
  have hdigits : ∀ {digits : Text}, Json.IsWhole digits → Takes 0 digits digits := by
    intro digits h
    obtain ⟨hne, hall⟩ := Json.isDigits_of_isWhole h
    exact takes_ink hne fun c hc => isInk_of_isWordRest (Text.isWordRest_of_isDigit (hall c hc))
  cases h with
  | positive h => exact hdigits h
  | negative h => exact (takes_of_isInk (by decide)).append (hdigits h)

theorem takes_isSimpleLeaf {v : Json.Value} (h : IsSimpleLeaf s v) : Takes 0 s s := by
  cases h with
  | null | true | false => exact takes_word (by decide) (by decide)
  | integer hs => exact takes_isInteger hs
  | string hs => exact takes_isString hs

theorem takes_isName {name : Text} (h : IsName .relaxed s name) : Takes 0 s s := by
  cases h with
  | string hs => exact takes_isString hs
  | word _ hs =>
    have hrest := Literal.Relaxed.isWordRest_of_isWord hs
    cases hs
    exact takes_ink (by simp) fun c hc => isInk_of_isWordRest (hrest c hc)

theorem exists_takes_isSimple {n : Nat} {v : Json.Value} (h : IsSimple n s v) :
    ∃ s', IsSimple n s' v ∧ Takes 0 s s' ∧ s'.head? = s.head? := by
  have hleaf : ∀ {s : Text} {v : Json.Value} {n : Nat}, IsSimpleLeaf s v →
      ∃ s', IsSimple n s' v ∧ Takes 0 s s' ∧ s'.head? = s.head? := by
    intro s v n h
    refine ⟨s, ?_, takes_isSimpleLeaf h, rfl⟩
    cases n with
    | zero => exact h
    | succ n => exact .inl h
  induction n generalizing s v with
  | zero => exact hleaf h
  | succ n ih =>
    have hitem : ∀ t x, IsSimple n t x → ∃ t', IsSimple n t' x ∧ Takes 0 t t' := fun t x hx => by
      obtain ⟨t', ht', htakes, -⟩ := ih hx
      exact ⟨t', ht', htakes⟩
    have hfield : ∀ t x, IsSimpleField (IsSimple n) t x →
        ∃ t', IsSimpleField (IsSimple n) t' x ∧ Takes 0 t t' := by
      rintro _ _ ⟨hname, hbraces, hw, hw', hv⟩
      obtain ⟨t', ht', htakes⟩ := hitem _ _ hv
      have hcolon : Takes 0 [':'] [':'] := takes_of_isInk (by decide)
      exact ⟨_, .mk hname hbraces (spaces_oneLine hw) (spaces_oneLine hw') ht',
        (takes_isName hname).spaces hw (hcolon.spaces hw' htakes)⟩
    rcases h with h | h
    · exact hleaf h
    · cases h with
      | array hs =>
        obtain ⟨s', hs', hinside⟩ := exists_takes_inside hitem hs
        exact ⟨_, .inr (.array hs'), takes_brackets (by decide) (by decide) hinside, rfl⟩
      | object hs =>
        obtain ⟨s', hs', hinside⟩ := exists_takes_inside hfield hs
        exact ⟨_, .inr (.object hs'), takes_brackets (by decide) (by decide) hinside, rfl⟩

/-- A default is taken as a text of the same value. -/
theorem exists_takes_isDefault {v : Json.Value} (h : IsDefault t v) :
    ∃ t', IsDefault t' v ∧ Takes 0 t t' := by
  cases h with
  | integer hs => exact ⟨t, .integer hs, takes_isInteger hs⟩
  | true => exact ⟨_, .true, takes_word (by decide) (by decide)⟩
  | false => exact ⟨_, .false, takes_word (by decide) (by decide)⟩
  | @string quote s hquote hs hbraces =>
    refine ⟨_, .string hquote hs hbraces, takes_quoted ?_ ?_⟩
    · rcases hquote with rfl | rfl | rfl <;> rfl
    · rw [← List.append_nil s]
      exact IsBody.plain_append hs .nil
  | container hs hopens =>
    obtain ⟨t', ht', htakes, hhead⟩ := exists_takes_isSimple hs
    exact ⟨t', .container ht' (by rwa [Literal.Opens, hhead]), htakes⟩

end PropCatalog.Component
