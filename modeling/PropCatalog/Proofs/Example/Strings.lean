import PropCatalog.Example.Notation
import PropCatalog.Literal.Basic
import PropCatalog.Proofs.Text.Marker

/-!
# The strings of an example

`Example.strings` lists the field names and the string values of an example. Whatever else its
notation has is punctuation, words and numbers, so a marker occurs in the notation exactly when it
occurs in one of the strings (`infix_render_iff`).
-/

namespace PropCatalog

open Text (IsMarker)

/-! ## Numbers -/

namespace Json.Number

open Literal (isNumberChar)

/-- A text made of the characters that occur in numbers. -/
def IsNumberText (s : Text) : Prop :=
  ∀ c ∈ s, isNumberChar c = true

theorem isNumberText_append {a b : Text} (ha : IsNumberText a) (hb : IsNumberText b) :
    IsNumberText (a ++ b) :=
  List.forall_mem_append.2 ⟨ha, hb⟩

theorem isNumberText_cons {c : Char} {s : Text} (hc : isNumberChar c = true)
    (hs : IsNumberText s) : IsNumberText (c :: s) :=
  List.forall_mem_cons.2 ⟨hc, hs⟩

theorem isNumberText_zeros (n : Nat) : IsNumberText (List.replicate n '0') := by
  intro c hc
  rw [List.eq_of_mem_replicate hc]
  decide

theorem isNumberText_toDigits (n : Nat) : IsNumberText (Nat.toDigits 10 n) := by
  intro c hc
  simp [isNumberChar, Nat.isDigit_of_mem_toDigits (by decide) (by decide) hc]

theorem isNumberText_significantDigits (n : Nat) : IsNumberText (significantDigits n).1 := by
  intro c hc
  have hdropped := (List.dropWhile_suffix _).subset (List.mem_reverse.1 hc)
  exact isNumberText_toDigits n c (List.mem_reverse.1 hdropped)

theorem isNumberText_layout {digits : Text} (hdigits : IsNumberText digits) (e : Int) :
    IsNumberText (layout digits e) := by
  have hexponent : IsNumberText
      ('e' :: (if e < 0 then '-' else '+') :: Nat.toDigits 10 e.natAbs) := by
    refine isNumberText_cons (by decide) (isNumberText_cons ?_ (isNumberText_toDigits _))
    split <;> decide
  rw [layout]
  split
  · split
    · have hzero : IsNumberText "0.".toList := List.all_eq_true.1 (by decide)
      exact isNumberText_append (isNumberText_append hzero (isNumberText_zeros _)) hdigits
    · have hpadded : ∀ n, IsNumberText (digits ++ List.replicate n '0') :=
        fun n => isNumberText_append hdigits (isNumberText_zeros n)
      refine isNumberText_append (fun c hc => hpadded _ c (List.mem_of_mem_take hc)) ?_
      refine isNumberText_cons (by decide) ?_
      split
      · exact isNumberText_zeros 1
      · exact fun c hc => hpadded _ c (List.mem_of_mem_drop hc)
  · dsimp only
    split
    · obtain ⟨hd, hmore⟩ := List.forall_mem_cons.1 hdigits
      exact isNumberText_append (isNumberText_cons hd (isNumberText_cons (by decide) hmore))
        hexponent
    · exact isNumberText_append hdigits hexponent

theorem isNumberText_floatText (x : Binary64) : IsNumberText (floatText x) := by
  unfold floatText
  extract_lets first magnitude
  have hmagnitude : IsNumberText magnitude := by
    subst magnitude
    split
    · exact List.all_eq_true.1 (by decide)
    · -- the digits stay behind an equation, so that nothing computes them
      split
      next m e hgrid =>
        split
        next digits zeros hdigits =>
          have hnumber := isNumberText_significantDigits m
          rw [hdigits] at hnumber
          exact isNumberText_layout hnumber _
  split
  · exact isNumberText_cons (by decide) hmagnitude
  · exact hmagnitude

theorem isNumberText_text (n : Number) : IsNumberText n.text := by
  cases n with
  | int n =>
    rw [text, intText]
    split
    · exact isNumberText_cons (by decide) (isNumberText_toDigits _)
    · exact isNumberText_toDigits _
  | float x => exact isNumberText_floatText x

theorem layout_ne_nil (digits : Text) (e : Int) : layout digits e ≠ [] := by
  rw [layout]
  split
  · split <;> simp
  · dsimp only
    split <;> simp

theorem floatText_ne_nil (x : Binary64) : floatText x ≠ [] := by
  unfold floatText
  extract_lets first magnitude
  have hmagnitude : magnitude ≠ [] := by
    subst magnitude
    split
    · decide
    · split
      split
      exact layout_ne_nil _ _
  split
  · simp
  · exact hmagnitude

theorem text_ne_nil (n : Number) : n.text ≠ [] := by
  cases n with
  | int n =>
    rw [text, intText]
    split
    · simp
    · exact Nat.toDigits_ne_nil
  | float x => exact floatText_ne_nil x

end Json.Number

theorem Json.Scalar.text_ne_nil (s : Json.Scalar) : s.text ≠ [] := by
  cases s with
  | null | string => simp [text, quote]
  | bool b => cases b <;> simp [text]
  | number n => exact n.text_ne_nil

/-! ## Examples -/

namespace Example

mutual

/-- The field names and the string values of an example, in the order of its text. -/
def strings : Example → List Text
  | .scalar (.string s) => [s]
  | .scalar _ => []
  | .array items => itemStrings items
  | .object fields => fieldStrings fields

/-- The strings of the items. -/
def itemStrings : List Example → List Text
  | [] => []
  | e :: rest => strings e ++ itemStrings rest

/-- The names and the strings of the fields. -/
def fieldStrings : List (Field Example) → List Text
  | [] => []
  | f :: rest => f.name :: (strings f.value ++ fieldStrings rest)

end

variable {needle : Text} (h : IsMarker needle)
include h

theorem infix_fieldHead_append_iff {name rest : Text} {optional : Bool} :
    needle <:+: fieldHead name optional ++ rest ↔ needle <:+: name ∨ needle <:+: rest := by
  rw [fieldHead, List.append_assoc, h.infix_quote_append_iff]
  refine or_congr_right (h.infix_append_iff ?_)
  cases optional <;> decide

theorem infix_scalar_text_iff (s : Json.Scalar) :
    needle <:+: s.text ↔ ∃ t ∈ strings (.scalar s), needle <:+: t := by
  cases s with
  | null => simpa [strings] using h.not_infix (by decide)
  | bool b => cases b <;> simpa [strings] using h.not_infix (by decide)
  | number n =>
    have hn : '<' ∉ n.text := fun hmem =>
      absurd (Json.Number.isNumberText_text n '<' hmem) (by decide)
    simpa [strings, Json.Scalar.text] using h.not_infix hn
  | string s =>
    have hquote : needle <:+: Json.quote s ↔ needle <:+: s := by
      rw [← List.append_nil (Json.quote s), h.infix_quote_append_iff, List.infix_nil]
      exact or_iff_left h.ne_nil
    simp [Json.Scalar.text, strings, hquote]

mutual

/-- A marker occurs in the notation of an example exactly when it occurs in one of its
strings. -/
theorem infix_render_iff : (e : Example) →
    (needle <:+: render e ↔ ∃ t ∈ strings e, needle <:+: t)
  | .scalar s => infix_scalar_text_iff h s
  | .array items => by
    rw [render, strings, ← infix_renderItems_iff items, List.cons_append,
      h.infix_cons_iff (by decide), h.infix_append_cons_iff (by decide)]
    simp [h.ne_nil]
  | .object fields => by
    rw [render, strings, ← infix_renderFields_iff fields, List.cons_append,
      h.infix_cons_iff (by decide), h.infix_append_cons_iff (by decide)]
    simp [h.ne_nil]

theorem infix_renderItems_iff : (items : List Example) →
    (needle <:+: renderItems items ↔ ∃ t ∈ itemStrings items, needle <:+: t)
  | [] => by simp [renderItems, itemStrings, h.ne_nil]
  | [e] => by
    rw [renderItems, infix_render_iff e]
    simp [itemStrings]
  | e :: e' :: rest => by
    rw [renderItems, h.infix_append_cons_iff (by decide), h.infix_cons_iff (by decide),
      infix_render_iff e, infix_renderItems_iff (e' :: rest)]
    · simp only [itemStrings, List.mem_append]
      grind
    · simp

theorem infix_renderFields_iff : (fields : List (Field Example)) →
    (needle <:+: renderFields fields ↔ ∃ t ∈ fieldStrings fields, needle <:+: t)
  | [] => by simp [renderFields, fieldStrings, h.ne_nil]
  | [f] => by
    rw [renderFields, infix_fieldHead_append_iff h, infix_render_iff f.value]
    simp [fieldStrings]
  | f :: f' :: rest => by
    rw [renderFields, List.append_assoc, infix_fieldHead_append_iff h,
      h.infix_append_cons_iff (by decide), h.infix_cons_iff (by decide),
      infix_render_iff f.value, infix_renderFields_iff (f' :: rest)]
    · simp only [fieldStrings, List.mem_append, List.mem_cons]
      grind
    · simp

end

end Example

end PropCatalog
