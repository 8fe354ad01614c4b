import PropCatalog.Proofs.Example.Strings
import PropCatalog.Proofs.Json.Printer

/-!
# Reading the notation back

The notation of an example shows everything about it but how its numbers are stored: two numbers
with the same text look the same. `Shown` is what is left of an example then, and `decode?` reads it
off the notation, so that nothing else is lost (`decode?_render`): the kinds, the order, the names
of the fields, repeated ones too, and the mark of each field that may be left out.

The decoder goes through a text with a stack of the containers that are open. Each step takes one
scalar or one sign, and a step lemma tells for each kind of value what the decoder comes to behind
it. A number ends where the sign after it starts, since no sign occurs in numbers.
-/

namespace PropCatalog.Example

open Json (Printable)
open Literal (isNumberChar)

/-! ## What the notation shows -/

/-- What the notation of an example shows. -/
inductive Shown where
  | null
  | bool (value : Bool)
  /-- A number, of which the text is known. -/
  | number (text : Text)
  | string (value : Text)
  | array (items : List Shown)
  | object (fields : List (Field Shown))

mutual

/-- The example with the texts of its numbers in their place. -/
def shown : Example → Shown
  | .scalar .null => .null
  | .scalar (.bool b) => .bool b
  | .scalar (.number n) => .number n.text
  | .scalar (.string s) => .string s
  | .array items => .array (shownItems items)
  | .object fields => .object (shownFields fields)

def shownItems : List Example → List Shown
  | [] => []
  | e :: rest => shown e :: shownItems rest

def shownFields : List (Field Example) → List (Field Shown)
  | [] => []
  | f :: rest => ⟨f.name, f.optional, shown f.value⟩ :: shownFields rest

end

/-! ## The decoder -/

namespace Decoder

/-- A container that is open while one of its parts is read; what was read is in reverse order. -/
inductive Frame where
  | array (items : List Shown)
  /-- An object, and the name and the mark of the field whose value is read. -/
  | object (fields : List (Field Shown)) (name : Text) (optional : Bool)

/-- What comes next: a value, or what follows the value that was read. -/
inductive Expected where
  | value
  | follow (value : Shown)

structure State where
  stack : List Frame
  expected : Expected

/-- Reads the name of a field, its mark and the colon. -/
def fieldHead? : Text → Option (Text × Bool × Text)
  | '"' :: s =>
    (Json.string? s).bind fun (name, rest) =>
      match rest with
      | ':' :: ' ' :: rest => some (name, false, rest)
      | '?' :: ':' :: ' ' :: rest => some (name, true, rest)
      | _ => none
  | _ => none

/-- Reads a run of characters of which numbers are made. -/
def number? (s : Text) : Option (Shown × Text) :=
  match s.takeWhile isNumberChar with
  | [] => none
  | text => some (.number text, s.dropWhile isNumberChar)

def scalar? : Text → Option (Shown × Text)
  | '"' :: s => (Json.string? s).map fun (value, rest) => (.string value, rest)
  | 'n' :: 'u' :: 'l' :: 'l' :: s => some (.null, s)
  | 't' :: 'r' :: 'u' :: 'e' :: s => some (.bool true, s)
  | 'f' :: 'a' :: 'l' :: 's' :: 'e' :: s => some (.bool false, s)
  | s => number? s

/-- Goes on with a field of an object that has the given fields. -/
def field? (stack : List Frame) (fields : List (Field Shown)) (s : Text) : Option (State × Text) :=
  (fieldHead? s).map fun (name, optional, rest) =>
    (⟨.object fields name optional :: stack, .value⟩, rest)

/-- Reads a scalar, an empty container, or the opener of one with parts. -/
def begin? (stack : List Frame) : Text → Option (State × Text)
  | '[' :: ']' :: s => some (⟨stack, .follow (.array [])⟩, s)
  | '[' :: s => some (⟨.array [] :: stack, .value⟩, s)
  | '{' :: '}' :: s => some (⟨stack, .follow (.object [])⟩, s)
  | '{' :: s => field? stack [] s
  | s => (scalar? s).map fun (value, rest) => (⟨stack, .follow value⟩, rest)

/-- Puts a value into the innermost container, and reads a comma or the closer. -/
def follow? (value : Shown) : List Frame → Text → Option (State × Text)
  | .array items :: stack, ',' :: ' ' :: s => some (⟨.array (value :: items) :: stack, .value⟩, s)
  | .array items :: stack, ']' :: s =>
    some (⟨stack, .follow (.array (value :: items).reverse)⟩, s)
  | .object fields name optional :: stack, ',' :: ' ' :: s =>
    field? stack (⟨name, optional, value⟩ :: fields) s
  | .object fields name optional :: stack, '}' :: s =>
    some (⟨stack, .follow (.object (⟨name, optional, value⟩ :: fields).reverse)⟩, s)
  | _, _ => none

def step? (state : State) (s : Text) : Option (State × Text) :=
  match state.expected with
  | .value => begin? state.stack s
  | .follow value => follow? value state.stack s

/-- What was read, when no container is open. -/
def State.result? (state : State) : Option Shown :=
  match state.stack, state.expected with
  | [], .follow value => some value
  | _, _ => none

/-! ### Every step takes at least one character -/

theorem fieldHead?_length {s name rest : Text} {optional : Bool}
    (h : fieldHead? s = some (name, optional, rest)) : rest.length < s.length := by
  unfold fieldHead? at h
  split at h
  · next s =>
    obtain ⟨⟨name', t⟩, ht, h⟩ := Option.bind_eq_some_iff.1 h
    have hlt := Json.string?_length ht
    dsimp only at h
    split at h
    · cases h
      simp only [List.length_cons] at hlt ⊢
      omega
    · cases h
      simp only [List.length_cons] at hlt ⊢
      omega
    · cases h
  · cases h

theorem number?_length {s rest : Text} {value : Shown} (h : number? s = some (value, rest)) :
    rest.length < s.length := by
  have hsplit := congrArg List.length
    (List.takeWhile_append_dropWhile (p := isNumberChar) (l := s))
  rw [number?] at h
  split at h
  · cases h
  · next hne =>
    cases h
    have hpos := List.length_pos_iff.2 hne
    simp only [List.length_append] at hsplit
    omega

theorem scalar?_length {s rest : Text} {value : Shown} (h : scalar? s = some (value, rest)) :
    rest.length < s.length := by
  unfold scalar? at h
  split at h
  case h_1 =>
    obtain ⟨⟨text, t⟩, ht, heq⟩ := Option.map_eq_some_iff.1 h
    cases heq
    have hlt := Json.string?_length ht
    simp only [List.length_cons]
    omega
  case h_5 => exact number?_length h
  all_goals
    cases h
    simp only [List.length_cons]
    omega

theorem field?_length {stack : List Frame} {fields : List (Field Shown)} {s rest : Text}
    {state : State} (h : field? stack fields s = some (state, rest)) : rest.length < s.length := by
  obtain ⟨⟨name, optional, t⟩, ht, heq⟩ := Option.map_eq_some_iff.1 h
  cases heq
  exact fieldHead?_length ht

theorem step?_length {state next : State} {s rest : Text}
    (h : step? state s = some (next, rest)) : rest.length < s.length := by
  unfold step? at h
  split at h
  · unfold begin? at h
    split at h
    case h_4 => exact Nat.lt_succ_of_lt (field?_length h)
    case h_5 =>
      obtain ⟨⟨value, t⟩, ht, heq⟩ := Option.map_eq_some_iff.1 h
      cases heq
      exact scalar?_length ht
    all_goals
      cases h
      simp only [List.length_cons]
      omega
  · unfold follow? at h
    split at h
    case h_3 =>
      have hlt := field?_length h
      simp only [List.length_cons]
      omega
    case h_5 => cases h
    all_goals
      cases h
      simp only [List.length_cons]
      omega

/-- What the decoder comes to when it goes on from a state to the end of a text. -/
def finish? (state : State) (s : Text) : Option Shown :=
  match _h : step? state s with
  | some (next, rest) => finish? next rest
  | none => if s = [] then state.result? else none
termination_by s.length
decreasing_by exact step?_length _h

end Decoder

/-- Reads the notation of an example. -/
def decode? (s : Text) : Option Shown :=
  Decoder.finish? ⟨[], .value⟩ s

/-! ## Steps -/

namespace Decoder

variable {stack : List Frame} {x : Text} {value : Shown}

theorem finish?_cons (state : State) (c : Char) (s : Text) :
    finish? state (c :: s) =
      (step? state (c :: s)).bind fun (next, rest) => finish? next rest := by
  rw [finish?]
  split
  next next rest hsome => rw [hsome, Option.bind_some]
  next hnone =>
    rw [hnone, Option.bind_none]
    exact if_neg (List.cons_ne_nil c s)

theorem finish?_follow_nil (value : Shown) : finish? ⟨[], .follow value⟩ [] = some value := by
  rw [finish?]
  rfl

/-- A number is followed by no character of another number. -/
def EndsNumber (x : Text) : Prop := x.head?.any isNumberChar = false

theorem fieldHead?_append (name : Text) (optional : Bool) (x : Text) :
    fieldHead? (fieldHead name optional ++ x) = some (name, optional, x) := by
  rw [fieldHead, List.append_assoc, Json.quote_append, fieldHead?, Json.string?_quote]
  cases optional <;> rfl

theorem number?_text (n : Json.Number) (hx : EndsNumber x) :
    number? (n.text ++ x) = some (.number n.text, x) := by
  obtain ⟨htake, hdrop⟩ := Text.span_append n.isNumberText_text hx
  rw [number?, htake, hdrop]
  split
  next hnil => exact absurd hnil n.text_ne_nil
  next => rfl

theorem begin?_of_isNumberChar {c : Char} (hc : isNumberChar c = true) (s : Text) :
    begin? stack (c :: s) = (number? (c :: s)).map fun (value, rest) =>
      (⟨stack, .follow value⟩, rest) := by
  have hne : ∀ d : Char, isNumberChar d = false → c ≠ d := by
    rintro d hd rfl
    rw [hc] at hd
    cases hd
  have hscalar : scalar? (c :: s) = number? (c :: s) := by
    rw [scalar?]
    all_goals simp [hne '"' rfl, hne 'n' rfl, hne 't' rfl, hne 'f' rfl]
  rw [begin?, hscalar]
  all_goals simp [hne '[' rfl, hne '{' rfl]

theorem begin?_scalar (s : Json.Scalar) (hx : EndsNumber x) :
    begin? stack (s.text ++ x) = some (⟨stack, .follow (shown (.scalar s))⟩, x) := by
  cases s with
  | null => rfl
  | bool b => cases b <;> rfl
  | number n =>
    obtain ⟨c, t, htext⟩ := List.exists_cons_of_ne_nil n.text_ne_nil
    have hc : isNumberChar c = true := n.isNumberText_text c (by simp [htext])
    have hread := number?_text n hx
    rw [htext, List.cons_append] at hread
    rw [Json.Scalar.text, htext, List.cons_append, begin?_of_isNumberChar hc, hread, shown, htext]
    rfl
  | string s =>
    rw [Json.Scalar.text, Json.quote_append, begin?, scalar?, Json.string?_quote]
    · rfl
    all_goals simp

theorem finish?_scalar (s : Json.Scalar) (hx : EndsNumber x) :
    finish? ⟨stack, .value⟩ (s.text ++ x) = finish? ⟨stack, .follow (shown (.scalar s))⟩ x := by
  have hbegin : begin? stack (s.text ++ x) = _ := begin?_scalar s hx
  obtain ⟨c, t, htext⟩ := List.exists_cons_of_ne_nil s.text_ne_nil
  rw [htext, List.cons_append] at hbegin ⊢
  rw [finish?_cons]
  change (begin? stack (c :: (t ++ x))).bind _ = _
  rw [hbegin, Option.bind_some]

/-- Goes on with the fields of an object behind those that were read before. -/
def finishFields? (stack : List Frame) (fields : List (Field Shown)) (s : Text) : Option Shown :=
  (field? stack fields s).bind fun (next, rest) => finish? next rest

theorem finishFields?_append (fields : List (Field Shown)) (name : Text) (optional : Bool)
    (x : Text) : finishFields? stack fields (fieldHead name optional ++ x) =
      finish? ⟨.object fields name optional :: stack, .value⟩ x := by
  rw [finishFields?, field?, fieldHead?_append]
  rfl

/-! ## Values -/

theorem render_ne_closeArray (e : Example) (x t : Text) : render e ++ x ≠ ']' :: t := by
  rintro heq
  cases e with
  | scalar s =>
    cases s with
    | null | string => simp [render, Json.Scalar.text, Json.quote] at heq
    | bool b => cases b <;> simp [render, Json.Scalar.text] at heq
    | number n =>
      obtain ⟨c, t, htext⟩ := List.exists_cons_of_ne_nil n.text_ne_nil
      have hc : isNumberChar c = true := n.isNumberText_text c (by simp [htext])
      rw [render, Json.Scalar.text, htext] at heq
      obtain ⟨rfl, -⟩ := List.cons.inj heq
      cases hc
  | array | object => simp [render] at heq

theorem renderItems_ne_closeArray (e : Example) (rest : List Example) (x t : Text) :
    renderItems (e :: rest) ++ x ≠ ']' :: t := by
  cases rest with
  | nil => exact render_ne_closeArray e x t
  | cons e' rest =>
    rw [renderItems, List.append_assoc]
    · exact render_ne_closeArray e _ t
    · simp

theorem renderFields_ne_closeObject (f : Field Example) (rest : List (Field Example))
    (x t : Text) : renderFields (f :: rest) ++ x ≠ '}' :: t := by
  cases rest with
  | nil => simp [renderFields, fieldHead, Json.quote]
  | cons f' rest => simp [renderFields, fieldHead, Json.quote]

theorem finish?_openArray (e : Example) (rest : List Example) (x : Text) :
    finish? ⟨stack, .value⟩ (render (.array (e :: rest)) ++ x) =
      finish? ⟨.array [] :: stack, .value⟩ (renderItems (e :: rest) ++ ']' :: x) := by
  have htext : render (.array (e :: rest)) ++ x = '[' :: (renderItems (e :: rest) ++ ']' :: x) := by
    simp [render]
  have hopen : begin? stack ('[' :: (renderItems (e :: rest) ++ ']' :: x)) =
      some (⟨.array [] :: stack, .value⟩, renderItems (e :: rest) ++ ']' :: x) := by
    rw [begin?]
    exact renderItems_ne_closeArray e rest _
  rw [htext, finish?_cons]
  change (begin? stack _).bind _ = _
  rw [hopen, Option.bind_some]

theorem finish?_openObject (f : Field Example) (rest : List (Field Example)) (x : Text) :
    finish? ⟨stack, .value⟩ (render (.object (f :: rest)) ++ x) =
      finishFields? stack [] (renderFields (f :: rest) ++ '}' :: x) := by
  have htext : render (.object (f :: rest)) ++ x =
      '{' :: (renderFields (f :: rest) ++ '}' :: x) := by
    simp [render]
  have hopen : begin? stack ('{' :: (renderFields (f :: rest) ++ '}' :: x)) =
      field? stack [] (renderFields (f :: rest) ++ '}' :: x) := by
    rw [begin?]
    exact renderFields_ne_closeObject f rest _
  rw [htext, finish?_cons]
  change (begin? stack _).bind _ = _
  rw [hopen]
  rfl

mutual

/-- A value is read off the front of a text, a number up to the sign after it. -/
theorem finish?_render : (e : Example) → (stack : List Frame) → (x : Text) → EndsNumber x →
    finish? ⟨stack, .value⟩ (render e ++ x) = finish? ⟨stack, .follow (shown e)⟩ x
  | .scalar s, _, _, hx => finish?_scalar s hx
  | .array [], _, _, _ => finish?_cons _ _ _
  | .array (e :: rest), stack, x, _ => by
    rw [finish?_openArray, finish?_renderItems (e :: rest) (by simp) [] stack x]
    rfl
  | .object [], _, _, _ => finish?_cons _ _ _
  | .object (f :: rest), stack, x, _ => by
    rw [finish?_openObject, finish?_renderFields (f :: rest) (by simp) [] stack x]
    rfl

theorem finish?_renderItems : (items : List Example) → items ≠ [] → (before : List Shown) →
    (stack : List Frame) → (x : Text) →
    finish? ⟨.array before :: stack, .value⟩ (renderItems items ++ ']' :: x) =
      finish? ⟨stack, .follow (.array (before.reverse ++ shownItems items))⟩ x
  | [], h, _, _, _ => absurd rfl h
  | [e], _, before, stack, x => by
    rw [renderItems, finish?_render e, finish?_cons]
    · simp [step?, follow?, shownItems]
    · rfl
  | e :: e' :: rest, _, before, stack, x => by
    have htext : renderItems (e :: e' :: rest) ++ ']' :: x =
        render e ++ ',' :: ' ' :: (renderItems (e' :: rest) ++ ']' :: x) := by
      simp [renderItems]
    rw [htext, finish?_render e, finish?_cons]
    · refine (finish?_renderItems (e' :: rest) (by simp) (shown e :: before) stack x).trans ?_
      simp [shownItems]
    · rfl

theorem finish?_renderFields : (fields : List (Field Example)) → fields ≠ [] →
    (before : List (Field Shown)) → (stack : List Frame) → (x : Text) →
    finishFields? stack before (renderFields fields ++ '}' :: x) =
      finish? ⟨stack, .follow (.object (before.reverse ++ shownFields fields))⟩ x
  | [], h, _, _, _ => absurd rfl h
  | [f], _, before, stack, x => by
    rw [renderFields, List.append_assoc, finishFields?_append, finish?_render f.value, finish?_cons]
    · simp [step?, follow?, shownFields]
    · rfl
  | f :: f' :: rest, _, before, stack, x => by
    have htext : renderFields (f :: f' :: rest) ++ '}' :: x = fieldHead f.name f.optional ++
        (render f.value ++ ',' :: ' ' :: (renderFields (f' :: rest) ++ '}' :: x)) := by
      simp [renderFields]
    rw [htext, finishFields?_append, finish?_render f.value, finish?_cons]
    · refine (finish?_renderFields (f' :: rest) (by simp)
        (⟨f.name, f.optional, shown f.value⟩ :: before) stack x).trans ?_
      simp [shownFields]
    · rfl

end

end Decoder

/-! ## The whole notation -/

theorem fieldHead_printable (name : Text) (optional : Bool) :
    Printable (fieldHead name optional) := by
  refine (Json.quote_printable name).append ?_
  cases optional <;> exact .of_all (by decide)

theorem scalar_text_printable (s : Json.Scalar) : Printable s.text := by
  cases s with
  | null => exact .of_all (by decide)
  | bool b => cases b <;> exact .of_all (by decide)
  | number n =>
    have hnumber : ∀ k < 0x20, isNumberChar (Char.ofNat k) = false := by decide
    intro c hc
    by_contra hlow
    have hchar := hnumber c.toNat (by omega)
    rw [Char.ofNat_toNat, n.isNumberText_text c hc] at hchar
    cases hchar
  | string s => exact Json.quote_printable s

mutual

theorem render_printable : (e : Example) → Printable (render e)
  | .scalar s => scalar_text_printable s
  | .array items => .cons (by decide) ((renderItems_printable items).append (.of_all (by decide)))
  | .object fields =>
    .cons (by decide) ((renderFields_printable fields).append (.of_all (by decide)))

theorem renderItems_printable : (items : List Example) → Printable (renderItems items)
  | [] => .of_all rfl
  | [e] => render_printable e
  | e :: e' :: rest => by
    rw [renderItems]
    · exact (render_printable e).append
        (.cons (by decide) (.cons (by decide) (renderItems_printable (e' :: rest))))
    · simp

theorem renderFields_printable : (fields : List (Field Example)) → Printable (renderFields fields)
  | [] => .of_all rfl
  | [f] => (fieldHead_printable f.name f.optional).append (render_printable f.value)
  | f :: f' :: rest => by
    rw [renderFields]
    · exact ((fieldHead_printable f.name f.optional).append (render_printable f.value)).append
        (.cons (by decide) (.cons (by decide) (renderFields_printable (f' :: rest))))
    · simp

end

theorem decode?_render_eq (e : Example) : decode? (render e) = some e.shown := by
  have hread := Decoder.finish?_render e [] [] rfl
  rwa [List.append_nil, Decoder.finish?_follow_nil] at hread

/-- **The notation of examples loses nothing.** It is decoded to everything that an example shows:
its kinds, its order, the names of its fields, repeated ones too, and which of them may be left out.
And it has no control character, so that it stays on one line. -/
theorem decode?_render (e : Example) :
    decode? (render e) = some e.shown ∧ ∀ c ∈ render e, 0x20 ≤ c.toNat :=
  ⟨decode?_render_eq e, render_printable e⟩

end PropCatalog.Example
