import PropCatalog.Proofs.Json.Digits
import PropCatalog.Proofs.Json.Printer

/-!
# The notation of examples as JSON

Without the question marks between names and colons the notation of an example is a text of strict
JSON for its value (`denotes_unmarked_render`). Two facts carry this. A mark is taken out where a
reader finds it, behind the quote that ends a string and in front of a colon, and nothing else is
taken out, whatever the strings hold (`unmarkedFrom_render`): what is left is the notation of the
example in which no field may be left out. And that notation is written by the grammar of strict
JSON (`denotes_render_required`), where an object keeps each name once, as the value does.
-/

namespace PropCatalog

namespace Json

/-! ## What a text denotes -/

/-- A scalar that a text denotes in strict JSON. Of a number only the text counts that it is printed
with. -/
inductive IsPrintedScalar : (s : Text) → (x : Scalar) → Prop
  | number {x : Number} {n : Numeral} (hs : IsNumeral x.text n) : IsPrintedScalar x.text (.number x)
  | other {s : Text} {x : Scalar} (hx : ∀ n, x ≠ .number n)
      (hs : IsScalar .strict Numeral.Nearest s x) : IsPrintedScalar s x

/-- The texts of a value in strict JSON, with at most the given number of containers open at once.
Numbers are told apart by the texts they are printed with, and of the fields of an object that share
a name the first one gives the place and the last one the value. -/
def Denotes : (nesting : Nat) → Text → Value → Prop
  | 0, s, v => ∃ x, v = .scalar x ∧ IsPrintedScalar s x
  | n + 1, s, v => (∃ x, v = .scalar x ∧ IsPrintedScalar s x) ∨ IsContainer .strict (Denotes n) s v

variable {n : Nat} {s : Text}

theorem denotes_scalar {x : Scalar} (h : IsPrintedScalar s x) : Denotes n s (.scalar x) := by
  cases n with
  | zero => exact ⟨x, rfl, h⟩
  | succ n => exact .inl ⟨x, rfl, h⟩

theorem isPrintedScalar_text (x : Scalar) : IsPrintedScalar x.text x := by
  cases x with
  | null => exact .other (by simp) .null
  | bool b => cases b <;> exact .other (by simp) (by constructor)
  | number x =>
    obtain ⟨n, hn⟩ := x.exists_isNumeral_text
    exact .number hn
  | string s => exact .other (by simp) (.string (.double (quoted_escaped s)))

/-- No object of the value has a name twice. -/
inductive Value.NamesDistinct : Value → Prop
  | scalar {x : Scalar} : NamesDistinct (.scalar x)
  | array {items : List Value} (h : ∀ v ∈ items, v.NamesDistinct) : NamesDistinct (.array items)
  | object {fields : List (Text × Value)} (hnames : (fields.map Prod.fst).Nodup)
      (h : ∀ field ∈ fields, field.2.NamesDistinct) : NamesDistinct (.object fields)

end Json

namespace Example

open Json (Spaces Parts Inside IsField IsName IsString Denotes)

variable {c : Char} {e s t x : Text} {n : Nat}

/-! ## Texts without marks -/

/-- Where a reader of the notation is. -/
inductive Place where
  | outside
  /-- Just behind the quote that ends a string. -/
  | behind
  | inside
  /-- In a string, behind a backslash. -/
  | escaped

/-- The text from a place on, without the question marks that stand between the end of a string and
a colon. -/
def unmarkedFrom : (place : Place) → Text → Text
  | _, [] => []
  | .escaped, c :: s => c :: unmarkedFrom .inside s
  | .inside, c :: s =>
    c :: unmarkedFrom (if c = '\\' then .escaped else if c = '"' then .behind else .inside) s
  | .behind, c :: s =>
    if c = '?' && s.head? = some ':' then unmarkedFrom .outside s
    else c :: unmarkedFrom (if c = '"' then .inside else .outside) s
  | .outside, c :: s => c :: unmarkedFrom (if c = '"' then .inside else .outside) s

/-- The text without the marks of the fields that may be left out. -/
def unmarked (s : Text) : Text :=
  unmarkedFrom .outside s

/-! ### Strings -/

theorem unmarkedFrom_inside_cons (hquote : c ≠ '"') (hescape : c ≠ '\\') (s : Text) :
    unmarkedFrom .inside (c :: s) = c :: unmarkedFrom .inside s := by
  rw [unmarkedFrom, if_neg hescape, if_neg hquote]

theorem unmarkedFrom_inside_append (h : ∀ c ∈ t, c ≠ '"' ∧ c ≠ '\\') (s : Text) :
    unmarkedFrom .inside (t ++ s) = t ++ unmarkedFrom .inside s := by
  induction t with
  | nil => rfl
  | cons c t ih =>
    obtain ⟨hc, ht⟩ := List.forall_mem_cons.1 h
    rw [List.cons_append, unmarkedFrom_inside_cons hc.1 hc.2, ih ht, List.cons_append]

theorem unmarkedFrom_escape (h : Json.Escape e c) (s : Text) :
    unmarkedFrom .inside (e ++ s) = e ++ unmarkedFrom .inside s := by
  have hunit : ∀ {c₁ c₂ c₃ c₄ : Char} {n : Nat}, Json.IsCodeUnit c₁ c₂ c₃ c₄ n → ∀ s : Text,
      unmarkedFrom .inside ('\\' :: 'u' :: ([c₁, c₂, c₃, c₄] ++ s)) =
        '\\' :: 'u' :: ([c₁, c₂, c₃, c₄] ++ unmarkedFrom .inside s) := by
    intro c₁ c₂ c₃ c₄ n hn s
    have hdigits : ∀ c ∈ [c₁, c₂, c₃, c₄], c ≠ '"' ∧ c ≠ '\\' := fun c hc => by
      obtain ⟨m, hm⟩ := hn.isHexDigit c hc
      exact ⟨hm.ne rfl, hm.ne rfl⟩
    rw [unmarkedFrom, if_pos rfl, unmarkedFrom, unmarkedFrom_inside_append hdigits]
  cases h with
  | letter => rfl
  | unit hn => exact hunit hn s
  | pair hhigh hlow =>
    exact (hunit hhigh _).trans (congrArg (fun t => '\\' :: 'u' :: (_ ++ t)) (hunit hlow s))

theorem unmarkedFrom_quote (name s : Text) :
    unmarkedFrom .outside (Json.quote name ++ s) = Json.quote name ++ unmarkedFrom .behind s := by
  have hbody : ∀ {b value : Text}, Json.Quoted .strict '"' b value →
      unmarkedFrom .inside (b ++ '"' :: s) = b ++ '"' :: unmarkedFrom .behind s := by
    intro b value h
    induction h with
    | nil => rfl
    | plain hquote hescape _ _ ih =>
      rw [List.cons_append, unmarkedFrom_inside_cons hquote hescape, ih, List.cons_append]
    | escape he _ ih => rw [List.append_assoc, unmarkedFrom_escape he, ih, List.append_assoc]
    | apostrophe hd => cases hd
  rw [Json.quote_append, Json.quote_append, unmarkedFrom, if_pos rfl,
    hbody (Json.quoted_escaped name)]

/-! ### What stands between strings -/

theorem unmarkedFrom_outside_append (h : '"' ∉ t) (s : Text) :
    unmarkedFrom .outside (t ++ s) = t ++ unmarkedFrom .outside s := by
  induction t with
  | nil => rfl
  | cons c t ih =>
    obtain ⟨hc, ht⟩ := List.ne_and_not_mem_of_not_mem_cons h
    rw [List.cons_append, unmarkedFrom, if_neg hc.symm, ih ht, List.cons_append]

theorem unmarkedFrom_behind (h : s.head? ≠ some '?') :
    unmarkedFrom .behind s = unmarkedFrom .outside s := by
  cases s with
  | nil => rfl
  | cons c s =>
    have hc : ¬ (c = '?' && s.head? = some ':') = true := by
      simp only [Bool.and_eq_true, decide_eq_true_eq, not_and]
      rintro rfl
      exact absurd rfl h
    rw [unmarkedFrom, if_neg hc, unmarkedFrom]

theorem unmarkedFrom_fieldHead (name : Text) (optional : Bool) (s : Text) :
    unmarkedFrom .outside (fieldHead name optional ++ s) =
      fieldHead name false ++ unmarkedFrom .outside s := by
  rw [fieldHead, fieldHead, List.append_assoc, unmarkedFrom_quote, List.append_assoc]
  cases optional <;> rfl

theorem unmarkedFrom_scalar (x : Json.Scalar) (hs : s.head? ≠ some '?') :
    unmarkedFrom .outside (x.text ++ s) = x.text ++ unmarkedFrom .outside s := by
  cases x with
  | null => exact unmarkedFrom_outside_append (by decide) s
  | bool b => cases b <;> exact unmarkedFrom_outside_append (by decide) s
  | number n =>
    refine unmarkedFrom_outside_append (fun hmem => ?_) s
    exact absurd (n.isNumberText_text _ hmem) (by decide)
  | string text =>
    rw [Json.Scalar.text, unmarkedFrom_quote, unmarkedFrom_behind hs]

/-! ## Examples without marks -/

mutual

/-- The example in which no field may be left out. -/
def required : Example → Example
  | .scalar x => .scalar x
  | .array items => .array (requiredItems items)
  | .object fields => .object (requiredFields fields)

def requiredItems : List Example → List Example
  | [] => []
  | e :: rest => required e :: requiredItems rest

def requiredFields : List (Field Example) → List (Field Example)
  | [] => []
  | f :: rest => ⟨f.name, false, required f.value⟩ :: requiredFields rest

end

mutual

theorem unmarkedFrom_render : (e : Example) → (s : Text) → s.head? ≠ some '?' →
    unmarkedFrom .outside (render e ++ s) = render e.required ++ unmarkedFrom .outside s
  | .scalar x, s, hs => unmarkedFrom_scalar x hs
  | .array items, s, _ => by
    have hclose : (']' :: s).head? ≠ some '?' := by simp
    have hitems := unmarkedFrom_renderItems items (']' :: s) hclose
    simp [render, required, unmarkedFrom, hitems]
  | .object fields, s, _ => by
    have hclose : ('}' :: s).head? ≠ some '?' := by simp
    have hfields := unmarkedFrom_renderFields fields ('}' :: s) hclose
    simp [render, required, unmarkedFrom, hfields]

theorem unmarkedFrom_renderItems : (items : List Example) → (s : Text) → s.head? ≠ some '?' →
    unmarkedFrom .outside (renderItems items ++ s) =
      renderItems (requiredItems items) ++ unmarkedFrom .outside s
  | [], _, _ => rfl
  | [e], s, hs => unmarkedFrom_render e s hs
  | e :: e' :: rest, s, hs => by
    have hcomma : (',' :: ' ' :: (renderItems (e' :: rest) ++ s)).head? ≠ some '?' := by simp
    have hrest := unmarkedFrom_renderItems (e' :: rest) s hs
    have hfirst := unmarkedFrom_render e _ hcomma
    simp only [requiredItems] at hrest ⊢
    simp [renderItems, hfirst, unmarkedFrom, hrest]

theorem unmarkedFrom_renderFields : (fields : List (Field Example)) → (s : Text) →
    s.head? ≠ some '?' → unmarkedFrom .outside (renderFields fields ++ s) =
      renderFields (requiredFields fields) ++ unmarkedFrom .outside s
  | [], _, _ => rfl
  | [f], s, hs => by
    rw [renderFields, List.append_assoc, unmarkedFrom_fieldHead, unmarkedFrom_render f.value s hs]
    simp [requiredFields, renderFields]
  | f :: f' :: rest, s, hs => by
    have hcomma : (',' :: ' ' :: (renderFields (f' :: rest) ++ s)).head? ≠ some '?' := by simp
    have hrest := unmarkedFrom_renderFields (f' :: rest) s hs
    have hfirst := unmarkedFrom_render f.value _ hcomma
    simp only [requiredFields] at hrest ⊢
    simp [renderFields, unmarkedFrom_fieldHead, hfirst, unmarkedFrom, hrest]

end

theorem unmarked_render (e : Example) : unmarked (render e) = render e.required := by
  have hrender := unmarkedFrom_render e [] (by simp)
  rwa [List.append_nil, unmarkedFrom, List.append_nil] at hrender

/-! ## The value of a notation -/

mutual

/-- How many containers of an example stand inside one another. -/
def containers : Example → Nat
  | .scalar _ => 0
  | .array items => containersOfItems items + 1
  | .object fields => containersOfFields fields + 1

def containersOfItems : List Example → Nat
  | [] => 0
  | e :: rest => max (containers e) (containersOfItems rest)

def containersOfFields : List (Field Example) → Nat
  | [] => 0
  | f :: rest => max (containers f.value) (containersOfFields rest)

end

/-- The fields of an example object with their values, repeated ones too. -/
def jsonFields (fields : List (Field Example)) : List (Text × Json.Value) :=
  fields.map fun f => (f.name, f.value.toJson)

theorem toJson_object (fields : List (Field Example)) :
    toJson (.object fields) = .object (Json.merged (jsonFields fields)) := by
  have hfold : ∀ (fields : List (Field Example)) (before : List (Text × Json.Value)),
      toJsonFields before fields =
        (jsonFields fields).foldl (fun merged field => Json.setField field.1 field.2 merged)
          before := by
    intro fields
    induction fields with
    | nil => exact fun _ => rfl
    | cons f fields ih => exact fun before => ih _
  rw [toJson, hfold]
  exact congrArg Json.Value.object (Json.foldl_setField [] (jsonFields fields))

theorem denotes_field {v : Json.Value} (name : Text) (h : Denotes n t v) :
    IsField .strict (Denotes n) (fieldHead name false ++ t) (name, v) := by
  have hname : IsName .strict (Json.quote name) name :=
    .string (.double (Json.quoted_escaped name))
  have hspace : Spaces [' '] := by simp [Spaces, Json.isSpace]
  have hfield := Json.IsField.mk hname Json.spaces_nil hspace h
  simpa [fieldHead] using hfield

mutual

/-- The notation of an example without marks is strict JSON for its value. -/
theorem denotes_render_required : (e : Example) → (n : Nat) → e.containers ≤ n →
    Denotes n (render e.required) e.toJson
  | .scalar x, _, _ => Json.denotes_scalar (Json.isPrintedScalar_text x)
  | .array [], n + 1, _ => .inr (.array (.empty (.inl Json.spaces_nil)))
  | .array (e :: rest), n + 1, h =>
    .inr (.array (.parts (parts_renderItems (e :: rest) (by simp) n (Nat.le_of_succ_le_succ h) []
      Json.spaces_nil)))
  | .object [], n + 1, _ => .inr (.object (.empty (.inl Json.spaces_nil)))
  | .object (f :: rest), n + 1, h => by
    rw [toJson_object]
    exact .inr (.object (.parts (parts_renderFields (f :: rest) (by simp) n
      (Nat.le_of_succ_le_succ h) [] Json.spaces_nil)))

theorem parts_renderItems : (items : List Example) → items ≠ [] → (n : Nat) →
    containersOfItems items ≤ n → (w : Text) → Spaces w →
    Parts .strict (Denotes n) (w ++ renderItems (requiredItems items)) (toJsonItems items)
  | [], h, _, _, _, _ => absurd rfl h
  | [e], _, n, h, w, hw => by
    have hpart := denotes_render_required e n ((Nat.le_max_left _ _).trans h)
    have hlast := Parts.last (d := .strict) hw hpart (.inl Json.spaces_nil)
    rwa [List.append_nil] at hlast
  | e :: e' :: rest, _, n, h, w, hw => by
    have hspace : Spaces [' '] := by simp [Spaces, Json.isSpace]
    have hpart := denotes_render_required e n ((Nat.le_max_left _ _).trans h)
    have hrest := parts_renderItems (e' :: rest) (by simp) n ((Nat.le_max_right _ _).trans h)
      [' '] hspace
    exact .cons hw hpart Json.spaces_nil hrest

theorem parts_renderFields : (fields : List (Field Example)) → fields ≠ [] → (n : Nat) →
    containersOfFields fields ≤ n → (w : Text) → Spaces w →
    Parts .strict (IsField .strict (Denotes n)) (w ++ renderFields (requiredFields fields))
      (jsonFields fields)
  | [], h, _, _, _, _ => absurd rfl h
  | [f], _, n, h, w, hw => by
    have hpart := denotes_field f.name
      (denotes_render_required f.value n ((Nat.le_max_left _ _).trans h))
    have hlast := Parts.last (d := .strict) hw hpart (.inl Json.spaces_nil)
    rwa [List.append_nil] at hlast
  | f :: f' :: rest, _, n, h, w, hw => by
    have hspace : Spaces [' '] := by simp [Spaces, Json.isSpace]
    have hpart := denotes_field f.name
      (denotes_render_required f.value n ((Nat.le_max_left _ _).trans h))
    have hrest := parts_renderFields (f' :: rest) (by simp) n ((Nat.le_max_right _ _).trans h)
      [' '] hspace
    exact .cons hw hpart Json.spaces_nil hrest

end

/-! ## Examples of JSON values -/

mutual

theorem required_ofJson : (v : Json.Value) → (ofJson v).required = ofJson v
  | .scalar _ => rfl
  | .array items => by rw [ofJson, required, requiredItems_ofJson items]
  | .object fields => by rw [ofJson, required, requiredFields_ofJson fields]

theorem requiredItems_ofJson : (items : List Json.Value) →
    requiredItems (ofJsonItems items) = ofJsonItems items
  | [] => rfl
  | v :: rest => by rw [ofJsonItems, requiredItems, required_ofJson v, requiredItems_ofJson rest]

theorem requiredFields_ofJson : (fields : List (Text × Json.Value)) →
    requiredFields (ofJsonFields fields) = ofJsonFields fields
  | [] => rfl
  | (name, v) :: rest => by
    rw [ofJsonFields, requiredFields, required_ofJson v, requiredFields_ofJson rest]

end

mutual

theorem toJson_ofJson : (v : Json.Value) → v.NamesDistinct → (ofJson v).toJson = v
  | .scalar _, _ => rfl
  | .array items, h => by
    cases h with
    | array h => rw [ofJson, toJson, toJsonItems_ofJson items h]
  | .object fields, h => by
    cases h with
    | object hnames h =>
      rw [ofJson, toJson, toJsonFields_ofJson fields [] (by simpa using hnames) h,
        List.nil_append]

theorem toJsonItems_ofJson : (items : List Json.Value) → (∀ v ∈ items, v.NamesDistinct) →
    toJsonItems (ofJsonItems items) = items
  | [], _ => rfl
  | v :: rest, h => by
    obtain ⟨hv, hrest⟩ := List.forall_mem_cons.1 h
    rw [ofJsonItems, toJsonItems, toJson_ofJson v hv, toJsonItems_ofJson rest hrest]

theorem toJsonFields_ofJson : (fields before : List (Text × Json.Value)) →
    ((before ++ fields).map Prod.fst).Nodup → (∀ field ∈ fields, field.2.NamesDistinct) →
    toJsonFields before (ofJsonFields fields) = before ++ fields
  | [], before, _, _ => by rw [ofJsonFields, toJsonFields, List.append_nil]
  | (name, v) :: rest, before, hnames, h => by
    obtain ⟨hv, hrest⟩ := List.forall_mem_cons.1 h
    have hnew : name ∉ before.map Prod.fst := by
      rw [List.map_append, List.nodup_append] at hnames
      exact fun hmem => hnames.2.2 name hmem name (by simp) rfl
    rw [ofJsonFields, toJsonFields, toJson_ofJson v hv, Json.setField_of_notMem hnew,
      toJsonFields_ofJson rest _ (by simpa using hnames) hrest]
    simp

end

/-- **The notation and the value of an example agree.** Without the question marks that stand
between a name and its colon the notation of an example is strict JSON, and what it denotes is the
value of the example. The notation of the example of a JSON value is itself strict JSON for that
value. -/
theorem denotes_unmarked_render (e : Example) (v : Json.Value) (hv : v.NamesDistinct) :
    Denotes e.containers (unmarked (render e)) e.toJson ∧
      Denotes (ofJson v).containers (render (ofJson v)) v := by
  refine ⟨?_, ?_⟩
  · rw [unmarked_render]
    exact denotes_render_required e e.containers (Nat.le_refl _)
  · have hdenotes := denotes_render_required (ofJson v) (ofJson v).containers (Nat.le_refl _)
    rwa [required_ofJson, toJson_ofJson v hv] at hdenotes

/-- A name that stands twice and has a question mark of its own, and a string that holds what looks
like a mark. -/
def markedSample : Example :=
  .object [⟨"a?".toList, true, .scalar (.number (.int 1))⟩, ⟨"b".toList, false, .array []⟩,
    ⟨"a?".toList, false, .scalar (.string "\"?:".toList)⟩]

/-- A JSON value with a name like that. -/
def valueSample : Json.Value :=
  .object [("a?".toList, .array [.scalar .null])]

theorem denotes_unmarked_render_repeated :
    valueSample.NamesDistinct ∧
      render markedSample =
        "\x7b\"a?\"?: 1, \"b\": [], \"a?\": \"\\\"?:\"\x7d".toList ∧
      Denotes 2 "\x7b\"a?\": 1, \"b\": [], \"a?\": \"\\\"?:\"\x7d".toList
        (.object [("a?".toList, .scalar (.string "\"?:".toList)), ("b".toList, .array [])]) ∧
      Denotes 2 "\x7b\"a?\": [null]\x7d".toList valueSample := by
  have hdistinct : valueSample.NamesDistinct := by
    refine .object (by decide) ?_
    rw [List.forall_mem_singleton]
    refine .array ?_
    rw [List.forall_mem_singleton]
    exact .scalar
  obtain ⟨hmarked, hvalue⟩ := denotes_unmarked_render markedSample valueSample hdistinct
  have htext : unmarked (render markedSample) =
      "\x7b\"a?\": 1, \"b\": [], \"a?\": \"\\\"?:\"\x7d".toList := by decide +kernel
  rw [htext] at hmarked
  exact ⟨hdistinct, by decide +kernel, hmarked, hvalue⟩

end Example

end PropCatalog
