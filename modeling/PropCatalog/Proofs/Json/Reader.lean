import PropCatalog.Proofs.Json.Scalar

/-!
# The reader and the grammar

The reader takes tokens over a stack of open containers. `Reading.finish?` is its run from any state
on, text and not tokens in its hand. From a state that expects a value, a text of the grammar leads
to the state that has read its value (`Reads`), and no other text leads to a result (`Recovers`);
both are carried from the parts of a container to the container, and together they say that reading
accepts exactly the grammar, with the value it gives (`read?_eq_some_iff`).
-/

namespace PropCatalog.Json

variable {s x w rest : Text} {c : Char} {limit : Nat} {v : Value}

/-! ## What follows a value -/

theorem isSpace_eq_true_iff : isSpace c = true ↔ c = ' ' ∨ c = '\t' ∨ c = '\n' ∨ c = '\r' := by
  simp [isSpace, or_assoc]

/-- After a complete value, and spaces, comes nothing, a comma or a closer. -/
def Closes (s : Text) : Prop :=
  ∀ c ∈ s.find? fun c => !isSpace c, c = ',' ∨ c = ']' ∨ c = '}'

theorem isBlank_of_isSpace (h : isSpace c = true) : Text.isBlank c = true := by
  rcases isSpace_eq_true_iff.1 h with rfl | rfl | rfl | rfl <;> rfl

theorem find?_spaces_append (hw : Spaces w) (s : Text) :
    (w ++ s).find? (fun c => !isSpace c) = s.find? fun c => !isSpace c := by
  have hnone : w.find? (fun c => !isSpace c) = none := by
    rw [List.find?_eq_none]
    intro c hc
    simpa using hw c hc
  rw [List.find?_append, hnone, Option.none_or]

theorem Closes.append_left (hw : Spaces w) (hs : Closes s) : Closes (w ++ s) := by
  rwa [Closes, find?_spaces_append hw]

theorem closes_of_spaces (hw : Spaces w) : Closes w := by
  rw [Closes, ← List.append_nil w, find?_spaces_append hw]
  simp

theorem closes_cons (hc : c = ',' ∨ c = ']' ∨ c = '}') (s : Text) : Closes (c :: s) := by
  have hspace : isSpace c = false := by rcases hc with rfl | rfl | rfl <;> rfl
  rw [Closes, List.find?_cons_of_pos (by simp [hspace])]
  rintro _ ⟨⟩
  exact hc

theorem Closes.head?_any {p : Char → Bool} (hs : Closes s)
    (hp : [' ', '\t', '\n', '\r', ',', ']', '}'].all fun c => !p c) : s.head?.any p = false := by
  rw [Option.any_eq_false]
  intro c hc
  have hmem : c ∈ [' ', '\t', '\n', '\r', ',', ']', '}'] := by
    cases s with
    | nil => cases hc
    | cons d s =>
      obtain rfl := Option.some.inj hc
      by_cases hspace : isSpace d = true
      · rcases isSpace_eq_true_iff.1 hspace with rfl | rfl | rfl | rfl <;> simp
      · rcases hs d (List.find?_cons_of_pos (by simpa using hspace)) with rfl | rfl | rfl <;> simp
  simpa using List.all_eq_true.1 hp c hmem

/-! ## Tokens -/

theorem IsToken.head? {a : Text} {t : Token} (h : IsToken a t) :
    ∃ c b, a = c :: b ∧ isSpace c = false := by
  cases h with
  | scalar hs =>
    cases hs with
    | null | true | false => exact ⟨_, _, rfl, rfl⟩
    | number hn =>
      obtain ⟨c, b, rfl, hc⟩ := hn.head?
      refine ⟨c, b, rfl, Bool.eq_false_iff.2 fun hspace => ?_⟩
      rcases isSpace_eq_true_iff.1 hspace with rfl | rfl | rfl | rfl <;> simp at hc
    | string hs =>
      cases hs with
      | double => exact ⟨_, _, rfl, rfl⟩
      | single hd => cases hd
  | _ => exact ⟨_, _, rfl, rfl⟩

theorem IsToken.head?_ne {a : Text} {t : Token} (h : IsToken a t) (ht : t ≠ .closeArray) :
    a.head? ≠ some ']' := by
  cases h with
  | closeArray => exact absurd rfl ht
  | scalar hs =>
    obtain ⟨c, b, rfl, -, hclose, -⟩ := hs.begins
    exact fun hc => hclose (Option.some.inj hc)
  | _ => simp

namespace Token

theorem scan?_spaces_append (hw : Spaces w) (s : Text) : scan? (w ++ s) = scan? s := by
  rw [scan?, scan?, List.dropWhile_append_of_pos hw]

theorem scan?_cons (hc : isSpace c = false) (s : Text) :
    scan? (c :: s) = (next? (c :: s)).bind fun (t, rest) => (scan? rest).map (t :: ·) := by
  have hdrop : (c :: s).dropWhile isSpace = c :: s := List.dropWhile_cons_of_neg (by simp [hc])
  rw [scan?]
  split
  next h =>
    rw [hdrop] at h
    cases h
  next h =>
    rw [hdrop] at h
    obtain ⟨rfl, rfl⟩ := List.cons.inj h
    split
    next hnone => rw [hnone, Option.bind_none]
    next hsome => rw [hsome, Option.bind_some]

end Token

/-! ## Runs of the reader -/

namespace Reading

/-- The value that the reader comes to when it takes the text `s` in the state `r`. -/
def finish? (limit : Nat) (r : Reading) (s : Text) : Option Value :=
  (Token.scan? s).bind fun tokens => (tokens.foldlM (step? limit) r).bind result?

theorem finish?_nil (r : Reading) : finish? limit r [] = r.result? := by
  have hscan : Token.scan? [] = some [] := by rw [Token.scan?]; rfl
  rw [finish?, hscan]
  rfl

theorem finish?_spaces_append (hw : Spaces w) (r : Reading) (s : Text) :
    finish? limit r (w ++ s) = finish? limit r s := by
  rw [finish?, Token.scan?_spaces_append hw, finish?]

theorem finish?_spaces (hw : Spaces w) (r : Reading) : finish? limit r w = r.result? := by
  rw [← List.append_nil w, finish?_spaces_append hw, finish?_nil]

theorem finish?_cons (hc : isSpace c = false) (r : Reading) (s : Text) :
    finish? limit r (c :: s) = (Token.next? (c :: s)).bind fun (t, rest) =>
      (step? limit r t).bind fun r => finish? limit r rest := by
  rw [finish?, Token.scan?_cons hc]
  cases Token.next? (c :: s) with
  | none => rfl
  | some found =>
    obtain ⟨t, rest⟩ := found
    simp only [Option.bind_some]
    cases hscan : Token.scan? rest with
    | none => cases step? limit r t <;> simp [finish?, hscan]
    | some tokens =>
      simp only [Option.map_some, Option.bind_some, List.foldlM_cons, finish?, hscan]
      exact Option.bind_assoc ..

theorem finish?_of_next? {t : Token} (hc : isSpace c = false)
    (ht : Token.next? (c :: s) = some (t, rest)) (r : Reading) :
    finish? limit r (c :: s) = (step? limit r t).bind fun r => finish? limit r rest := by
  rw [finish?_cons hc, ht, Option.bind_some]

theorem finish?_scalar {x : Scalar} (hs : IsScalar .strict Numeral.Stepwise s x)
    (hrest : rest.head?.any isNumeralRest = false) (r : Reading) :
    finish? limit r (s ++ rest) =
      (step? limit r (.scalar x)).bind fun r => finish? limit r rest := by
  have ht := Token.next?_scalar hs hrest
  obtain ⟨c, b, rfl, hc⟩ := (IsToken.scalar hs).head?
  exact finish?_of_next? hc ht r

theorem finish?_eq_some {r : Reading} (h : finish? limit r s = some v) :
    (Spaces s ∧ r.result? = some v) ∨
      ∃ w a rest t r', s = w ++ (a ++ rest) ∧ Spaces w ∧ IsToken a t ∧
        step? limit r t = some r' ∧ finish? limit r' rest = some v := by
  induction s with
  | nil => exact .inl ⟨by simp [Spaces], by rwa [finish?_nil] at h⟩
  | cons c s ih =>
    by_cases hc : isSpace c = true
    · -- a space changes nothing
      have hw : Spaces [c] := by simpa [Spaces] using hc
      have hskip : finish? limit r s = some v := by
        rwa [← List.singleton_append, finish?_spaces_append hw] at h
      rcases ih hskip with ⟨hs, hresult⟩ | ⟨w, a, rest, t, r', rfl, hw', ht, hstep, hrest⟩
      · exact .inl ⟨List.forall_mem_cons.2 ⟨hc, hs⟩, hresult⟩
      · exact .inr ⟨c :: w, a, rest, t, r', rfl, List.forall_mem_cons.2 ⟨hc, hw'⟩, ht, hstep, hrest⟩
    · rw [finish?_cons (Bool.eq_false_iff.2 hc)] at h
      obtain ⟨⟨t, rest⟩, hnext, h⟩ := Option.bind_eq_some_iff.1 h
      obtain ⟨r', hstep, hrest⟩ := Option.bind_eq_some_iff.1 h
      obtain ⟨a, ha, hs⟩ := Token.next?_eq_some hnext
      exact .inr ⟨[], a, rest, t, r', hs, by simp [Spaces], ha, hstep, hrest⟩

/-! ## What the grammar has is read -/

/-- With `depth` open containers, a text that `part` spells is read as its value. -/
def Reads (limit depth : Nat) (part : Text → Value → Prop) : Prop :=
  ∀ ⦃stack : List Frame⦄ ⦃s x : Text⦄ ⦃v : Value⦄, stack.length = depth → part s v → Closes x →
    finish? limit ⟨stack, .value⟩ (s ++ x) = finish? limit ⟨stack, .follow v⟩ x

variable {part : Text → Value → Prop} {stack : List Frame} {e : Text}

theorem spaces_of_ending (he : Ending .strict e) : Spaces e := by
  obtain he | ⟨hd, -⟩ := he
  · exact he
  · cases hd

theorem Reads.array (hpart : Reads limit (stack.length + 1) part) {items : List Value}
    (hs : Parts .strict part s items) (before : List Value) (x : Text) :
    finish? limit ⟨.array before :: stack, .value⟩ (s ++ ']' :: x) =
      finish? limit ⟨stack, .follow (.array (before.reverse ++ items))⟩ x := by
  induction hs generalizing before with
  | @last w p e v hw hp he =>
    have hcloses : Closes (e ++ ']' :: x) :=
      (closes_cons (by simp) x).append_left (spaces_of_ending he)
    rw [List.append_assoc, List.append_assoc, finish?_spaces_append hw, hpart rfl hp hcloses,
      finish?_spaces_append (spaces_of_ending he), finish?_of_next? (t := .closeArray) rfl rfl,
      ← List.reverse_cons]
    rfl
  | @cons w p w' s v items hw hp hw' hs ih =>
    have hcloses : Closes (w' ++ ',' :: (s ++ ']' :: x)) :=
      (closes_cons (by simp) _).append_left hw'
    have happend : w ++ (p ++ (w' ++ ',' :: s)) ++ ']' :: x =
        w ++ (p ++ (w' ++ ',' :: (s ++ ']' :: x))) := by simp
    rw [happend, finish?_spaces_append hw, hpart rfl hp hcloses, finish?_spaces_append hw',
      finish?_of_next? (t := .comma) rfl rfl]
    exact (ih (v :: before)).trans (by rw [List.reverse_cons, List.append_assoc]; rfl)

theorem Reads.field (hpart : Reads limit (stack.length + 1) part) {field : Text × Value}
    (hs : IsField .strict part s field) (hx : Closes x) (before : List (Text × Value))
    (first : Bool) :
    finish? limit ⟨stack, .name before first⟩ (s ++ x) =
      finish? limit ⟨.object before field.1 :: stack, .follow field.2⟩ x := by
  obtain @⟨a, name, w, w', t, v, hname, hw, hw', hv⟩ := hs
  cases hname with
  | word hd => cases hd
  | string hstring =>
    have hcolon : (w ++ ':' :: (w' ++ (t ++ x))).head?.any isNumeralRest = false := by
      cases w with
      | nil => rfl
      | cons c w =>
        rcases isSpace_eq_true_iff.1 (hw c (by simp)) with rfl | rfl | rfl | rfl <;> rfl
    have happend : a ++ (w ++ ':' :: (w' ++ t)) ++ x = a ++ (w ++ ':' :: (w' ++ (t ++ x))) := by
      simp
    rw [happend, finish?_scalar (.string hstring) hcolon]
    refine (finish?_spaces_append hw _ _).trans ?_
    rw [finish?_of_next? (t := .colon) rfl rfl]
    exact (finish?_spaces_append hw' _ _).trans (hpart rfl hv hx)

theorem Reads.object (hpart : Reads limit (stack.length + 1) part)
    {fields : List (Text × Value)} (hs : Parts .strict (IsField .strict part) s fields)
    (before : List (Text × Value)) (first : Bool) (x : Text) :
    finish? limit ⟨stack, .name before first⟩ (s ++ '}' :: x) =
      finish? limit ⟨stack, .follow (.object
        (fields.foldl (fun merged field => setField field.1 field.2 merged) before))⟩ x := by
  induction hs generalizing before first with
  | @last w p e field hw hp he =>
    have hcloses : Closes (e ++ '}' :: x) :=
      (closes_cons (by simp) x).append_left (spaces_of_ending he)
    rw [List.append_assoc, List.append_assoc, finish?_spaces_append hw, hpart.field hp hcloses,
      finish?_spaces_append (spaces_of_ending he), finish?_of_next? (t := .closeObject) rfl rfl]
    rfl
  | @cons w p w' s field fields hw hp hw' hs ih =>
    have hcloses : Closes (w' ++ ',' :: (s ++ '}' :: x)) :=
      (closes_cons (by simp) _).append_left hw'
    have happend : w ++ (p ++ (w' ++ ',' :: s)) ++ '}' :: x =
        w ++ (p ++ (w' ++ ',' :: (s ++ '}' :: x))) := by simp
    rw [happend, finish?_spaces_append hw, hpart.field hp hcloses, finish?_spaces_append hw',
      finish?_of_next? (t := .comma) rfl rfl]
    exact ih (setField field.1 field.2 before) false

theorem finish?_item (hspace : isSpace c = false) (hclose : c ≠ ']') (items : List Value)
    (s : Text) :
    finish? limit ⟨.array items :: stack, .item⟩ (c :: s) =
      finish? limit ⟨.array items :: stack, .value⟩ (c :: s) := by
  rw [finish?_cons hspace, finish?_cons hspace]
  refine Option.bind_congr fun ⟨t, rest⟩ ht => ?_
  cases t with
  | closeArray =>
    obtain ⟨a, ha, hs⟩ := Token.next?_eq_some ht
    cases ha
    exact absurd (List.cons.inj hs).1 hclose
  | _ => rfl

theorem Reads.container {depth : Nat} (hpart : Reads limit (depth + 1) part)
    (hbegins : ∀ s v, part s v → Begins s) (hdepth : depth < limit) :
    Reads limit depth (IsContainer .strict part) := by
  rintro stack s x v rfl hs hx
  cases hs with
  | @array inside items hinside =>
    rw [List.cons_append, List.append_assoc, List.singleton_append,
      finish?_of_next? (t := .openArray) rfl rfl]
    have hstep : step? limit ⟨stack, .value⟩ .openArray = some ⟨.array [] :: stack, .item⟩ :=
      if_pos hdepth
    rw [hstep, Option.bind_some]
    cases hinside with
    | empty he =>
      rw [finish?_spaces_append (spaces_of_ending he), finish?_of_next? (t := .closeArray) rfl rfl]
      rfl
    | parts hparts =>
      obtain ⟨w, t, rfl, hw, c, t, rfl, hblank, hclose, -⟩ := hparts.begins hbegins
      -- the array starts with a value, so its state is one that expects a value
      have hspace : isSpace c = false :=
        Bool.eq_false_iff.2 fun h => by rw [isBlank_of_isSpace h] at hblank; cases hblank
      rw [List.append_assoc, finish?_spaces_append hw, List.cons_append,
        finish?_item hspace hclose, ← finish?_spaces_append hw, ← List.cons_append,
        ← List.append_assoc]
      exact hpart.array hparts [] x
  | @object inside fields hinside =>
    rw [List.cons_append, List.append_assoc, List.singleton_append,
      finish?_of_next? (t := .openObject) rfl rfl]
    have hstep : step? limit ⟨stack, .value⟩ .openObject = some ⟨stack, .name [] true⟩ :=
      if_pos hdepth
    rw [hstep, Option.bind_some]
    cases hinside with
    | empty he =>
      rw [finish?_spaces_append (spaces_of_ending he), finish?_of_next? (t := .closeObject) rfl rfl]
      rfl
    | parts hparts =>
      rw [hpart.object hparts]
      rw [← List.nil_append fields, ← foldl_setField]
      rfl

theorem reads_leaf (limit depth : Nat) : Reads limit depth (IsLeaf .strict Numeral.Stepwise) := by
  rintro stack s x _ - ⟨hs⟩ hx
  rw [finish?_scalar hs (hx.head?_any (by decide))]
  rfl

theorem reads_spells {n depth : Nat} (h : depth + n ≤ limit) :
    Reads limit depth (Spells .strict Numeral.Stepwise n) := by
  induction n generalizing depth with
  | zero => exact reads_leaf limit depth
  | succ n ih =>
    rintro stack s x v hdepth (hs | hs) hx
    · exact reads_leaf limit depth hdepth hs hx
    · exact (ih (by omega)).container (fun _ _ => Spells.begins) (by omega) hdepth hs hx

/-! ## What is read is in the grammar -/

/-- With `depth` open containers, a text of fewer than `bound` characters that leads from a state
that expects a value to a result starts, behind spaces, with a text that `part` spells. -/
def Recovers (limit depth bound : Nat) (part : Text → Value → Prop) : Prop :=
  ∀ ⦃stack : List Frame⦄ ⦃s : Text⦄ ⦃result : Value⦄, stack.length = depth → s.length < bound →
    finish? limit ⟨stack, .value⟩ s = some result →
      ∃ w a x v, s = w ++ (a ++ x) ∧ Spaces w ∧ part a v ∧
        finish? limit ⟨stack, .follow v⟩ x = some result

variable {bound : Nat} {result : Value} {before : List (Text × Value)} {first : Bool}

theorem Recovers.array (hpart : Recovers limit (stack.length + 1) bound part)
    {before : List Value} (hs : s.length < bound)
    (h : finish? limit ⟨.array before :: stack, .value⟩ s = some result) :
    ∃ inside items x, s = inside ++ ']' :: x ∧ Parts .strict part inside items ∧
      finish? limit ⟨stack, .follow (.array (before.reverse ++ items))⟩ x = some result := by
  induction hn : s.length using Nat.strongRecOn generalizing s before with
  | ind n ih =>
    obtain ⟨w, a, x, v, rfl, hw, ha, hx⟩ := hpart rfl hs h
    obtain ⟨-, hresult⟩ | ⟨w', b, rest, t, r, rfl, hw', ht, hstep, hrest⟩ := finish?_eq_some hx
    · cases hresult
    · cases t with
      | comma =>
        cases ht
        obtain rfl := Option.some.inj hstep
        simp only [List.length_append, List.length_cons] at hn hs
        obtain ⟨inside, items, x, rfl, hparts, hx⟩ := ih _ (by omega) (by omega) hrest rfl
        refine ⟨w ++ (a ++ (w' ++ ',' :: inside)), v :: items, x, by simp,
          .cons hw ha hw' hparts, ?_⟩
        simpa using hx
      | closeArray =>
        cases ht
        obtain rfl := Option.some.inj hstep
        refine ⟨w ++ (a ++ w'), [v], rest, by simp, .last hw ha (.inl hw'), ?_⟩
        simpa using hrest
      | _ => cases hstep

theorem isName_of_isToken {a name : Text} (h : IsToken a (.scalar (.string name))) :
    IsName .strict a name := by
  cases h with
  | scalar hs =>
    cases hs with
    | string hs => exact .string hs

theorem Recovers.field (hpart : Recovers limit (stack.length + 1) bound part)
    (hs : s.length < bound) (h : finish? limit ⟨stack, .name before first⟩ s = some result) :
    (∃ w x, s = w ++ '}' :: x ∧ Spaces w ∧ first = true ∧
      finish? limit ⟨stack, .follow (.object before)⟩ x = some result) ∨
    ∃ w a x field, s = w ++ (a ++ x) ∧ Spaces w ∧ IsField .strict part a field ∧
      finish? limit ⟨.object before field.1 :: stack, .follow field.2⟩ x = some result := by
  obtain ⟨-, hresult⟩ | ⟨w, a, rest, t, r, rfl, hw, ht, hstep, hrest⟩ := finish?_eq_some h
  · cases stack <;> cases hresult
  · cases t with
    | closeObject =>
      cases ht
      cases first with
      | true =>
        obtain rfl := Option.some.inj hstep
        exact .inl ⟨w, rest, rfl, hw, rfl, hrest⟩
      | false => cases hstep
    | scalar x =>
      cases x with
      | string name =>
        obtain rfl := Option.some.inj hstep
        obtain ⟨-, hresult⟩ | ⟨w', b, rest', t, r, rfl, hw', hcolon, hstep, hrest⟩ :=
          finish?_eq_some hrest
        · cases stack <;> cases hresult
        · change (if t = .colon then some ⟨.object before name :: stack, .value⟩ else none) =
            some r at hstep
          split at hstep
          next heq =>
            subst heq
            cases hcolon
            obtain rfl := Option.some.inj hstep
            simp only [List.length_append, List.length_cons] at hs
            obtain ⟨w'', c, x, v, rfl, hw'', hc, hx⟩ := hpart rfl (by omega) hrest
            have hfield := IsField.mk (isName_of_isToken ht) hw' hw'' hc
            exact .inr ⟨w, _, x, (name, v), by simp, hw, hfield, hx⟩
          next => cases hstep
      | _ => cases hstep
    | _ => cases hstep

theorem Recovers.object (hpart : Recovers limit (stack.length + 1) bound part)
    (hs : s.length < bound) (h : finish? limit ⟨stack, .name before first⟩ s = some result) :
    (∃ w x, s = w ++ '}' :: x ∧ Spaces w ∧ first = true ∧
      finish? limit ⟨stack, .follow (.object before)⟩ x = some result) ∨
    ∃ inside fields x, s = inside ++ '}' :: x ∧
      Parts .strict (IsField .strict part) inside fields ∧
      finish? limit ⟨stack, .follow (.object
        (fields.foldl (fun merged field => setField field.1 field.2 merged) before))⟩ x =
          some result := by
  -- the text gets shorter with each field
  induction hn : s.length using Nat.strongRecOn generalizing s before first with
  | ind n ih =>
    obtain hempty | ⟨w, a, x, field, rfl, hw, ha, hx⟩ := hpart.field hs h
    · exact .inl hempty
    obtain ⟨-, hresult⟩ | ⟨w', b, rest, t, r, rfl, hw', ht, hstep, hrest⟩ := finish?_eq_some hx
    · cases hresult
    · cases t with
      | comma =>
        cases ht
        obtain rfl := Option.some.inj hstep
        simp only [List.length_append, List.length_cons] at hn hs
        obtain ⟨_, _, -, -, hfirst, -⟩ | ⟨inside, fields, x, rfl, hparts, hx⟩ :=
          ih _ (by omega) (by omega) hrest rfl
        · cases hfirst
        · exact .inr ⟨w ++ (a ++ (w' ++ ',' :: inside)), field :: fields, x, by simp,
            .cons hw ha hw' hparts, hx⟩
      | closeObject =>
        cases ht
        obtain rfl := Option.some.inj hstep
        exact .inr ⟨w ++ (a ++ w'), [field], rest, by simp, .last hw ha (.inl hw'), hrest⟩
      | _ => cases hstep

theorem recovers_item {items : List Value}
    (h : finish? limit ⟨.array items :: stack, .item⟩ s = some result) :
    (∃ w x, s = w ++ ']' :: x ∧ Spaces w ∧
      finish? limit ⟨stack, .follow (.array items)⟩ x = some result) ∨
    finish? limit ⟨.array items :: stack, .value⟩ s = some result := by
  obtain ⟨-, hresult⟩ | ⟨w, a, rest, t, r, rfl, hw, ht, hstep, hrest⟩ := finish?_eq_some h
  · cases hresult
  · by_cases hclose : t = .closeArray
    · subst hclose
      cases ht
      obtain rfl := Option.some.inj hstep
      exact .inl ⟨w, rest, rfl, hw, hrest⟩
    · right
      obtain ⟨c, b, rfl, hspace⟩ := ht.head?
      have hc : c ≠ ']' := by
        rintro rfl
        exact ht.head?_ne hclose rfl
      rw [finish?_spaces_append hw, List.cons_append] at h ⊢
      rwa [finish?_item hspace hc] at h

theorem Recovers.container {depth : Nat} (hpart : Recovers limit (depth + 1) bound part) :
    Recovers limit depth (bound + 1) fun s v =>
      IsLeaf .strict Numeral.Stepwise s v ∨ depth < limit ∧ IsContainer .strict part s v := by
  rintro stack s result rfl hs h
  obtain ⟨-, hresult⟩ | ⟨w, a, rest, t, r, rfl, hw, ht, hstep, hrest⟩ := finish?_eq_some h
  · cases stack <;> cases hresult
  simp only [List.length_append] at hs
  cases t with
  | scalar x =>
    obtain rfl := Option.some.inj hstep
    cases ht with
    | scalar hx => exact ⟨w, a, rest, .scalar x, rfl, hw, .inl (.scalar hx), hrest⟩
  | openArray =>
    cases ht
    change (if stack.length < limit then some ⟨.array [] :: stack, .item⟩ else none) = some r
      at hstep
    split at hstep
    next hdepth =>
      obtain rfl := Option.some.inj hstep
      obtain ⟨e, x, rfl, he, hx⟩ | hvalue := recovers_item hrest
      · exact ⟨w, _, x, _, by simp, hw, .inr ⟨hdepth, .array (.empty (.inl he))⟩, hx⟩
      · simp only [List.length_cons] at hs
        obtain ⟨inside, items, x, rfl, hparts, hx⟩ := hpart.array (by omega) hvalue
        exact ⟨w, _, x, _, by simp, hw, .inr ⟨hdepth, .array (.parts hparts)⟩, hx⟩
    next => cases hstep
  | openObject =>
    cases ht
    change (if stack.length < limit then some ⟨stack, .name [] true⟩ else none) = some r at hstep
    split at hstep
    next hdepth =>
      obtain rfl := Option.some.inj hstep
      simp only [List.length_cons] at hs
      obtain ⟨e, x, rfl, he, -, hx⟩ | ⟨inside, fields, x, rfl, hparts, hx⟩ :=
        hpart.object (by omega) hrest
      · exact ⟨w, _, x, _, by simp, hw, .inr ⟨hdepth, .object (.empty (.inl he))⟩, hx⟩
      · have hmerged := foldl_setField [] fields
        refine ⟨w, _, x, _, by simp, hw, .inr ⟨hdepth, .object (.parts hparts)⟩, ?_⟩
        -- setting the fields one after the other merges them
        rwa [← List.nil_append fields, ← hmerged]
    next => cases hstep
  | _ => cases hstep

theorem recovers_spells (limit depth bound : Nat) :
    Recovers limit depth bound (Spells .strict Numeral.Stepwise (limit - depth)) := by
  -- by the length of the text, as a container is longer than each of its parts
  induction bound generalizing depth with
  | zero =>
    intro stack s result hdepth hs
    cases hs
  | succ bound ih =>
    intro stack s result hdepth hs h
    obtain ⟨w, a, x, v, hsplit, hw, hv, hx⟩ := (ih (depth + 1)).container hdepth hs h
    refine ⟨w, a, x, v, hsplit, hw, ?_, hx⟩
    obtain hv | ⟨hlt, hv⟩ := hv
    · exact spells_of_isLeaf hv
    · obtain ⟨n, hn⟩ : ∃ n, limit - depth = n + 1 := ⟨limit - depth - 1, by omega⟩
      have hn' : limit - (depth + 1) = n := by omega
      rw [hn'] at hv
      rw [hn]
      exact .inr hv

end Reading

/-- Reading accepts exactly the texts of the grammar, with spaces around them, and gives the
values they denote. -/
theorem read?_eq_some_iff : read? limit s = some v ↔
    ∃ w a w', s = w ++ (a ++ w') ∧ Spaces w ∧ Spaces w' ∧
      Spells .strict Numeral.Stepwise limit a v := by
  have hread : read? limit s = Reading.finish? limit ⟨[], .value⟩ s := rfl
  rw [hread]
  constructor
  · intro h
    obtain ⟨w, a, x, u, rfl, hw, hu, hx⟩ :=
      Reading.recovers_spells limit 0 (s.length + 1) rfl (Nat.lt_succ_self _) h
    obtain ⟨hspaces, hresult⟩ | ⟨_, _, _, t, _, -, -, -, hstep, -⟩ := Reading.finish?_eq_some hx
    · obtain rfl := Option.some.inj hresult
      exact ⟨w, a, x, rfl, hw, hspaces, hu⟩
    · cases t <;> cases hstep
  · rintro ⟨w, a, w', rfl, hw, hw', hv⟩
    rw [Reading.finish?_spaces_append hw,
      Reading.reads_spells (Nat.le_of_eq (Nat.zero_add limit)) rfl hv (closes_of_spaces hw'),
      Reading.finish?_spaces hw']
    rfl

end PropCatalog.Json
