import PropCatalog.Interface.Members

/-!
# Properly nested texts

`Nested p s` tells that the brackets of all three kinds in `s` are properly nested, and that the
characters outside brackets satisfy `p`. The two ways to follow nesting pass over such a text: the
search for a closing brace comes back to the number of open braces it had (`close?_append`), and the
counter of the splitters to its depth, so that a text without separators outside brackets stays in
one piece (`memberPieces_append`).
-/

namespace PropCatalog

namespace Bracket

/-- An opener and the closer of its kind. -/
def IsPair (opener closer : Char) : Prop :=
  opener = '{' ∧ closer = '}' ∨ opener = '[' ∧ closer = ']' ∨ opener = '(' ∧ closer = ')'

/-- The brackets are properly nested, and the characters outside brackets satisfy `p`. -/
inductive Nested : (p : Char → Prop) → Text → Prop
  | nil {p : Char → Prop} : Nested p []
  | plain {p : Char → Prop} {c : Char} {s : Text} (hopener : isOpener c = false)
      (hcloser : isCloser c = false) (hc : p c) (hs : Nested p s) : Nested p (c :: s)
  | pair {p : Char → Prop} {opener closer : Char} {inside s : Text} (hpair : IsPair opener closer)
      (hinside : Nested (fun _ => True) inside) (hs : Nested p s) :
      Nested p (opener :: (inside ++ closer :: s))

variable {p q : Char → Prop} {a b s : Text} {c opener closer : Char}

theorem Nested.append (ha : Nested p a) (hb : Nested p b) : Nested p (a ++ b) := by
  induction ha with
  | nil => exact hb
  | plain hopener hcloser hc _ ih => exact .plain hopener hcloser hc (ih hb)
  | pair hpair hinside _ _ ih =>
    rw [List.cons_append, List.append_assoc, List.cons_append]
    exact .pair hpair hinside (ih hb)

theorem Nested.mono (hpq : ∀ c, p c → q c) (ha : Nested p a) : Nested q a := by
  induction ha with
  | nil => exact .nil
  | plain hopener hcloser hc _ ih => exact .plain hopener hcloser (hpq _ hc) (ih hpq)
  | pair hpair hinside _ _ ih => exact .pair hpair hinside (ih hpq)

theorem Nested.of_forall (h : ∀ c ∈ a, (isOpener c = false ∧ isCloser c = false) ∧ p c) :
    Nested p a := by
  induction a with
  | nil => exact .nil
  | cons c a ih =>
    obtain ⟨⟨hopener, hcloser⟩, hc⟩ := h c (by simp)
    exact .plain hopener hcloser hc (ih fun d hd => h d (by simp [hd]))

theorem Nested.of_all [DecidablePred p]
    (h : a.all (fun c => !isOpener c && !isCloser c && decide (p c)) = true) : Nested p a :=
  .of_forall fun c hc => by simpa using List.all_eq_true.1 h c hc

theorem Nested.getLast? (ha : Nested p a) : ∀ c ∈ a.getLast?, isCloser c = true ∨ p c := by
  induction ha with
  | nil => simp
  | @plain p c s hopener hcloser hc hs ih =>
    intro d hd
    cases s with
    | nil =>
      obtain rfl := Option.some.inj hd
      exact Or.inr hc
    | cons e s => exact ih d (by simpa [List.getLast?_cons] using hd)
  | @pair p opener closer inside s hpair hinside hs _ ih =>
    intro d hd
    have hcloser : isCloser closer = true := by
      rcases hpair with ⟨-, rfl⟩ | ⟨-, rfl⟩ | ⟨-, rfl⟩ <;> rfl
    rw [← List.cons_append, List.getLast?_append] at hd
    cases s with
    | nil =>
      obtain rfl := Option.some.inj hd
      exact Or.inl hcloser
    | cons e s => exact ih d (by simpa [List.getLast?_cons] using hd)

/-! ## The closing brace -/

theorem close?_cons_of_ne (hopen : c ≠ '{') (hclose : c ≠ '}') (d : Nat) (s : Text) :
    close? '{' '}' d (c :: s) = (close? '{' '}' d s).map fun (x, y) => (c :: x, y) := by
  rw [close?.eq_def]
  simp only [if_neg hopen, if_neg hclose]

theorem close?_cons_brace (d : Nat) (s : Text) :
    close? '{' '}' d ('{' :: s) = (close? '{' '}' (d + 1) s).map fun (x, y) => ('{' :: x, y) := by
  rw [close?.eq_def]
  simp only [↓reduceIte]

/-- The search for a closing brace passes over a nested text. -/
theorem close?_append (ha : Nested p a) (d : Nat) (s : Text) :
    close? '{' '}' d (a ++ s) = (close? '{' '}' d s).map fun (x, y) => (a ++ x, y) := by
  induction ha generalizing d s with
  | nil =>
    rw [List.nil_append]
    cases close? '{' '}' d s <;> rfl
  | @plain p c a hopener hcloser hc ha ih =>
    have hopen : c ≠ '{' := by
      rintro rfl
      cases hopener
    have hclose : c ≠ '}' := by
      rintro rfl
      cases hcloser
    rw [List.cons_append, close?_cons_of_ne hopen hclose, ih, Option.map_map]
    rfl
  | @pair p opener closer inside a hpair hinside ha ihinside ih =>
    have happend : opener :: (inside ++ closer :: a) ++ s =
        opener :: (inside ++ (closer :: (a ++ s))) := by simp
    rw [happend]
    by_cases hbrace : opener = '{'
    · -- a pair of braces: one more is open inside
      obtain rfl : closer = '}' := by
        rcases hpair with ⟨-, h⟩ | ⟨h, -⟩ | ⟨h, -⟩
        · exact h
        · rw [hbrace] at h
          cases h
        · rw [hbrace] at h
          cases h
      subst hbrace
      have hclose : close? '{' '}' (d + 1) ('}' :: (a ++ s)) =
          (close? '{' '}' d (a ++ s)).map fun (x, y) => ('}' :: x, y) := rfl
      rw [close?_cons_brace, ihinside, hclose, ih]
      simp only [Option.map_map]
      cases close? '{' '}' d s with
      | none => rfl
      | some found => simp
    · have hne : closer ≠ '{' ∧ opener ≠ '}' ∧ closer ≠ '}' := by
        rcases hpair with ⟨h, -⟩ | ⟨rfl, rfl⟩ | ⟨rfl, rfl⟩
        · exact absurd h hbrace
        · decide
        · decide
      rw [close?_cons_of_ne hbrace hne.2.1, ihinside, close?_cons_of_ne hne.1 hne.2.2, ih]
      simp only [Option.map_map]
      cases close? '{' '}' d s with
      | none => rfl
      | some found => simp

theorem body?_append (ha : Nested p a) (s : Text) : body? (a ++ '}' :: s) = some (a, s) := by
  have hclose : close? '{' '}' 0 ('}' :: s) = some ([], s) := rfl
  rw [body?, close?_append ha, hclose]
  simp

/-! ## The counter -/

theorem depth_plain (hopener : isOpener c = false) (hcloser : isCloser c = false) (d : Nat) :
    depth d c = d := by
  simp [depth, hopener, hcloser]

theorem depth_pair (hpair : IsPair opener closer) (d : Nat) :
    depth d opener = d + 1 ∧ depth (d + 1) closer = d := by
  rcases hpair with ⟨rfl, rfl⟩ | ⟨rfl, rfl⟩ | ⟨rfl, rfl⟩ <;> exact ⟨rfl, rfl⟩

theorem Nested.foldl_depth (ha : Nested p a) (d : Nat) : a.foldl depth d = d := by
  induction ha generalizing d with
  | nil => rfl
  | plain hopener hcloser _ _ ih => rw [List.foldl_cons, depth_plain hopener hcloser, ih]
  | pair hpair _ _ ihinside ih =>
    obtain ⟨hopened, hclosed⟩ := depth_pair hpair d
    rw [List.foldl_cons, hopened, List.foldl_append, ihinside, List.foldl_cons, hclosed, ih]

end Bracket

namespace Interface

open PropCatalog.Bracket (Nested IsPair depth_plain depth_pair)

/-- A character that separates members outside brackets. -/
def IsSeparator (c : Char) : Prop := c = ';' ∨ c = '\n'

instance : DecidablePred IsSeparator :=
  fun c => inferInstanceAs (Decidable (c = ';' ∨ c = '\n'))

theorem depth_of_isSeparator {c : Char} (hc : IsSeparator c) (d : Nat) : Bracket.depth d c = d := by
  rcases hc with rfl | rfl <;> rfl

theorem foldr_consFirst (a piece : Text) (pieces : List Text) :
    a.foldr Text.consFirst (piece :: pieces) = (a ++ piece) :: pieces := by
  induction a with
  | nil => rfl
  | cons c a ih => rw [List.foldr_cons, ih, Text.consFirst, List.cons_append]

theorem memberPieces_cons_of_not {d d' : Nat} {c : Char} (hdepth : Bracket.depth d c = d')
    (hc : d' = 0 → ¬ IsSeparator c) (s : Text) :
    memberPieces d (c :: s) = Text.consFirst c (memberPieces d' s) := by
  rw [memberPieces, hdepth]
  have hnot : ¬ (d' = 0 ∧ (c = ';' ∨ c = '\n')) := fun h => hc h.1 h.2
  simp [hnot]

/-- A nested text stays in one piece, inside brackets or without separators outside brackets. -/
theorem memberPieces_append {p : Char → Prop} {a : Text} (ha : Nested p a) (d : Nat)
    (hp : d = 0 → ∀ c, p c → ¬ IsSeparator c) (s : Text) :
    memberPieces d (a ++ s) = a.foldr Text.consFirst (memberPieces d s) := by
  induction ha generalizing d s with
  | nil => rfl
  | plain hopener hcloser hc ha ih =>
    rw [List.cons_append, List.foldr_cons, ← ih d hp,
      memberPieces_cons_of_not (depth_plain hopener hcloser d) fun hd => hp hd _ hc]
  | @pair p opener closer inside a hpair hinside ha ihinside ih =>
    have happend : opener :: (inside ++ closer :: a) ++ s =
        opener :: (inside ++ (closer :: (a ++ s))) := by simp
    have hcloser : ¬ IsSeparator closer := by
      rcases hpair with ⟨-, rfl⟩ | ⟨-, rfl⟩ | ⟨-, rfl⟩ <;> simp [IsSeparator]
    obtain ⟨hopened, hclosed⟩ := depth_pair hpair d
    rw [happend, memberPieces_cons_of_not hopened (by omega),
      ihinside (d + 1) (fun h => absurd h (by omega)),
      memberPieces_cons_of_not hclosed (fun _ => hcloser), ih d hp]
    simp

end Interface

end PropCatalog
