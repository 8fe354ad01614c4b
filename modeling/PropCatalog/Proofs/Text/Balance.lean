import PropCatalog.Proofs.Text.Nesting
import Mathlib.Data.List.Infix

/-!
# Balanced texts

The search for a closer follows one kind of bracket and sees nothing else: it also counts the
brackets in strings and comments. `Balanced` says without the search which texts it passes over, and
`close?_eq_some_iff` that the closer it finds is the one behind such a text. A text that is not
balanced either holds the closer that is found, or leaves brackets open for the text behind it
(`close?_append_of_eq_some`, `close?_append_of_eq_none`).
-/

namespace PropCatalog.Bracket

variable {opener closer c : Char} {d d' : Nat} {a b s x y : Text}

/-- The text closes all that it opens and `d` openers before it, at its end and not earlier. -/
structure Closing (opener closer : Char) (d : Nat) (s : Text) : Prop where
  count_eq : s.count closer = s.count opener + d
  count_le : ∀ p, p <+: s → p.count closer ≤ p.count opener + d

/-- As many closers as openers, and at no point more closers than openers. -/
abbrev Balanced (opener closer : Char) (s : Text) : Prop := Closing opener closer 0 s

/-! ## One character -/

theorem closing_nil_iff : Closing opener closer d [] ↔ d = 0 := by
  constructor
  · intro h
    simpa using h.count_eq.symm
  · rintro rfl
    exact ⟨rfl, fun p hp => by simp [List.prefix_nil.1 hp]⟩

theorem closing_cons_of_count (n : Nat)
    (hcount : ∀ t : Text, (c :: t).count closer = t.count closer + n ∧
      (c :: t).count opener + d = t.count opener + d' + n) :
    Closing opener closer d (c :: s) ↔ Closing opener closer d' s := by
  constructor
  · rintro ⟨heq, hle⟩
    obtain ⟨hcloser, hopener⟩ := hcount s
    refine ⟨by omega, fun p hp => ?_⟩
    obtain ⟨hcloser, hopener⟩ := hcount p
    have hp := hle (c :: p) (List.cons_prefix_cons.2 ⟨rfl, hp⟩)
    omega
  · rintro ⟨heq, hle⟩
    obtain ⟨hcloser, hopener⟩ := hcount s
    refine ⟨by omega, fun p hp => ?_⟩
    rcases List.prefix_cons_iff.1 hp with rfl | ⟨q, rfl, hq⟩
    · simp
    · obtain ⟨hcloser, hopener⟩ := hcount q
      have hq := hle q hq
      omega

theorem closing_opener_iff (hne : opener ≠ closer) :
    Closing opener closer d (opener :: s) ↔ Closing opener closer (d + 1) s := by
  refine closing_cons_of_count 0 fun t => ?_
  rw [List.count_cons_of_ne hne, List.count_cons_self]
  omega

theorem closing_closer_iff (hne : opener ≠ closer) :
    Closing opener closer (d + 1) (closer :: s) ↔ Closing opener closer d s := by
  refine closing_cons_of_count 1 fun t => ?_
  rw [List.count_cons_of_ne hne.symm, List.count_cons_self]
  omega

theorem not_closing_closer (hne : opener ≠ closer) : ¬ Closing opener closer 0 (closer :: s) := by
  intro h
  have hone := h.count_le [closer] ⟨s, rfl⟩
  simp [hne.symm] at hone

theorem closing_cons_iff (hopener : c ≠ opener) (hcloser : c ≠ closer) :
    Closing opener closer d (c :: s) ↔ Closing opener closer d s := by
  refine closing_cons_of_count 0 fun t => ?_
  rw [List.count_cons_of_ne hcloser, List.count_cons_of_ne hopener]
  omega

/-! ## The search -/

theorem close?_opener (opener closer : Char) (d : Nat) (s : Text) :
    close? opener closer d (opener :: s) =
      (close? opener closer (d + 1) s).map fun (x, y) => (opener :: x, y) := by
  rw [close?.eq_def]
  simp only [↓reduceIte]

theorem close?_closer_zero (hne : opener ≠ closer) (s : Text) :
    close? opener closer 0 (closer :: s) = some ([], s) := by
  rw [close?.eq_def]
  simp only [if_neg hne.symm, ↓reduceIte]

theorem close?_closer_succ (hne : opener ≠ closer) (d : Nat) (s : Text) :
    close? opener closer (d + 1) (closer :: s) =
      (close? opener closer d s).map fun (x, y) => (closer :: x, y) := by
  rw [close?.eq_def]
  simp only [if_neg hne.symm, ↓reduceIte]

theorem close?_cons (hopener : c ≠ opener) (hcloser : c ≠ closer) (d : Nat) (s : Text) :
    close? opener closer d (c :: s) =
      (close? opener closer d s).map fun (x, y) => (c :: x, y) := by
  rw [close?.eq_def]
  simp only [if_neg hopener, if_neg hcloser]

theorem Closing.close?_append (hne : opener ≠ closer) (h : Closing opener closer d a) (d' : Nat)
    (s : Text) : close? opener closer (d + d') (a ++ s) =
      (close? opener closer d' s).map fun (x, y) => (a ++ x, y) := by
  induction a generalizing d with
  | nil =>
    obtain rfl := closing_nil_iff.1 h
    rw [List.nil_append, Nat.zero_add]
    cases close? opener closer d' s <;> rfl
  | cons c a ih =>
    rw [List.cons_append]
    by_cases hopener : c = opener
    · subst hopener
      have htail := ih ((closing_opener_iff hne).1 h)
      rw [close?_opener, show d + d' + 1 = d + 1 + d' by omega, htail, Option.map_map]
      rfl
    · by_cases hcloser : c = closer
      · subst hcloser
        cases d with
        | zero => exact absurd h (not_closing_closer hne)
        | succ d =>
          have htail := ih ((closing_closer_iff hne).1 h)
          rw [show d + 1 + d' = d + d' + 1 by omega, close?_closer_succ hne, htail, Option.map_map]
          rfl
      · have htail := ih ((closing_cons_iff hopener hcloser).1 h)
        rw [close?_cons hopener hcloser, htail, Option.map_map]
        rfl

/-- The closer that is found is the one behind a text that closes what is open. -/
theorem close?_eq_some_iff (hne : opener ≠ closer) :
    close? opener closer d s = some (a, b) ↔
      s = a ++ closer :: b ∧ Closing opener closer d a := by
  constructor
  · intro h
    refine ⟨close?_eq_some h, ?_⟩
    -- by the recursion of the search, for all that it is inside of
    fun_induction close? opener closer d s generalizing a with
    | case1 => cases h
    | case2 d s ih =>
      obtain ⟨⟨a', b'⟩, hs, hab⟩ := Option.map_eq_some_iff.1 h
      obtain ⟨rfl, rfl⟩ := Prod.mk.inj hab
      exact (closing_opener_iff hne).2 (ih hs)
    | case3 s =>
      obtain ⟨rfl, rfl⟩ := Prod.mk.inj (Option.some.inj h)
      exact closing_nil_iff.2 rfl
    | case4 s d _ ih =>
      obtain ⟨⟨a', b'⟩, hs, hab⟩ := Option.map_eq_some_iff.1 h
      obtain ⟨rfl, rfl⟩ := Prod.mk.inj hab
      exact (closing_closer_iff hne).2 (ih hs)
    | case5 d c s hopener hcloser ih =>
      obtain ⟨⟨a', b'⟩, hs, hab⟩ := Option.map_eq_some_iff.1 h
      obtain ⟨rfl, rfl⟩ := Prod.mk.inj hab
      exact (closing_cons_iff hopener hcloser).2 (ih hs)
  · rintro ⟨rfl, h⟩
    have hpass := h.close?_append hne 0 (closer :: b)
    rw [close?_closer_zero hne, Option.map_some] at hpass
    simpa using hpass

theorem close?_append_of_eq_some (hne : opener ≠ closer)
    (h : close? opener closer d a = some (x, y)) (s : Text) :
    close? opener closer d (a ++ s) = some (x, y ++ s) := by
  obtain ⟨rfl, hx⟩ := (close?_eq_some_iff hne).1 h
  exact (close?_eq_some_iff hne).2 ⟨by simp, hx⟩

theorem close?_append_of_eq_none (hne : opener ≠ closer) (h : close? opener closer d a = none) :
    ∃ d', (∀ s, close? opener closer d (a ++ s) =
        (close? opener closer d' s).map fun (x, y) => (a ++ x, y)) ∧
      (d' = 0 → Closing opener closer d a) := by
  -- what is left open is the count at the end of the text
  induction a generalizing d with
  | nil =>
    refine ⟨d, fun s => ?_, closing_nil_iff.2⟩
    rw [List.nil_append]
    cases close? opener closer d s <;> rfl
  | cons c a ih =>
    by_cases hopener : c = opener
    · subst hopener
      rw [close?_opener, Option.map_eq_none_iff] at h
      obtain ⟨d', happend, hclosing⟩ := ih h
      refine ⟨d', fun s => ?_, fun hd' => (closing_opener_iff hne).2 (hclosing hd')⟩
      rw [List.cons_append, close?_opener, happend, Option.map_map]
      rfl
    · by_cases hcloser : c = closer
      · subst hcloser
        cases d with
        | zero =>
          rw [close?_closer_zero hne] at h
          cases h
        | succ d =>
          rw [close?_closer_succ hne, Option.map_eq_none_iff] at h
          obtain ⟨d', happend, hclosing⟩ := ih h
          refine ⟨d', fun s => ?_, fun hd' => (closing_closer_iff hne).2 (hclosing hd')⟩
          rw [List.cons_append, close?_closer_succ hne, happend, Option.map_map]
          rfl
      · rw [close?_cons hopener hcloser, Option.map_eq_none_iff] at h
        obtain ⟨d', happend, hclosing⟩ := ih h
        refine ⟨d', fun s => ?_, fun hd' => (closing_cons_iff hopener hcloser).2 (hclosing hd')⟩
        rw [List.cons_append, close?_cons hopener hcloser, happend, Option.map_map]
        rfl

/-! ## Balanced texts -/

theorem Closing.append (hne : opener ≠ closer) (ha : Balanced opener closer a)
    (hb : Balanced opener closer b) : Balanced opener closer (a ++ b) := by
  have hpass := ha.close?_append hne 0 (b ++ [closer])
  rw [(close?_eq_some_iff hne).2 ⟨rfl, hb⟩, Option.map_some, ← List.append_assoc] at hpass
  exact ((close?_eq_some_iff hne).1 hpass).2

theorem balanced_of_notMem (hopener : opener ∉ s) (hcloser : closer ∉ s) :
    Balanced opener closer s := by
  refine ⟨?_, fun p hp => ?_⟩
  · rw [List.count_eq_zero.2 hopener, List.count_eq_zero.2 hcloser]
  · rw [List.count_eq_zero.2 fun hmem => hcloser (hp.subset hmem)]
    exact Nat.zero_le _

theorem Nested.balanced {p : Char → Prop} (h : Nested p s) : Balanced '{' '}' s :=
  ((close?_eq_some_iff (by decide)).1 (body?_append h [])).2

/-- The body that a text is in front of a brace is that text exactly if it is balanced. -/
theorem body?_append_iff : body? (a ++ '}' :: b) = some (a, b) ↔ Balanced '{' '}' a := by
  rw [body?, close?_eq_some_iff (by decide)]
  exact and_iff_right rfl

end PropCatalog.Bracket
