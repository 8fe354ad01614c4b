import PropCatalog.Text.Basic
import Mathlib.Data.List.Infix

/-!
# Occurrences of a text

`cut?` finds the first occurrence of a text, which is described here without it: `FirstAfter needle
before` says that `needle` does not occur in `before ++ needle` earlier than at its end. What
follows does not matter (`cut?_append`), because an occurrence that starts earlier ends earlier too.

The second half tells where a text can occur in a concatenation: a character that is not in the
needle separates its two sides (`infix_append_cons_iff`), and one that the needle does not start or
end with can be dropped at the end of a side.
-/

namespace PropCatalog.Text

/-! ## First occurrences -/

/-- The first occurrence of `needle` in `before ++ needle` is the one at its end. -/
def FirstAfter (needle before : Text) : Prop :=
  ∀ a b, before ++ needle = a ++ needle ++ b → before.length ≤ a.length

theorem FirstAfter.nil (needle : Text) : FirstAfter needle [] :=
  fun _ _ _ => Nat.zero_le _

theorem FirstAfter.length_le {needle before after a b : Text} (h : FirstAfter needle before)
    (heq : before ++ needle ++ after = a ++ needle ++ b) : before.length ≤ a.length := by
  by_contra hlt
  have hpre : a ++ needle <+: before ++ needle := by
    have hlong : before ++ needle <+: before ++ needle ++ after := List.prefix_append _ _
    refine List.prefix_of_prefix_length_le ?_ hlong ?_
    · exact heq ▸ List.prefix_append _ _
    · simp only [List.length_append]
      omega
  obtain ⟨b', hb'⟩ := hpre
  exact hlt (h a b' hb'.symm)

theorem FirstAfter.tail {needle before : Text} {c : Char} (h : FirstAfter needle (c :: before)) :
    FirstAfter needle before := by
  intro a b heq
  have hle := h (c :: a) b (by simp [heq])
  simpa using hle

theorem cut?_append {needle before : Text} (h : FirstAfter needle before) (after : Text) :
    cut? needle (before ++ needle ++ after) = some (before, after) := by
  induction before with
  | nil =>
    cases hs : needle ++ after with
    | nil => simp_all [cut?]
    | cons c s =>
      have hafter : after? needle (c :: s) = some after := after?_eq_some_iff.2 hs.symm
      simp [hs, cut?, hafter]
  | cons c before ih =>
    have hnone : after? needle (c :: (before ++ needle ++ after)) = none := by
      rw [Option.eq_none_iff_forall_ne_some]
      intro rest hrest
      have heq : c :: before ++ needle ++ after = [] ++ needle ++ rest := by
        simpa using after?_eq_some_iff.1 hrest
      have hle := h.length_le heq
      simp at hle
    simp only [List.cons_append, cut?, hnone, ih h.tail, Option.map_some]

theorem firstAfter_of_cut? {needle s before after : Text}
    (h : cut? needle s = some (before, after)) : FirstAfter needle before := by
  fun_induction cut? needle s generalizing before with
  | case1 =>
    obtain ⟨rfl, -⟩ := Prod.mk.inj (Option.some.inj h)
    exact FirstAfter.nil _
  | case2 => simp at h
  | case3 =>
    obtain ⟨rfl, -⟩ := Prod.mk.inj (Option.some.inj h)
    exact FirstAfter.nil _
  | case4 c s hnone ih =>
    obtain ⟨⟨before', after'⟩, hcut, hab⟩ := Option.map_eq_some_iff.1 h
    obtain ⟨rfl, rfl⟩ := Prod.mk.inj hab
    intro a b heq
    cases a with
    | nil =>
      have hhead : c :: s = needle ++ (b ++ after') := by
        rw [cut?_eq_some hcut, ← List.append_assoc, ← List.cons_append, ← List.cons_append]
        simp [heq]
      rw [after?_eq_some_iff.2 hhead] at hnone
      simp at hnone
    | cons d a =>
      obtain ⟨rfl, heq'⟩ := List.cons.inj heq
      simpa using ih hcut a b heq'

theorem cut?_eq_none_iff {needle s : Text} : cut? needle s = none ↔ ¬ needle <:+: s := by
  fun_induction cut? needle s with
  | case1 => simp_all
  | case2 h => simp [h]
  | case3 c s rest hrest =>
    have hin : needle <:+: c :: s := ⟨[], rest, by simp [after?_eq_some_iff.1 hrest]⟩
    simp [hin]
  | case4 c s hnone ih =>
    have hpre : ¬ needle <+: c :: s := by
      rw [← startsWith_iff, startsWith, hnone]
      simp
    simp [List.infix_cons_iff, hpre, ih]

theorem contains_iff {needle s : Text} : contains needle s = true ↔ needle <:+: s := by
  rw [contains, Option.isSome_iff_ne_none, Ne, cut?_eq_none_iff, not_not]

theorem firstAfter_iff_cut? {needle before : Text} :
    FirstAfter needle before ↔ cut? needle (before ++ needle) = some (before, []) := by
  constructor
  · intro h
    simpa using cut?_append h []
  · exact firstAfter_of_cut?

instance (needle before : Text) : Decidable (FirstAfter needle before) :=
  decidable_of_iff _ firstAfter_iff_cut?.symm

/-! ## Last occurrences -/

theorem cutLast?_eq_none_iff {needle s : Text} : cutLast? needle s = none ↔ ¬ needle <:+: s := by
  fun_induction cutLast? needle s with
  | case1 => simp_all
  | case2 h => simp [h]
  | case3 c s a b hs =>
    have hin : needle <:+: s := ⟨a, b, (cutLast?_eq_some hs).symm⟩
    simp [List.infix_cons_iff, hin]
  | case4 c s hnone ih =>
    rw [List.infix_cons_iff, not_or, ← ih, ← startsWith_iff, startsWith, Option.map_eq_none_iff]
    simp [hnone]

/-- The cut is made at the last occurrence: none starts behind the start of the one it is made
at. -/
theorem cutLast?_eq_some_iff {needle s a b : Text} (hneedle : needle ≠ []) :
    cutLast? needle s = some (a, b) ↔
      s = a ++ needle ++ b ∧ ¬ needle <:+: (needle ++ b).tail := by
  constructor
  · intro h
    refine ⟨cutLast?_eq_some h, ?_⟩
    fun_induction cutLast? needle s generalizing a with
    | case1 hnil => exact absurd hnil hneedle
    | case2 => cases h
    | case3 c s a' b' hs ih =>
      obtain ⟨rfl, rfl⟩ := Prod.mk.inj (Option.some.inj h)
      exact ih hs
    | case4 c s hnone ih =>
      obtain ⟨rest, hrest, hab⟩ := Option.map_eq_some_iff.1 h
      obtain ⟨rfl, rfl⟩ := Prod.mk.inj hab
      rw [← after?_eq_some_iff.1 hrest]
      exact cutLast?_eq_none_iff.1 hnone
  · rintro ⟨rfl, hlast⟩
    induction a with
    | nil =>
      obtain ⟨c, needle, rfl⟩ := List.exists_cons_of_ne_nil hneedle
      have hnone : cutLast? (c :: needle) (needle ++ b) = none := cutLast?_eq_none_iff.2 hlast
      have hafter : after? (c :: needle) (c :: (needle ++ b)) = some b := after?_append (c :: needle) b
      rw [List.nil_append, List.cons_append, cutLast?, hnone, hafter]
      rfl
    | cons c a ih => rw [List.cons_append, List.cons_append, cutLast?, ih]

/-! ## Occurrences in a concatenation -/

variable {needle a b s : Text} {c : Char}

theorem prefix_of_prefix_append_cons (hc : c ∉ needle) (h : needle <+: a ++ c :: b) :
    needle <+: a := by
  refine List.prefix_of_prefix_length_le h (List.prefix_append _ _) ?_
  by_contra hlt
  have hlong : a ++ [c] <+: a ++ c :: b := ⟨b, by simp⟩
  have hmem : a ++ [c] <+: needle := by
    refine List.prefix_of_prefix_length_le hlong h ?_
    simp only [List.length_append, List.length_singleton]
    omega
  exact hc (hmem.subset (by simp))

theorem infix_append_cons_iff (hc : c ∉ needle) :
    needle <:+: a ++ c :: b ↔ needle <:+: a ∨ needle <:+: b := by
  constructor
  · intro h
    induction a with
    | nil =>
      rcases List.infix_cons_iff.1 h with hpre | hin
      · exact Or.inl (prefix_of_prefix_append_cons (a := []) hc hpre).isInfix
      · exact Or.inr hin
    | cons d a ih =>
      rcases List.infix_cons_iff.1 h with hpre | hin
      · exact Or.inl (prefix_of_prefix_append_cons (a := d :: a) hc hpre).isInfix
      · exact (ih hin).imp_left List.infix_cons
  · rintro (h | h)
    · exact h.trans (List.prefix_append _ _).isInfix
    · exact h.trans ((List.suffix_cons c b).trans (List.suffix_append a _)).isInfix

theorem infix_cons_iff_of_head? (hneedle : needle ≠ []) (hc : needle.head? ≠ some c) :
    needle <:+: c :: s ↔ needle <:+: s := by
  rw [List.infix_cons_iff]
  refine or_iff_right ?_
  intro hpre
  cases needle with
  | nil => exact hneedle rfl
  | cons d needle => exact hc (by simp [(List.cons_prefix_cons.1 hpre).1])

theorem infix_concat_iff_of_getLast? (hneedle : needle ≠ []) (hc : needle.getLast? ≠ some c) :
    needle <:+: s ++ [c] ↔ needle <:+: s := by
  rw [List.infix_concat_iff]
  refine or_iff_right ?_
  intro hsuffix
  rcases List.suffix_concat_iff.1 hsuffix with rfl | ⟨t, rfl, -⟩
  · exact hneedle rfl
  · exact hc (by simp)

theorem firstAfter_concat_iff (hc : c ∉ needle) :
    FirstAfter needle (s ++ [c]) ↔ ¬ needle <:+: s := by
  constructor
  · rintro h ⟨x, y, rfl⟩
    have hle := h x (y ++ c :: needle) (by simp)
    simp only [List.length_append, List.length_singleton] at hle
    omega
  · intro hnone x y heq
    by_contra hlt
    simp only [List.length_append, List.length_singleton] at hlt
    have hlong : s <+: s ++ [c] ++ needle := ⟨[c] ++ needle, by simp⟩
    obtain ⟨z, rfl⟩ : x <+: s := by
      refine List.prefix_of_prefix_length_le ?_ hlong (by omega)
      exact heq ▸ ⟨needle ++ y, by simp⟩
    have hz : needle ++ y = z ++ c :: needle := by
      have hcancel : x ++ (needle ++ y) = x ++ (z ++ c :: needle) := by simpa using heq.symm
      exact List.append_cancel_left hcancel
    have hpre : needle <+: z := prefix_of_prefix_append_cons hc (hz ▸ List.prefix_append _ _)
    exact hnone (hpre.isInfix.trans (List.suffix_append x z).isInfix)

theorem not_infix_of_notMem (hc : c ∈ needle) (hs : c ∉ s) : ¬ needle <:+: s :=
  fun h => hs (h.subset hc)

end PropCatalog.Text
