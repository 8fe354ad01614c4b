import PropCatalog.Proofs.Text.Balance

/-!
# The matching closer by byte positions

A search from a byte position on, behind an opener, ends just past the closer that matches it.
`Closes` says without the search which closer that is: the text before it has as many closers as
openers, and no start of it has more closers than openers. There is at most one such closer, and the
search finds it (`closeAt?_finds_match`). It finds none exactly when the openers are ahead up to the
end of the text, and also when the two delimiters are the same or the position is none of the text.
-/

namespace PropCatalog

namespace Text

variable {s a b : Text} {n : Nat}

/-- The byte position `n` of the text lies neither past the end nor inside a character. -/
def IsBoundary (s : Text) (n : Nat) : Prop :=
  ∃ a b, s = a ++ b ∧ utf8Length a = n

/-- Between the byte positions `m` and `n` stands the text `t`. -/
def Between (s : Text) (m n : Nat) (t : Text) : Prop :=
  ∃ a b, s = a ++ (t ++ b) ∧ utf8Length a = m ∧ utf8Length (a ++ t) = n

theorem splitAtByte?_append (a b : Text) : splitAtByte? (utf8Length a) (a ++ b) = some (a, b) := by
  induction a with
  | nil => cases b <;> rfl
  | cons c a ih =>
    obtain ⟨k, hk⟩ := Nat.exists_eq_add_of_lt (Char.utf8Size_pos c)
    have hlength : utf8Length (c :: a) = k + utf8Length a + 1 := by
      rw [utf8Length]
      omega
    have hrest : k + utf8Length a + 1 - c.utf8Size = utf8Length a := by omega
    rw [hlength, List.cons_append, splitAtByte?, if_neg (by omega), hrest, ih]
    rfl

theorem splitAtByte?_eq_some_iff :
    splitAtByte? n s = some (a, b) ↔ s = a ++ b ∧ utf8Length a = n := by
  refine ⟨splitAtByte?_eq_some, ?_⟩
  rintro ⟨rfl, rfl⟩
  exact splitAtByte?_append a b

theorem splitAtByte?_eq_none_iff : splitAtByte? n s = none ↔ ¬ IsBoundary s n := by
  simp only [Option.eq_none_iff_forall_ne_some, Prod.forall, ne_eq, splitAtByte?_eq_some_iff,
    IsBoundary, not_exists]

theorem Between.unique {m : Nat} {t t' : Text} (h : Between s m n t) (h' : Between s m n t') :
    t = t' := by
  obtain ⟨a, b, rfl, rfl, rfl⟩ := h
  obtain ⟨a', b', hs, hm, hn⟩ := h'
  have hstart := (splitAtByte?_append a (t ++ b)).symm.trans (splitAtByte?_eq_some_iff.2 ⟨hs, hm⟩)
  obtain ⟨rfl, -⟩ := Prod.mk.inj (Option.some.inj hstart)
  have hparts : a ++ (t ++ b) = a ++ t' ++ b' := by rw [hs, List.append_assoc]
  have hend := splitAtByte?_append (a ++ t) b
  rw [List.append_assoc, splitAtByte?_eq_some_iff.2 ⟨hparts, hn⟩] at hend
  exact (List.append_cancel_left (Prod.mk.inj (Option.some.inj hend)).1).symm

end Text

namespace Bracket

open Text (utf8Length IsBoundary Between)

variable {opener closer : Char} {d start stop : Nat} {content before rest s p : Text}

/-! ## Texts without the closer -/

theorem close?_self (opener : Char) (d : Nat) (s : Text) : close? opener opener d s = none := by
  induction s generalizing d with
  | nil => rfl
  | cons c s ih =>
    by_cases hc : c = opener
    · rw [hc, close?_opener, ih, Option.map_none]
    · rw [close?_cons hc hc, ih, Option.map_none]

theorem count_le_of_close?_eq_none (hne : opener ≠ closer) (h : close? opener closer d s = none)
    (hp : p <+: s) : p.count closer ≤ p.count opener + d := by
  induction s generalizing d p with
  | nil =>
    rw [List.prefix_nil.1 hp]
    exact Nat.zero_le _
  | cons c s ih =>
    rcases List.prefix_cons_iff.1 hp with rfl | ⟨q, rfl, hq⟩
    · exact Nat.zero_le _
    by_cases hopener : c = opener
    · subst hopener
      rw [close?_opener, Option.map_eq_none_iff] at h
      have hcount := ih h hq
      rw [List.count_cons_of_ne hne, List.count_cons_self]
      omega
    · by_cases hcloser : c = closer
      · subst hcloser
        cases d with
        -- at depth zero a closer would have been found
        | zero =>
          rw [close?_closer_zero hne] at h
          cases h
        | succ d =>
          rw [close?_closer_succ hne, Option.map_eq_none_iff] at h
          have hcount := ih h hq
          rw [List.count_cons_of_ne hne.symm, List.count_cons_self]
          omega
      · rw [close?_cons hopener hcloser, Option.map_eq_none_iff] at h
        rw [List.count_cons_of_ne hcloser, List.count_cons_of_ne hopener]
        exact ih h hq

/-- No closer is found exactly if no start of the text has more closers than the openers that it
and the text before it have. -/
theorem close?_eq_none_iff (hne : opener ≠ closer) :
    close? opener closer d s = none ↔ ∀ p, p <+: s → p.count closer ≤ p.count opener + d := by
  refine ⟨fun h p hp => count_le_of_close?_eq_none hne h hp, fun h => ?_⟩
  rw [Option.eq_none_iff_forall_ne_some]
  rintro ⟨a, b⟩ hsome
  obtain ⟨rfl, hclosing⟩ := (close?_eq_some_iff hne).1 hsome
  have hcount := h (a ++ [closer]) ⟨b, by simp⟩
  rw [List.count_append, List.count_append, hclosing.count_eq, List.count_singleton_self,
    List.count_singleton, if_neg (by simpa using hne.symm)] at hcount
  omega

/-! ## Byte positions -/

/-- Just before the byte position `stop` stands the closer that matches an opener just before the
byte position `start`. -/
def Closes (content : Text) (start stop : Nat) (opener closer : Char) : Prop :=
  ∃ w, Between content start stop (w ++ [closer]) ∧ Balanced opener closer w

theorem Closes.isBoundary (h : Closes content start stop opener closer) :
    IsBoundary content stop := by
  obtain ⟨w, ⟨a, b, rfl, -, hstop⟩, -⟩ := h
  exact ⟨a ++ (w ++ [closer]), b, (List.append_assoc _ _ _).symm, hstop⟩

theorem closeAt?_append (before rest : Text) (opener closer : Char) :
    closeAt? (before ++ rest) (utf8Length before) opener closer =
      (close? opener closer 0 rest).map fun (inner, _) =>
        utf8Length before + utf8Length inner + closer.utf8Size := by
  rw [closeAt?, Text.splitAtByte?_append]
  change (close? opener closer 0 rest).bind _ = _
  cases close? opener closer 0 rest <;> rfl

theorem closeAt?_eq_none_of_not_isBoundary (h : ¬ IsBoundary content start) :
    closeAt? content start opener closer = none := by
  rw [closeAt?, Text.splitAtByte?_eq_none_iff.2 h]
  rfl

theorem closeAt?_self (content : Text) (start : Nat) (opener : Char) :
    closeAt? content start opener opener = none := by
  by_cases h : IsBoundary content start
  · obtain ⟨before, rest, rfl, rfl⟩ := h
    rw [closeAt?_append, close?_self, Option.map_none]
  · exact closeAt?_eq_none_of_not_isBoundary h

theorem closeAt?_eq_some_iff (hne : opener ≠ closer) :
    closeAt? content start opener closer = some stop ↔
      Closes content start stop opener closer := by
  constructor
  · intro h
    by_cases hboundary : IsBoundary content start
    · obtain ⟨before, rest, rfl, rfl⟩ := hboundary
      rw [closeAt?_append] at h
      obtain ⟨⟨w, after⟩, hclose, rfl⟩ := Option.map_eq_some_iff.1 h
      obtain ⟨rfl, hbalanced⟩ := (close?_eq_some_iff hne).1 hclose
      refine ⟨w, ⟨before, after, by simp, rfl, ?_⟩, hbalanced⟩
      simp only [Text.utf8Length_append, Text.utf8Length]
      omega
    · rw [closeAt?_eq_none_of_not_isBoundary hboundary] at h
      cases h
  · rintro ⟨w, ⟨before, after, rfl, rfl, hstop⟩, hbalanced⟩
    have hclose : close? opener closer 0 (w ++ closer :: after) = some (w, after) :=
      (close?_eq_some_iff hne).2 ⟨rfl, hbalanced⟩
    have htext : w ++ [closer] ++ after = w ++ closer :: after := by simp
    rw [closeAt?_append, htext, hclose, Option.map_some, ← hstop]
    simp only [Text.utf8Length_append, Text.utf8Length]
    congr 1
    omega

theorem Closes.unique {stop' : Nat} (hne : opener ≠ closer)
    (h : Closes content start stop opener closer) (h' : Closes content start stop' opener closer) :
    stop = stop' :=
  Option.some.inj (((closeAt?_eq_some_iff hne).2 h).symm.trans ((closeAt?_eq_some_iff hne).2 h'))

theorem count_le_of_between {t : Text}
    (h : Between content start (closeAt content start opener closer) t) (hp : p <+: t) :
    p.count closer ≤ p.count opener + 1 := by
  by_cases hne : opener = closer
  · rw [hne]
    exact Nat.le_succ _
  cases hfind : closeAt? content start opener closer with
  | some stop =>
    obtain ⟨w, hbetween, hbalanced⟩ := (closeAt?_eq_some_iff hne).1 hfind
    rw [closeAt, hfind, Option.getD_some] at h
    obtain rfl := h.unique hbetween
    rcases List.prefix_concat_iff.1 hp with rfl | hp
    · rw [List.count_append, List.count_append, hbalanced.count_eq, List.count_singleton_self]
      omega
    · exact Nat.le_succ_of_le (hbalanced.count_le p hp)
  | none =>
    obtain ⟨before, after, rfl, rfl, -⟩ := h
    rw [closeAt?_append, Option.map_eq_none_iff] at hfind
    have hcount := count_le_of_close?_eq_none hne hfind (hp.trans (List.prefix_append t after))
    exact Nat.le_succ_of_le hcount

/-- **The search finds exactly the matching closer.** From a boundary of the text on, and for two
delimiters that differ, it ends at the one byte position that closes what is open, which is a
boundary too; and it ends nowhere exactly if no start of the rest has more closers than openers. It
ends nowhere if the delimiters are the same or the position is no boundary. The position that is
reported instead is then the length of the text. On the way to what is reported there is at no point
more to close than what is open. -/
theorem closeAt?_finds_match (content : Text) (start : Nat) (opener closer : Char) :
    (∀ before rest, content = before ++ rest → utf8Length before = start → opener ≠ closer →
      (∀ stop, closeAt? content start opener closer = some stop ↔
        Closes content start stop opener closer) ∧
      (∀ stop stop', Closes content start stop opener closer →
        Closes content start stop' opener closer → stop = stop') ∧
      (∀ stop, Closes content start stop opener closer → IsBoundary content stop) ∧
      (closeAt? content start opener closer = none ↔
        ∀ p, p <+: rest → p.count closer ≤ p.count opener)) ∧
    (opener = closer → closeAt? content start opener closer = none) ∧
    (¬ IsBoundary content start → closeAt? content start opener closer = none) ∧
    (∀ stop, closeAt? content start opener closer = some stop →
      closeAt content start opener closer = stop) ∧
    (closeAt? content start opener closer = none →
      closeAt content start opener closer = utf8Length content) ∧
    (∀ t p, Between content start (closeAt content start opener closer) t → p <+: t →
      p.count closer ≤ p.count opener + 1) := by
  refine ⟨?_, ?_, closeAt?_eq_none_of_not_isBoundary, ?_, ?_, fun _ _ => count_le_of_between⟩
  · rintro before rest rfl rfl hne
    refine ⟨fun stop => closeAt?_eq_some_iff hne, fun _ _ => Closes.unique hne,
      fun _ => Closes.isBoundary, ?_⟩
    rw [closeAt?_append, Option.map_eq_none_iff, close?_eq_none_iff hne]
    rfl
  · rintro rfl
    exact closeAt?_self content start opener
  · intro stop h
    rw [closeAt, h, Option.getD_some]
  · intro h
    rw [closeAt, h, Option.getD_none]

/-- A closer behind a character of two bytes and an inner pair, and a search from inside that
character. -/
theorem closeAt?_finds_match_multibyte :
    ("(é(x)) y".toList = "(".toList ++ "é(x)) y".toList ∧ utf8Length "(".toList = 1 ∧ '(' ≠ ')') ∧
      Closes "(é(x)) y".toList 1 7 '(' ')' ∧ closeAt "(é(x)) y".toList 1 '(' ')' = 7 ∧
      ¬ IsBoundary "(é(x)) y".toList 2 ∧ closeAt "(é(x)) y".toList 2 '(' ')' = 9 := by
  obtain ⟨hmatch, -, -, hfound, -, -⟩ := closeAt?_finds_match "(é(x)) y".toList 1 '(' ')'
  obtain ⟨hiff, -⟩ := hmatch "(".toList "é(x)) y".toList rfl rfl (by decide)
  obtain ⟨-, -, hnone, -, hend, -⟩ := closeAt?_finds_match "(é(x)) y".toList 2 '(' ')'
  have hstop : closeAt? "(é(x)) y".toList 1 '(' ')' = some 7 := by decide
  have hinside : ¬ IsBoundary "(é(x)) y".toList 2 := Text.splitAtByte?_eq_none_iff.1 (by decide)
  exact ⟨⟨rfl, rfl, by decide⟩, (hiff 7).1 hstop, hfound 7 hstop, hinside, hend (hnone hinside)⟩

end Bracket

end PropCatalog
