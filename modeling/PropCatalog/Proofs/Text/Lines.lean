import PropCatalog.Text.Basic

/-!
# Lines and pieces

A text is cut at its line breaks in three ways: at the first one, into pieces without them, and into
lines that keep theirs. What comes out is the same for a line that is known and whatever follows it
(`cut?_line`, `lines_line`), and no piece holds a separator (`not_of_mem_pieces`).
-/

namespace PropCatalog.Text

variable {p : Char → Bool} {a line piece s : Text}

theorem cut?_line (ha : '\n' ∉ a) (s : Text) : cut? ['\n'] (a ++ '\n' :: s) = some (a, s) := by
  induction a with
  | nil => simp [cut?, after?]
  | cons d a ih =>
    obtain ⟨hne, ha⟩ := List.ne_and_not_mem_of_not_mem_cons ha
    rw [List.cons_append, cut?, after?, if_neg hne]
    dsimp only
    rw [ih ha, Option.map_some]

theorem lines_line (ha : '\n' ∉ a) (s : Text) :
    lines (a ++ '\n' :: s) = (a ++ ['\n']) :: lines s := by
  induction a with
  | nil => rfl
  | cons d a ih =>
    obtain ⟨hne, ha⟩ := List.ne_and_not_mem_of_not_mem_cons ha
    rw [List.cons_append, lines, if_neg hne.symm, ih ha]
    rfl

theorem lines_of_notMem (ha : '\n' ∉ a) (hne : a ≠ []) : lines a = [a] := by
  induction a with
  | nil => exact absurd rfl hne
  | cons d a ih =>
    obtain ⟨hd, ha⟩ := List.ne_and_not_mem_of_not_mem_cons ha
    rw [lines, if_neg hd.symm]
    cases a with
    | nil => rfl
    | cons e a =>
      rw [ih ha (by simp)]
      rfl

theorem lines_flatten {pieces : List Text} (h : ∀ piece ∈ pieces, '\n' ∉ piece) :
    lines (pieces.map (· ++ ['\n'])).flatten = pieces.map (· ++ ['\n']) := by
  induction pieces with
  | nil => rfl
  | cons piece pieces ih =>
    obtain ⟨hpiece, hpieces⟩ := List.forall_mem_cons.1 h
    rw [List.map_cons, List.flatten_cons, List.append_assoc, List.singleton_append,
      lines_line hpiece, ih hpieces]

theorem exists_of_mem_lines (h : line ∈ lines s) :
    ∃ a, '\n' ∉ a ∧ (line = a ++ ['\n'] ∨ line = a ∧ a ≠ []) := by
  induction s generalizing line with
  | nil => cases h
  | cons c s ih =>
    rw [lines] at h
    split at h
    next hc =>
      rcases List.mem_cons.1 h with rfl | h
      · exact ⟨[], by simp, Or.inl (by rw [hc]; rfl)⟩
      · exact ih h
    next hc =>
      have hcons : ∀ a : Text, '\n' ∉ a → '\n' ∉ c :: a := fun a ha hmem =>
        (List.mem_cons.1 hmem).elim (fun heq => hc heq.symm) ha
      cases hs : lines s with
      | nil =>
        rw [hs] at h
        obtain rfl := List.mem_singleton.1 h
        exact ⟨[c], hcons [] (by simp), Or.inr ⟨rfl, by simp⟩⟩
      | cons first rest =>
        rw [hs] at h ih
        rcases List.mem_cons.1 h with rfl | h
        · obtain ⟨a, ha, rfl | ⟨rfl, -⟩⟩ := ih (List.mem_cons_self ..)
          · exact ⟨c :: a, hcons a ha, Or.inl rfl⟩
          · exact ⟨c :: first, hcons first ha, Or.inr ⟨rfl, by simp⟩⟩
        · exact ih (List.mem_cons_of_mem first h)

theorem not_of_mem_pieces (hpiece : piece ∈ pieces p s) : ∀ c ∈ piece, p c = false := by
  induction s generalizing piece with
  | nil =>
    obtain rfl := List.mem_singleton.1 hpiece
    simp
  | cons d s ih =>
    rw [pieces] at hpiece
    split at hpiece
    next =>
      rcases List.mem_cons.1 hpiece with rfl | hpiece
      · simp
      · exact ih hpiece
    next hd =>
      have hd : p d = false := Bool.eq_false_iff.2 hd
      cases hrest : pieces p s with
      | nil =>
        rw [hrest] at hpiece
        obtain rfl := List.mem_singleton.1 hpiece
        simpa using hd
      | cons first rest =>
        rw [hrest] at hpiece ih
        rcases List.mem_cons.1 hpiece with rfl | hpiece
        · exact List.forall_mem_cons.2 ⟨hd, ih (by simp)⟩
        · exact ih (by simp [hpiece])

end PropCatalog.Text
