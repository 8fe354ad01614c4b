import PropCatalog.Files.Path
import Mathlib.Data.List.TakeWhile

/-!
# The parts of a path and its parent

A path that does not end with a slash is a name, or a name after a slash (`exists_name`). The parent
of such a path is what stands before the slash, without the slashes and the dots alone at its end,
so that its parts are those before the name except for dots at the end (`parts_dropEmptyParts`).
-/

namespace PropCatalog

namespace Text

variable {p : Char → Bool}

theorem pieces_ne_nil (p : Char → Bool) (s : Text) : pieces p s ≠ [] := by
  cases s with
  | nil => simp [pieces]
  | cons c s =>
    rw [pieces]
    split
    · simp
    · cases pieces p s <;> simp [consFirst]

theorem consFirst_append (c : Char) {a : List Text} (h : a ≠ []) (b : List Text) :
    consFirst c (a ++ b) = consFirst c a ++ b := by
  obtain ⟨piece, a, rfl⟩ := List.exists_cons_of_ne_nil h
  rfl

theorem pieces_append_cons {c : Char} (hc : p c = true) (a b : Text) :
    pieces p (a ++ c :: b) = pieces p a ++ pieces p b := by
  induction a with
  | nil => simp [pieces, hc]
  | cons d a ih =>
    rw [List.cons_append, pieces, pieces, ih]
    split
    · rfl
    · rw [consFirst_append d (pieces_ne_nil p a)]

theorem pieces_of_forall {s : Text} (h : ∀ c ∈ s, p c = false) : pieces p s = [s] := by
  induction s with
  | nil => rfl
  | cons c s ih =>
    have hc : p c = false := h c List.mem_cons_self
    rw [pieces, hc, ih fun d hd => h d (List.mem_cons_of_mem c hd)]
    rfl

end Text

namespace Files.Path

/-! ## Parts -/

@[simp] theorem parts_nil : parts [] = [] := rfl

theorem parts_append_slash (a b : Text) : parts (a ++ '/' :: b) = parts a ++ parts b := by
  rw [parts, Text.pieces_append_cons (by simp), List.filter_append]
  rfl

theorem parts_name {name : Name} (hne : name ≠ []) (hslash : '/' ∉ name) : parts name = [name] := by
  have hpieces : Text.pieces (· = '/') name = [name] := by
    refine Text.pieces_of_forall fun c hc => ?_
    simpa using ne_of_mem_of_not_mem hc hslash
  rw [parts, hpieces]
  simpa using hne

theorem parts_join (dir : Text) (name : Name) :
    parts (join dir name) = parts dir ++ parts name := by
  rcases List.eq_nil_or_concat dir with rfl | ⟨before, c, rfl⟩
  · rfl
  rw [List.concat_eq_append]
  by_cases hc : c = '/'
  · subst hc
    have hjoin : join (before ++ ['/']) name = before ++ '/' :: name := by simp [join]
    rw [hjoin, parts_append_slash, parts_append_slash, parts_nil, List.append_nil]
  · have hjoin : join (before ++ [c]) name = (before ++ [c]) ++ '/' :: name := by
      simp [join, hc]
    rw [hjoin, parts_append_slash]

theorem parts_ofNames {names : List Name} (h : ∀ name ∈ names, name ≠ [] ∧ '/' ∉ name) :
    parts (ofNames names) = names := by
  induction names with
  | nil => rfl
  | cons name rest ih =>
    obtain ⟨⟨hne, hslash⟩, hrest⟩ := List.forall_mem_cons.1 h
    cases rest with
    | nil => exact parts_name hne hslash
    | cons next rest =>
      have hspelled : ofNames (name :: next :: rest) = name ++ '/' :: ofNames (next :: rest) := by
        simp [ofNames, Text.join]
      rw [hspelled, parts_append_slash, parts_name hne hslash, ih hrest]
      rfl

theorem exists_name {path : Text} (hne : path ≠ []) (hslash : endsWithSlash path = false) :
    ∃ name, name ≠ [] ∧ '/' ∉ name ∧ (path = name ∨ ∃ dir, path = dir ++ '/' :: name) := by
  induction path with
  | nil => exact absurd rfl hne
  | cons c s ih =>
    rcases eq_or_ne s [] with rfl | hs
    · refine ⟨[c], by simp, ?_, Or.inl rfl⟩
      simpa [endsWithSlash, eq_comm] using hslash
    · have hrest : endsWithSlash s = false := by
        rw [endsWithSlash, List.getLast?_cons_of_ne_nil hs] at hslash
        exact hslash
      obtain ⟨name, hname, hno, rfl | ⟨dir, rfl⟩⟩ := ih hs hrest
      · by_cases hc : c = '/'
        · exact ⟨s, hname, hno, Or.inr ⟨[], by simp [hc]⟩⟩
        · refine ⟨c :: s, by simp, ?_, Or.inl rfl⟩
          simpa [eq_comm, hc] using hno
      · exact ⟨name, hname, hno, Or.inr ⟨c :: dir, rfl⟩⟩

/-! ## Parents -/

theorem dropEmptyParts_suffix (s : Text) : dropEmptyParts s <:+ s := by
  fun_induction dropEmptyParts s with
  | case1 => exact List.suffix_rfl
  | case2 => exact List.suffix_rfl
  | case3 s ih => exact ih.trans (List.suffix_cons _ _)
  | case4 s ih => exact ih.trans ((List.suffix_cons _ _).trans (List.suffix_cons _ _))
  | case5 => exact List.suffix_rfl

theorem parts_dropEmptyParts (s : Text) :
    ∃ k, parts s.reverse = parts (dropEmptyParts s).reverse ++ List.replicate k ['.'] := by
  fun_induction dropEmptyParts s with
  | case1 => exact ⟨0, rfl⟩
  | case2 => exact ⟨0, rfl⟩
  | case3 s ih =>
    obtain ⟨k, hk⟩ := ih
    refine ⟨k, ?_⟩
    rw [List.reverse_cons, parts_append_slash, hk, parts_nil, List.append_nil]
  | case4 s ih =>
    obtain ⟨k, hk⟩ := ih
    refine ⟨k + 1, ?_⟩
    have hdot : parts ['.'] = [['.']] := parts_name (by simp) (by decide)
    rw [List.reverse_cons, List.reverse_cons, List.append_assoc, List.singleton_append,
      parts_append_slash, hk, hdot, List.replicate_succ', List.append_assoc]
  | case5 => exact ⟨0, by simp⟩

theorem dropEmptyParts_name {name : Name} (hne : name ≠ []) (hslash : '/' ∉ name)
    (hdot : name ≠ ['.']) (before : Text) :
    dropEmptyParts (name.reverse ++ before) = name.reverse ++ before := by
  obtain ⟨c, t, hreverse⟩ := List.exists_cons_of_ne_nil (List.reverse_ne_nil_iff.2 hne)
  have hmem : '/' ∉ c :: t := by
    rw [← hreverse]
    simpa using hslash
  have hlone : c :: t ≠ ['.'] := by
    rw [← hreverse]
    intro h
    exact hdot (by simpa using congrArg List.reverse h)
  rw [hreverse, List.cons_append]
  unfold dropEmptyParts
  split
  · next heq => cases heq
  · next heq =>
    obtain ⟨rfl, ht⟩ := List.cons.inj heq
    exact absurd (by rw [(List.append_eq_nil_iff.1 ht).1]) hlone
  · next heq =>
    obtain ⟨rfl, -⟩ := List.cons.inj heq
    exact absurd List.mem_cons_self hmem
  · next heq =>
    obtain ⟨rfl, ht⟩ := List.cons.inj heq
    cases t with
    | nil => exact absurd rfl hlone
    | cons d t =>
      obtain ⟨rfl, -⟩ := List.cons.inj ht
      exact absurd (by simp) hmem
  · next heq => rw [heq]

theorem parent?_name {name : Name} (hne : name ≠ []) (hslash : '/' ∉ name) (hdot : name ≠ ['.']) :
    parent? name = some [] := by
  have hkept : dropEmptyParts name.reverse = name.reverse := by
    simpa using dropEmptyParts_name hne hslash hdot []
  have hdrop : name.reverse.dropWhile (· ≠ '/') = [] := by
    rw [List.dropWhile_eq_nil_iff]
    intro c hc
    simpa using ne_of_mem_of_not_mem (List.mem_reverse.1 hc) hslash
  have habsolute : isAbsolute name = false := by
    cases name with
    | nil => rfl
    | cons c t =>
      have hc : c ≠ '/' := ne_of_mem_of_not_mem List.mem_cons_self hslash
      simpa [isAbsolute] using hc
  rw [parent?, hkept]
  split
  · simp_all
  · rw [hdrop, habsolute]
    simp [dropEmptyParts]

theorem parent?_append_name {name : Name} (hne : name ≠ []) (hslash : '/' ∉ name)
    (hdot : name ≠ ['.']) (dir : Text) :
    parent? (dir ++ '/' :: name) =
      if (dropEmptyParts dir.reverse).isEmpty && isAbsolute (dir ++ '/' :: name) then some ['/']
      else some (dropEmptyParts dir.reverse).reverse := by
  have hreverse : (dir ++ '/' :: name).reverse = name.reverse ++ '/' :: dir.reverse := by simp
  have hdrop : (name.reverse ++ '/' :: dir.reverse).dropWhile (· ≠ '/') = '/' :: dir.reverse := by
    rw [List.dropWhile_append_of_pos]
    · rfl
    · intro c hc
      simpa using ne_of_mem_of_not_mem (List.mem_reverse.1 hc) hslash
  rw [parent?, hreverse, dropEmptyParts_name hne hslash hdot]
  split
  · simp_all
  · next h =>
    rw [hdrop]
    simp [dropEmptyParts]

end Files.Path

end PropCatalog
