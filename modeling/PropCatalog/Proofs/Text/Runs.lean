import PropCatalog.Text.Basic
import Mathlib.Data.List.TakeWhile

/-!
# Runs of characters and trimming

A reader takes a run of characters of one class and stops at the first character of another. Such a
run in front of a text that does not go on with it is taken as it is (`span_append`), and every text
is a run and the rest (`exists_span`). Trimming drops a run of blanks at each end.
-/

namespace PropCatalog.Text

variable {p : Char → Bool} {a s : Text}

theorem span_append (ha : ∀ c ∈ a, p c = true) (hs : s.head?.any p = false) :
    (a ++ s).takeWhile p = a ∧ (a ++ s).dropWhile p = s := by
  rw [List.takeWhile_append_of_pos ha, List.dropWhile_append_of_pos ha]
  cases s with
  | nil => simp
  | cons c s =>
    have hc : ¬ p c = true := by simpa using hs
    exact ⟨by rw [List.takeWhile_cons_of_neg hc, List.append_nil], List.dropWhile_cons_of_neg hc⟩

theorem dropWhile_eq_self (hs : s.head?.any p = false) : s.dropWhile p = s :=
  (span_append (a := []) (by simp) hs).2

theorem head?_dropWhile (p : Char → Bool) (s : Text) : (s.dropWhile p).head?.any p = false := by
  have hhead := List.head?_dropWhile_not p s
  rw [Option.any_eq_false]
  intro c hc
  simp_all

theorem exists_span (p : Char → Bool) (s : Text) :
    ∃ a b, s = a ++ b ∧ (∀ c ∈ a, p c = true) ∧ b.head?.any p = false :=
  ⟨s.takeWhile p, s.dropWhile p, List.takeWhile_append_dropWhile.symm,
    fun c hc => List.all_eq_true.1 List.all_takeWhile c hc, head?_dropWhile p s⟩

theorem takeWhile_eq_replicate (c : Char) (s : Text) :
    s.takeWhile (· = c) = List.replicate (s.takeWhile (· = c)).length c :=
  List.eq_replicate_of_mem fun _ hd =>
    of_decide_eq_true (List.mem_takeWhile_imp (p := fun d => decide (d = c)) hd)

theorem getLast?_cons_or (c : Char) (a : Text) (before : Option Char) :
    (c :: a).getLast?.or before = a.getLast?.or (some c) := by
  cases a <;> simp [List.getLast?_cons]

/-! ## Trimming -/

theorem trimStart_append {blanks : Text} (hblanks : blanks.all isBlank = true)
    (hs : s.head?.any isBlank = false) : trimStart (blanks ++ s) = s :=
  (span_append (List.all_eq_true.1 hblanks) hs).2

theorem exists_blanks_append_trimStart (s : Text) :
    ∃ blanks, blanks.all isBlank = true ∧ s = blanks ++ trimStart s :=
  ⟨s.takeWhile isBlank, List.all_takeWhile, List.takeWhile_append_dropWhile.symm⟩

theorem trimEnd_eq_self (hlast : s.getLast?.any isBlank = false) : trimEnd s = s := by
  rw [trimEnd, dropWhile_eq_self (by rwa [List.head?_reverse]), List.reverse_reverse]

theorem trimEnd_append {blanks : Text} (hblanks : blanks.all isBlank = true)
    (hlast : s.getLast?.any isBlank = false) : trimEnd (s ++ blanks) = s := by
  have hall : ∀ c ∈ blanks.reverse, isBlank c = true := fun c hc =>
    List.all_eq_true.1 hblanks c (List.mem_reverse.1 hc)
  rw [trimEnd, List.reverse_append, List.dropWhile_append_of_pos hall]
  exact trimEnd_eq_self hlast

theorem exists_trimEnd_append_blanks (s : Text) :
    ∃ blanks, blanks.all isBlank = true ∧ s = trimEnd s ++ blanks := by
  refine ⟨(s.reverse.takeWhile isBlank).reverse, ?_, ?_⟩
  · rw [List.all_reverse]
    exact List.all_takeWhile
  · rw [trimEnd, ← List.reverse_append, List.takeWhile_append_dropWhile, List.reverse_reverse]

theorem exists_blanks_trim (s : Text) : ∃ before behind, before.all isBlank = true ∧
    behind.all isBlank = true ∧ s = before ++ (trim s ++ behind) := by
  obtain ⟨before, hbefore, hstart⟩ := exists_blanks_append_trimStart s
  obtain ⟨behind, hbehind, hend⟩ := exists_trimEnd_append_blanks (trimStart s)
  exact ⟨before, behind, hbefore, hbehind, by rw [trim, ← hend, ← hstart]⟩

theorem trim_append {blanks : Text} (hblanks : blanks.all isBlank = true)
    (hhead : s.head?.any isBlank = false) (hlast : s.getLast?.any isBlank = false) :
    trim (blanks ++ s) = s := by
  rw [trim, trimStart_append hblanks hhead, trimEnd_eq_self hlast]

theorem not_blank_trim (s : Text) :
    (trim s).head?.any isBlank = false ∧ (trim s).getLast?.any isBlank = false := by
  constructor
  · rw [trim, trimEnd]
    -- what is left at the head is a part of the text without the blanks at its head
    have hsuffix := List.dropWhile_suffix isBlank (l := (trimStart s).reverse)
    obtain ⟨rest, hrest⟩ := List.reverse_prefix.2 hsuffix
    rw [List.reverse_reverse] at hrest
    have hstart := head?_dropWhile isBlank s
    cases hkept : ((trimStart s).reverse.dropWhile isBlank).reverse with
    | nil => rfl
    | cons c t =>
      rw [hkept] at hrest
      rw [show s.dropWhile isBlank = trimStart s from rfl, ← hrest] at hstart
      exact hstart
  · rw [trim, trimEnd, List.getLast?_reverse]
    exact head?_dropWhile isBlank _

theorem not_blank_of_trim_eq_self (h : trim s = s) :
    s.head?.any isBlank = false ∧ s.getLast?.any isBlank = false :=
  h ▸ not_blank_trim s

theorem mem_of_mem_trim {c : Char} (h : c ∈ trim s) : c ∈ s := by
  rw [trim, trimEnd, List.mem_reverse] at h
  have hstart := List.mem_reverse.1 ((List.dropWhile_suffix isBlank).subset h)
  exact (List.dropWhile_suffix isBlank).subset hstart

theorem trim_concat {c : Char} (hc : isBlank c = true) (s : Text) : trim (s ++ [c]) = trim s := by
  have hend : ∀ t : Text, trimEnd (t ++ [c]) = trimEnd t := by
    intro t
    rw [trimEnd, List.reverse_concat, List.dropWhile_cons_of_pos hc, trimEnd]
  by_cases hblank : s.all isBlank = true
  · have hall : ∀ d ∈ s, isBlank d = true := List.all_eq_true.1 hblank
    have hstart : trimStart s = [] := List.dropWhile_eq_nil_iff.2 hall
    have hstart' : trimStart (s ++ [c]) = [] := by
      rw [trimStart, List.dropWhile_append_of_pos hall, List.dropWhile_cons_of_pos hc]
      rfl
    rw [trim, trim, hstart, hstart']
  · have hne : trimStart s ≠ [] := fun hnil =>
      hblank (List.all_eq_true.2 (List.dropWhile_eq_nil_iff.1 hnil))
    have hstart : trimStart (s ++ [c]) = trimStart s ++ [c] := by
      rw [trimStart, List.dropWhile_append, if_neg]
      · rfl
      · exact fun hempty => hne (List.isEmpty_iff.1 hempty)
    rw [trim, trim, hstart, hend]

theorem trim_blanks_append {blanks : Text} (hblanks : blanks.all isBlank = true) (s : Text) :
    trim (blanks ++ s) = trim s := by
  rw [trim, trimStart, List.dropWhile_append_of_pos (List.all_eq_true.1 hblanks), trim, trimStart]

theorem trim_append_blanks {blanks : Text} (hblanks : blanks.all isBlank = true) (s : Text) :
    trim (s ++ blanks) = trim s := by
  induction blanks generalizing s with
  | nil => rw [List.append_nil]
  | cons c blanks ih =>
    obtain ⟨hc, hblanks⟩ := Bool.and_eq_true_iff.1 hblanks
    rw [← List.concat_append, ih hblanks, List.concat_eq_append, trim_concat hc]

theorem trim_eq_self (hhead : s.head?.any isBlank = false) (hlast : s.getLast?.any isBlank = false) :
    trim s = s := by
  rw [trim, trimStart, dropWhile_eq_self hhead, trimEnd_eq_self hlast]

theorem trim_trim (s : Text) : trim (trim s) = trim s :=
  trim_eq_self (not_blank_trim s).1 (not_blank_trim s).2

theorem not_blank_of_getLast?_all (hlast : a.getLast?.all isBlank = false) :
    a ≠ [] ∧ a.getLast?.any isBlank = false := by
  cases h : a.getLast? with
  | none =>
    rw [h] at hlast
    cases hlast
  | some c =>
    rw [h] at hlast
    refine ⟨fun hnil => ?_, hlast⟩
    rw [hnil] at h
    cases h

theorem prefix_trim_append (hhead : a.head?.any isBlank = false)
    (hlast : a.getLast?.all isBlank = false) (s : Text) : a <+: trim (a ++ s) := by
  obtain ⟨hne, hany⟩ := not_blank_of_getLast?_all hlast
  obtain ⟨c, a, rfl⟩ := List.exists_cons_of_ne_nil hne
  have hstart : trimStart (c :: a ++ s) = c :: a ++ s := dropWhile_eq_self hhead
  have hend : (c :: a).reverse.dropWhile isBlank = (c :: a).reverse :=
    dropWhile_eq_self (by rwa [List.head?_reverse])
  rw [trim, trimEnd, hstart, List.reverse_append, List.dropWhile_append]
  split
  · exact ⟨[], by rw [hend, List.reverse_reverse, List.append_nil]⟩
  · rw [List.reverse_append, List.reverse_reverse]
    exact List.prefix_append _ _

end PropCatalog.Text
