import PropCatalog.Proofs.Interface.Declarations
import PropCatalog.Proofs.Literal.Simple
import PropCatalog.Proofs.Text.Nesting

/-!
# Braces in a component

Two readers go by the braces of a source text without knowing of strings: the end of a block is the
brace that closes it, and an interface declaration is a name with a brace behind it. A simple
literal leads neither of them astray (`tame_of_isDefault`): its strings hold no braces, so that its
braces are its objects' and are closed in it, and they stand behind signs, not behind names.
-/

namespace PropCatalog

namespace Interface

variable {named : Bool} {a s w : Text}

/-- No opening brace stands behind a name, blanks aside; `named` tells whether a name stands before
the text. -/
def apart : (named : Bool) → Text → Bool
  | _, [] => true
  | named, c :: s =>
    if Text.isBlank c then apart named s
    else if c = '{' then !named && apart false s
    else apart (Text.isIdentRest c) s

theorem apart_blanks_append (hw : w.all Text.isBlank = true) (named : Bool) (s : Text) :
    apart named (w ++ s) = apart named s := by
  induction w with
  | nil => rfl
  | cons c w ih =>
    obtain ⟨hc, hw⟩ := Bool.and_eq_true_iff.1 hw
    rw [List.cons_append, apart, if_pos hc, ih hw]

theorem apart_cons {c : Char} (hblank : Text.isBlank c = false) (hc : c ≠ '{') (named : Bool)
    (s : Text) : apart named (c :: s) = apart (Text.isIdentRest c) s := by
  rw [apart, hblank, if_neg (by simp), if_neg hc]

theorem not_blank_of_isIdentRest {c : Char} (hc : Text.isIdentRest c = true) :
    Text.isBlank c = false ∧ c ≠ '{' := by
  refine ⟨Bool.eq_false_iff.2 fun hblank => ?_, ?_⟩
  · rw [Text.isIdentRest_of_isBlank hblank] at hc
    cases hc
  · rintro rfl
    cases hc

theorem apart_word_append (hne : w ≠ []) (hw : ∀ c ∈ w, Text.isIdentRest c = true) (named : Bool)
    (s : Text) : apart named (w ++ s) = apart true s := by
  induction w generalizing named with
  | nil => exact absurd rfl hne
  | cons c w ih =>
    obtain ⟨hc, hw⟩ := List.forall_mem_cons.1 hw
    obtain ⟨hblank, hbrace⟩ := not_blank_of_isIdentRest hc
    rw [List.cons_append, apart_cons hblank hbrace, hc]
    cases w with
    | nil => rfl
    | cons d w => exact ih (by simp) hw true

theorem exists_apart_of_append (h : apart named (a ++ s) = true) :
    ∃ named, apart named s = true := by
  induction a generalizing named with
  | nil => exact ⟨named, h⟩
  | cons c a ih =>
    rw [List.cons_append, apart] at h
    split at h
    · exact ih h
    · split at h
      · exact ih (Bool.and_eq_true_iff.1 h).2
      · exact ih h

theorem silent_of_apart (h : apart named (a ++ s) = true) : Silent a s := by
  rintro x y rfl hy before name rest hhead
  obtain ⟨blanks, blanks', -, -, hblanks', hs⟩ := hhead.spelled
  rw [List.append_assoc, hs, ← List.append_assoc x, ← List.append_assoc (x ++ keyword)] at h
  obtain ⟨named', h⟩ := exists_apart_of_append h
  have hne : name ≠ [] := by
    rintro rfl
    exact absurd hhead.isIdent (by decide)
  have hbrace : apart true ('{' :: rest) = false := rfl
  rw [apart_word_append hne (fun c => Text.isIdentRest_of_mem hhead.isIdent),
    apart_blanks_append hblanks', hbrace] at h
  cases h

end Interface

namespace Component

open PropCatalog.Bracket (close?)
open Interface (apart apart_cons apart_blanks_append)
open Json (Spaces Ending Parts Inside)
open Literal (Braceless IsInteger IsSimpleLeaf IsSimpleField IsSimpleContainer IsSimple IsDefault)

variable {named : Bool} {a b s t w : Text} {c : Char}

/-! ## Tame texts -/

/-- The braces of a text are closed in it, and none of them stands behind a name if it is followed
by a text without such a brace; `named` tells whether a name stands before it. -/
structure Tame (named : Bool) (t : Text) : Prop where
  close?_append : ∀ d s, close? '{' '}' d (t ++ s) =
    (close? '{' '}' d s).map fun (x, y) => (t ++ x, y)
  apart_append : ∀ s, (∀ named, apart named s = true) → apart named (t ++ s) = true

/-- A text that is tame behind names as well. -/
def Loose (t : Text) : Prop := ∀ named, Tame named t

theorem loose_nil : Loose [] := fun named => by
  refine ⟨fun d s => ?_, fun s hs => hs named⟩
  rw [List.nil_append]
  cases close? '{' '}' d s <;> rfl

theorem Tame.cons (hopen : c ≠ '{') (hclose : c ≠ '}') (hblank : Text.isBlank c = false)
    (ht : Tame (Text.isIdentRest c) t) : Loose (c :: t) := fun named => by
  refine ⟨fun d s => ?_, fun s hs => ?_⟩
  · rw [List.cons_append, Bracket.close?_cons_of_ne hopen hclose, ht.close?_append, Option.map_map]
    rfl
  · rw [List.cons_append, apart_cons hblank hopen]
    exact ht.apart_append s hs

theorem Tame.blanks_append (hw : w.all Text.isBlank = true) (ht : Tame named t) :
    Tame named (w ++ t) := by
  refine ⟨fun d s => ?_, fun s hs => ?_⟩
  · induction w with
    | nil => exact ht.close?_append d s
    | cons c w ih =>
      obtain ⟨hc, hw⟩ := Bool.and_eq_true_iff.1 hw
      have hbrace : c ≠ '{' ∧ c ≠ '}' := by
        constructor <;>
        · rintro rfl
          cases hc
      rw [List.cons_append, List.cons_append, Bracket.close?_cons_of_ne hbrace.1 hbrace.2, ih hw,
        Option.map_map]
      rfl
  · rw [List.append_assoc, apart_blanks_append hw]
    exact ht.apart_append s hs

theorem Tame.append (ha : Tame named a) (hb : Loose b) : Tame named (a ++ b) := by
  refine ⟨fun d s => ?_, fun s hs => ?_⟩
  · rw [List.append_assoc, ha.close?_append, (hb true).close?_append, Option.map_map]
    simp only [Function.comp_def, List.append_assoc]
  · rw [List.append_assoc]
    exact ha.apart_append _ fun named => (hb named).apart_append s hs

theorem Loose.append (ha : Loose a) (hb : Loose b) : Loose (a ++ b) := fun named =>
  (ha named).append hb

theorem loose_of_braceless (h : Braceless t) : Loose t := by
  induction t with
  | nil => exact loose_nil
  | cons c t ih =>
    obtain ⟨hopen, hclose⟩ := h
    obtain ⟨hopen, hopen'⟩ := List.ne_and_not_mem_of_not_mem_cons hopen
    obtain ⟨hclose, hclose'⟩ := List.ne_and_not_mem_of_not_mem_cons hclose
    have ht := ih ⟨hopen', hclose'⟩
    intro named
    by_cases hblank : Text.isBlank c = true
    · exact (ht named).blanks_append (w := [c]) (by simpa using hblank)
    · exact Tame.cons hopen.symm hclose.symm (Bool.eq_false_iff.2 hblank) (ht _) named

theorem Tame.braces (ht : Tame false t) : Tame false ('{' :: (t ++ ['}'])) := by
  refine ⟨fun d s => ?_, fun s hs => ?_⟩
  · have hclose : close? '{' '}' (d + 1) ('}' :: s) =
        (close? '{' '}' d s).map fun (x, y) => ('}' :: x, y) := rfl
    rw [List.cons_append, List.append_assoc, List.singleton_append, Bracket.close?_cons_brace,
      ht.close?_append, hclose]
    simp only [Option.map_map, Function.comp_def, List.cons_append, List.append_assoc,
      List.nil_append]
  · have hbrace : ∀ named, apart named ('}' :: s) = true := fun named => by
      rw [apart_cons (by decide) (by decide)]
      exact hs _
    rw [List.cons_append, List.append_assoc, List.singleton_append, apart]
    exact ht.apart_append _ hbrace

theorem Tame.braces_append (ht : Tame false t) (hs : Loose s) :
    Tame false ('{' :: (t ++ '}' :: s)) := by
  have happend := ht.braces.append hs
  rwa [List.cons_append, List.append_assoc, List.singleton_append] at happend

/-- The block of a tame text is the text. -/
theorem Tame.body?_append (ht : Tame named t) (s : Text) :
    Bracket.body? (t ++ '}' :: s) = some (t, s) := by
  have hclose : close? '{' '}' 0 ('}' :: s) = some ([], s) := rfl
  rw [Bracket.body?, ht.close?_append, hclose, Option.map_some]
  dsimp only
  rw [List.append_nil]

/-! ## Simple literals -/

theorem braceless_of_forall {p : Char → Bool} (hp : p '{' = false ∧ p '}' = false)
    (h : ∀ c ∈ t, p c = true) : Braceless t := by
  constructor
  · intro hmem
    rw [h _ hmem] at hp
    exact absurd hp.1 (by simp)
  · intro hmem
    rw [h _ hmem] at hp
    exact absurd hp.2 (by simp)

theorem braceless_spaces (hw : Spaces w) : Braceless w :=
  braceless_of_forall (by decide) hw

theorem loose_spaces (hw : Spaces w) : Loose w :=
  loose_of_braceless (braceless_spaces hw)

theorem Tame.spaces_append (hw : Spaces w) (ht : Tame named t) : Tame named (w ++ t) :=
  ht.blanks_append (List.all_eq_true.2 fun c hc => Json.isBlank_of_isSpace (hw c hc))

theorem loose_ending {d : Json.Dialect} {e : Text} (he : Ending d e) : Loose e := by
  rcases he with he | ⟨-, w, w', rfl, hw, hw'⟩
  · exact loose_spaces he
  · exact (loose_spaces hw).append
      (Tame.cons (by decide) (by decide) (by decide) (loose_spaces hw' _))

theorem tame_parts {α : Type} {d : Json.Dialect} {part : Text → α → Prop} {xs : List α}
    (hpart : ∀ u x, part u x → Tame false u) (h : Parts d part s xs) : Tame false s := by
  induction h with
  | last hw hp he => exact .spaces_append hw ((hpart _ _ hp).append (loose_ending he))
  | cons hw hp hw' _ ih =>
    exact .spaces_append hw ((hpart _ _ hp).append ((loose_spaces hw').append
      (Tame.cons (by decide) (by decide) (by decide) ih)))

theorem tame_inside {α : Type} {d : Json.Dialect} {part : Text → α → Prop} {xs : List α}
    (hpart : ∀ u x, part u x → Tame false u) (h : Inside d part s xs) : Tame false s := by
  cases h with
  | empty he => exact loose_ending he false
  | parts hs => exact tame_parts hpart hs

theorem braceless_of_isInteger {n : Int} (h : IsInteger s n) : Braceless s := by
  have hdigits : ∀ {digits : Text}, Json.IsWhole digits → Braceless digits := fun h =>
    braceless_of_forall (p := Char.isDigit) (by decide) (Json.isDigits_of_isWhole h).2
  cases h with
  | positive h => exact hdigits h
  | negative h =>
    obtain ⟨hopen, hclose⟩ := hdigits h
    exact ⟨by simp [hopen], by simp [hclose]⟩

theorem loose_of_isSimpleLeaf {v : Json.Value} (h : IsSimpleLeaf s v) : Loose s := by
  refine loose_of_braceless ?_
  cases h with
  | null | true | false => exact ⟨by decide, by decide⟩
  | integer hs => exact braceless_of_isInteger hs
  | string _ hbraces => exact hbraces

theorem tame_of_isSimple {n : Nat} {v : Json.Value} (h : IsSimple n s v) : Tame false s := by
  induction n generalizing s v with
  | zero => exact loose_of_isSimpleLeaf h false
  | succ n ih =>
    rcases h with h | h
    · exact loose_of_isSimpleLeaf h false
    · cases h with
      | array hs =>
        have hinside := tame_inside (fun u x hx => ih hx) hs
        have hcloser : Loose [']'] := loose_of_braceless ⟨by decide, by decide⟩
        exact Tame.cons (c := '[') (by decide) (by decide) (by decide)
          (hinside.append hcloser) false
      | object hs =>
        refine (tame_inside ?_ hs).braces
        rintro _ _ ⟨-, hbraces, hw, hw', hv⟩
        exact (loose_of_braceless hbraces false).append ((loose_spaces hw).append
          (Tame.cons (by decide) (by decide) (by decide) ((ih hv).spaces_append hw')))

theorem tame_of_isDefault {v : Json.Value} (h : IsDefault t v) : Tame false t := by
  cases h with
  | integer hs => exact loose_of_braceless (braceless_of_isInteger hs) false
  | true | false => exact loose_of_braceless ⟨by decide, by decide⟩ false
  | string hquote _ hbraces =>
    refine loose_of_braceless ?_ false
    obtain ⟨hopen, hclose⟩ := hbraces
    rcases hquote with rfl | rfl | rfl <;> exact ⟨by simp [hopen], by simp [hclose]⟩
  | container hs => exact tame_of_isSimple hs

end Component

end PropCatalog
