import PropCatalog.Document.Heading
import PropCatalog.Proofs.Text.Lines
import PropCatalog.Proofs.Text.Runs

/-!
# Outlines

The outline of a document is the list of the headings outside its code blocks, and whether a code
block is still open at its end, as the search for a legacy section reads the lines. It is built up
line by line, so that a text which is known line by line takes an outline to the next one
(`goOn_line`). A line that is neither a heading nor a fence leaves every outline as it is.
-/

namespace PropCatalog.Document

/-- The headings outside code blocks, with their levels, and whether a code block is open. -/
structure Outline where
  headings : List (Nat × Text)
  fenced : Bool
  deriving DecidableEq

/-- A line that says nothing about the structure of a document. -/
structure IsPlain (line : Text) : Prop where
  isFence_eq : isFence line = false
  headingLevel?_eq : headingLevel? (Text.trim line) = none

namespace Outline

/-- The outline after one more line. -/
def step (o : Outline) (line : Text) : Outline :=
  if isFence line then { o with fenced := !o.fenced }
  else if o.fenced then o
  else
    match headingLevel? (Text.trim line) with
    | some level => { o with headings := o.headings ++ [(level, Text.trim line)] }
    | none => o

/-- The outline after the lines of a text. -/
def goOn (o : Outline) (s : Text) : Outline :=
  (Text.lines s).foldl step o

def ofText (s : Text) : Outline :=
  goOn ⟨[], false⟩ s

variable {o : Outline} {line s : Text}

/-! ## Steps -/

theorem step_of_isPlain (h : IsPlain line) (o : Outline) : o.step line = o := by
  rw [step, h.isFence_eq, h.headingLevel?_eq]
  simp

theorem step_of_isFence (h : isFence line = true) (o : Outline) :
    o.step line = ⟨o.headings, !o.fenced⟩ := by
  rw [step, if_pos h]

theorem step_eq_self_iff (hfenced : o.fenced = false) : o.step line = o ↔ IsPlain line := by
  refine ⟨fun heq => ?_, fun h => step_of_isPlain h o⟩
  cases hfence : isFence line with
  | true =>
    rw [step_of_isFence hfence] at heq
    have hopen := congrArg fenced heq
    simp at hopen
  | false =>
    refine ⟨hfence, ?_⟩
    cases hlevel : headingLevel? (Text.trim line) with
    | none => rfl
    | some level =>
      rw [step, hfence, hfenced, hlevel] at heq
      have hlonger := congrArg headings heq
      simp at hlonger

theorem step_newline (o : Outline) (line : Text) : o.step (line ++ ['\n']) = o.step line := by
  have htrim : Text.trim (line ++ ['\n']) = Text.trim line := Text.trim_concat (by decide) line
  have hfence : isFence (line ++ ['\n']) = isFence line := by
    rw [isFence, htrim, isFence]
  rw [step, hfence, htrim, step]

/-! ## Texts -/

theorem goOn_line (h : '\n' ∉ line) (o : Outline) (s : Text) :
    o.goOn (line ++ '\n' :: s) = (o.step line).goOn s := by
  rw [goOn, Text.lines_line h, List.foldl_cons, step_newline, goOn]

theorem goOn_newline (o : Outline) (s : Text) : o.goOn ('\n' :: s) = o.goOn s := by
  have hplain : IsPlain [] := ⟨by decide, by decide⟩
  rw [← List.nil_append ('\n' :: s), goOn_line (by simp), step_of_isPlain hplain]

theorem goOn_last (h : '\n' ∉ line) (hne : line ≠ []) (o : Outline) :
    o.goOn line = o.step line := by
  rw [goOn, Text.lines_of_notMem h hne]
  rfl

end Outline

/-! ## Lines -/

theorem isPlain_of_head {c : Char} {s : Text}
    (hc : c ≠ '#' ∧ c ≠ '\x60' ∧ c ≠ '~' ∧ Text.isBlank c = false)
    (hlast : (c :: s).getLast?.any Text.isBlank = false) : IsPlain (c :: s) := by
  obtain ⟨hsharp, hbacktick, htilde, hblank⟩ := hc
  have htrim : Text.trim (c :: s) = c :: s := Text.trim_eq_self (by simpa using hblank) hlast
  constructor
  · rw [isFence, htrim]
    simp [Text.startsWith, Text.after?, hbacktick.symm, htilde.symm]
  · rw [htrim, headingLevel?, List.takeWhile_cons_of_neg (by simpa using hsharp)]
    rfl

theorem isFence_backticks (s : Text) : isFence ('\x60' :: '\x60' :: '\x60' :: s) = true := by
  have hprefix : ['\x60', '\x60', '\x60'] <+: Text.trim ('\x60' :: '\x60' :: '\x60' :: s) :=
    Text.prefix_trim_append (a := ['\x60', '\x60', '\x60']) (by decide) (by decide) s
  rw [isFence, Text.startsWith_iff.2 hprefix, Bool.true_or]

/-- The line of a heading of level `n`. -/
def title (n : Nat) (s : Text) : Text :=
  List.replicate n '#' ++ ' ' :: s

theorem newline_notMem_title {n : Nat} {s : Text} (h : '\n' ∉ s) : '\n' ∉ title n s := by
  simp [title, h, List.mem_replicate]

theorem headingLevel?_title {n : Nat} (hpos : 0 < n) (hle : n ≤ 6) (s : Text) :
    headingLevel? (title n s) = some n := by
  have htake : (title n s).takeWhile (· = '#') = List.replicate n '#' :=
    (Text.span_append (by simp [List.mem_replicate]) rfl).1
  have hdrop : (title n s).drop n = ' ' :: s := by
    rw [title, List.drop_left' (List.length_replicate ..)]
  rw [headingLevel?, htake, List.length_replicate, hdrop]
  simp [hpos, hle]

theorem Outline.step_title {o : Outline} (hfenced : o.fenced = false) {n : Nat} (hpos : 0 < n)
    (hle : n ≤ 6) {s : Text} (hlast : (' ' :: s).getLast?.any Text.isBlank = false) :
    o.step (title n s) = ⟨o.headings ++ [(n, title n s)], false⟩ := by
  have hlevel := headingLevel?_title hpos hle s
  have hhead : (title n s).head? = some '#' := by
    obtain ⟨m, rfl⟩ := Nat.exists_eq_add_of_lt hpos
    rfl
  have htrim : Text.trim (title n s) = title n s := by
    refine Text.trim_eq_self (by rw [hhead]; decide) ?_
    simpa only [title, List.getLast?_append, List.getLast?_cons, Option.some_or] using hlast
  have hfence : isFence (title n s) = false := by
    obtain ⟨t, ht⟩ := List.head?_eq_some_iff.1 hhead
    rw [isFence, htrim, ht]
    rfl
  rw [step, hfence, hfenced, htrim, hlevel]
  simp

end PropCatalog.Document
