import PropCatalog.Proofs.Example.Decoding
import PropCatalog.Proofs.Template.Reading
import PropCatalog.Template.Block

/-!
# Reading a block back

A block is laid out in lines: the heading, the description if it is shown, a blank line and the
fenced example. `readBlock?` reads what a block shows of its template off the front of a text, from the
style alone (`readBlock?_block`). A description is told from a missing one by the blank line after it,
since it is one line and not empty; whatever it looks like does not matter. The example ends at its
line break.
-/

namespace PropCatalog.Template

variable {style : BlockStyle} {template : Template}

/-- What a block shows of a template. -/
structure Entry where
  name : Text
  description : Option Text
  payload : Example.Shown

/-- The description that a block shows. -/
def shownDescription (style : BlockStyle) (template : Template) : Option Text :=
  match style.descriptions with
  | true => template.description
  | false => none

def entry (style : BlockStyle) (template : Template) : Entry :=
  ⟨template.name, template.shownDescription style, template.payload.shown⟩

/-! ## The reader -/

/-- Reads the description, if there is one before the blank line. -/
def summary? (style : BlockStyle) (s : Text) : Option (Option Text × Text) :=
  if style.descriptions && s.head? ≠ some '\n' then
    (Text.cut? ['\n'] s).map fun (line, rest) => (some line, rest)
  else some (none, s)

/-- The line that opens the fenced example, with the blank line before it. -/
def openingFence (style : BlockStyle) : Text :=
  '\n' :: fence ++ style.fenceLanguage ++ ['\n']

/-- Reads a block, and the line break before it, off the front of a text. -/
def readBlock? (style : BlockStyle) (s : Text) : Option (Entry × Text) := do
  let s ← Text.after? "\n### ".toList s
  let (name, s) ← Text.cut? ['\n'] s
  let (description, s) ← summary? style s
  let s ← Text.after? (openingFence style) s
  let (line, s) ← Text.cut? ['\n'] s
  let payload ← Example.decode? line
  let s ← Text.after? (fence ++ ['\n']) s
  return (⟨name, description, payload⟩, s)

/-! ## Blocks -/

/-- The line of the description, if it is shown. -/
def summaryLine (style : BlockStyle) (template : Template) : Text :=
  match template.shownDescription style with
  | some description => description ++ ['\n']
  | none => []

theorem block_eq (style : BlockStyle) (template : Template) :
    template.block style = "### ".toList ++ (template.name ++ '\n' :: (template.summaryLine style ++
      (openingFence style ++ (template.payload.render ++ '\n' :: (fence ++ ['\n']))))) := by
  unfold block summaryLine shownDescription openingFence
  cases style.descriptions with
  | false =>
    simp only [List.append_assoc, List.cons_append, List.nil_append]
  | true =>
    cases template.description <;>
      simp only [List.append_assoc, List.cons_append, List.nil_append]

theorem isSummary_of_shown (style : BlockStyle) {component : Text} (h : template.IsOf component) :
    ∀ line ∈ template.shownDescription style, IsSummary line := by
  intro line hline
  unfold shownDescription at hline
  split at hline
  · exact h.isSummary line hline
  · cases hline

theorem summary?_append {component : Text} (h : template.IsOf component) (s : Text) :
    summary? style (template.summaryLine style ++ '\n' :: s) =
      some (template.shownDescription style, '\n' :: s) := by
  have hsummary := isSummary_of_shown style h
  unfold summaryLine
  cases hshown : template.shownDescription style with
  | none => simp [summary?]
  | some description =>
    have hdescriptions : style.descriptions = true := by
      cases hoff : style.descriptions with
      | true => rfl
      | false => simp [shownDescription, hoff] at hshown
    obtain ⟨hne, hnewline, -⟩ := hsummary description hshown
    obtain ⟨c, rest, rfl⟩ := List.exists_cons_of_ne_nil hne
    have hc : c ≠ '\n' := by
      rintro rfl
      simp at hnewline
    have hcut := Text.cut?_line hnewline ('\n' :: s)
    simp only [List.append_assoc, List.singleton_append] at hcut ⊢
    rw [summary?, if_pos (by simp [hdescriptions, hc]), hcut]
    rfl

theorem newline_notMem_render (e : Example) : '\n' ∉ e.render := fun hmem =>
  absurd (Example.render_printable e _ hmem) (by decide)

/-- A block is read back as what it shows of its template. -/
theorem readBlock?_block {component : Text} (h : template.IsOf component) (hname : '\n' ∉ component)
    (s : Text) :
    readBlock? style ('\n' :: (template.block style ++ s)) = some (template.entry style, s) := by
  have htext : '\n' :: (template.block style ++ s) = "\n### ".toList ++ (template.name ++ '\n' ::
      (template.summaryLine style ++ (openingFence style ++ (template.payload.render ++ '\n' ::
        ((fence ++ ['\n']) ++ s))))) := by
    rw [block_eq]
    simp only [List.append_assoc, List.cons_append]
    rfl
  have hblank : ∀ t, ∃ t', openingFence style ++ t = '\n' :: t' := fun t => ⟨_, rfl⟩
  have hsummary : ∀ t, summary? style (template.summaryLine style ++ (openingFence style ++ t)) =
      some (template.shownDescription style, openingFence style ++ t) := by
    intro t
    obtain ⟨t', ht'⟩ := hblank t
    rw [ht', summary?_append h]
  rw [← h.name_eq] at hname
  simp only [readBlock?, bind, htext, Text.after?_append, Option.bind_some, Text.cut?_line hname,
    hsummary, Text.cut?_line (newline_notMem_render _), Example.decode?_render_eq]
  rfl

end PropCatalog.Template
