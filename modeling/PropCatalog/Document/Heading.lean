import PropCatalog.Text.Basic

/-!
# Headings of a markdown document

A heading is a line of one to six number signs, alone or followed by a space and a title. A line
that starts with three backticks or three tildes opens or closes a code block, and lines in code
blocks are never headings. Blanks around a line do not count.
-/

namespace PropCatalog.Document

/-- The level of a heading, for a line without blanks around it; none for another line. -/
def headingLevel? (line : Text) : Option Nat :=
  let level := (line.takeWhile (· = '#')).length
  let rest := line.drop level
  if 0 < level && level ≤ 6 && (rest.isEmpty || rest.head? = some ' ') then some level else none

def isFence (line : Text) : Bool :=
  Text.startsWith ['\x60', '\x60', '\x60'] (Text.trim line) ||
    Text.startsWith ['~', '~', '~'] (Text.trim line)

/-- Cuts lines before the first one outside code blocks that satisfies `p` without the blanks around
it; `fenced` tells whether the lines start inside a code block. -/
def cutAtLine? (p : Text → Bool) : (fenced : Bool) → List Text → Option (List Text × List Text)
  | _, [] => none
  | fenced, line :: rest =>
    if isFence line then (cutAtLine? p (!fenced) rest).map fun (a, b) => (line :: a, b)
    else if !fenced && p (Text.trim line) then some ([], line :: rest)
    else (cutAtLine? p fenced rest).map fun (a, b) => (line :: a, b)

theorem cutAtLine?_eq_some {p : Text → Bool} {fenced : Bool} {lines a b : List Text}
    (h : cutAtLine? p fenced lines = some (a, b)) : lines = a ++ b := by
  fun_induction cutAtLine? p fenced lines generalizing a with
  | case1 => simp at h
  | case2 fenced line rest _ ih =>
    obtain ⟨⟨a', b'⟩, hs, hab⟩ := Option.map_eq_some_iff.1 h
    obtain ⟨rfl, rfl⟩ := Prod.mk.inj hab
    simp [ih hs]
  | case3 => simp_all
  | case4 fenced line rest _ _ ih =>
    obtain ⟨⟨a', b'⟩, hs, hab⟩ := Option.map_eq_some_iff.1 h
    obtain ⟨rfl, rfl⟩ := Prod.mk.inj hab
    simp [ih hs]

/-- The text before, in and after the section under a heading: from the first line that starts with
the heading to the next heading of the same or a higher level. -/
def section? (heading document : Text) : Option (Text × Text × Text) := do
  let heading := Text.trim heading
  let level ← headingLevel? heading
  let (before, rest) ← cutAtLine? (Text.startsWith heading) false (Text.lines document)
  let endsHere (line : Text) : Bool := (headingLevel? line).any (· ≤ level)
  match rest with
  | [] => none
  | first :: rest =>
    let (inside, after) := (cutAtLine? endsHere false rest).getD (rest, [])
    return (before.flatten, (first :: inside).flatten, after.flatten)

/-- The three parts make up the document. -/
theorem section?_eq_some {heading document before inside after : Text}
    (h : section? heading document = some (before, inside, after)) :
    document = before ++ inside ++ after := by
  simp only [section?, Option.bind_eq_bind, Option.bind_eq_some_iff] at h
  obtain ⟨level, _, ⟨above, rest⟩, hcut, h⟩ := h
  have hlines := cutAtLine?_eq_some hcut
  rw [← Text.flatten_lines document, hlines]
  cases rest with
  | nil => simp at h
  | cons first rest =>
    simp only [Option.pure_def, Option.some.injEq, Prod.mk.injEq] at h
    obtain ⟨rfl, rfl, rfl⟩ := h
    cases hend : cutAtLine? (fun line => (headingLevel? line).any (· ≤ level)) false rest with
    | none => simp
    | some ends =>
      obtain ⟨inside, after⟩ := ends
      simp [cutAtLine?_eq_some hend]

end PropCatalog.Document
