import PropCatalog.Proofs.Text.Lines
import PropCatalog.Proofs.Text.Runs
import PropCatalog.Template.Basic

/-!
# What is known of a template that was read

A template bears the name it was asked for by, and its payload is an object. Its description, if it
has one, is one line with text and without blanks around it (`IsSummary`), since it is a piece of a
comment between line breaks; nothing else is known of it.
-/

namespace PropCatalog.Template

/-- A line with text and without blanks around it. -/
structure IsSummary (line : Text) : Prop where
  ne_nil : line ≠ []
  newline_notMem : '\n' ∉ line
  trim_eq : Text.trim line = line

theorem isSummary_of_docCommentAtEnd? {preceding line : Text}
    (h : docCommentAtEnd? preceding = some line) : IsSummary line := by
  obtain ⟨body, -, h⟩ := Option.bind_eq_some_iff.1 h
  obtain ⟨⟨before, comment⟩, -, hfind⟩ := Option.bind_eq_some_iff.1 h
  have hkept := List.find?_some hfind
  obtain ⟨piece, hpiece, rfl⟩ := List.mem_map.1 (List.mem_of_find?_eq_some hfind)
  refine ⟨?_, fun hmem => ?_, Text.trim_trim _⟩
  · rintro hnil
    rw [hnil] at hkept
    cases hkept
  · -- the characters of the line are characters of the piece
    have hstars := (List.dropWhile_suffix (· = '*')).subset (Text.mem_of_mem_trim hmem)
    have hsplit := Text.not_of_mem_pieces hpiece '\n' (Text.mem_of_mem_trim hstars)
    cases hsplit

theorem isSummary_of_description? {content component interface line : Text}
    (h : description? content component interface = some line) : IsSummary line := by
  have habove : ∀ {m : Option Char → Text → Option Text},
      descriptionAbove? m content = some line → IsSummary line := by
    intro m hm
    obtain ⟨⟨preceding, rest⟩, -, hcomment⟩ := Option.bind_eq_some_iff.1 hm
    exact isSummary_of_docCommentAtEnd? hcomment
  rw [description?] at h
  split at h
  next found hfound =>
    obtain rfl := Option.some.inj h
    exact habove hfound
  next => exact habove h

/-- What is known of a template of a component. -/
structure IsOf (component : Text) (template : Template) : Prop where
  name_eq : template.name = component
  isSummary : ∀ line ∈ template.description, IsSummary line
  payload_eq : ∃ fields, template.payload = .object fields

theorem isOf_of_read {reader : Reader} {component content : Text} {template : Template}
    (h : reader.read component content = .ok template) : template.IsOf component := by
  rw [Reader.read] at h
  split at h
  · cases h
  · cases h
  · cases h
    exact ⟨rfl, fun _ => isSummary_of_description?, _, rfl⟩

end PropCatalog.Template
