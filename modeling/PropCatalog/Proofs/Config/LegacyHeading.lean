import PropCatalog.Config.Basic
import PropCatalog.Proofs.Document.SectionLines
import PropCatalog.Proofs.Text.Occurrence
import PropCatalog.Proofs.Text.Runs

/-!
# Legacy headings that are accepted

A configuration is accepted if its legacy heading starts with a number sign. The section under the
heading is looked for by the level of the heading, which a text with more than six signs does not
have, nor one in which the title follows them without a space. So a configuration can be accepted
that never takes a section over: in a document that has no marker but a line with the heading, a
splice succeeds exactly if the heading has a level (`takesOver_iff_isHeading`), and otherwise the
document is said to have no such section.
-/

namespace PropCatalog.Config

open Document (Shows headingLevel? splice)

variable {config : Config} {document line newSection : Text}

/-! ## Headings -/

/-- At most six number signs, alone or before a space. -/
def IsHeading (line : Text) : Prop :=
  ∃ n rest, n ≤ 6 ∧ line = List.replicate n '#' ++ rest ∧ (rest = [] ∨ rest.head? = some ' ')

theorem exists_headingLevel?_iff (hsign : line.head? = some '#') :
    (∃ level, headingLevel? line = some level) ↔ IsHeading line := by
  constructor
  · rintro ⟨level, hlevel⟩
    simp only [headingLevel?, Option.ite_none_right_eq_some, Bool.and_eq_true, decide_eq_true_eq,
      Bool.or_eq_true, List.isEmpty_iff, Option.some.injEq] at hlevel
    obtain ⟨⟨⟨-, hsix⟩, hrest⟩, -⟩ := hlevel
    refine ⟨_, _, hsix, ?_, hrest⟩
    rw [← Text.takeWhile_eq_replicate]
    exact (List.prefix_iff_eq_append.1 (List.takeWhile_prefix _)).symm
  · rintro ⟨n, rest, hsix, rfl, hrest⟩
    have hstop : rest.head?.any (· = '#') = false := by
      rcases hrest with rfl | hspace
      · rfl
      · rw [hspace]
        decide
    have hpos : 0 < n := by
      rcases Nat.eq_zero_or_pos n with rfl | hpos
      · rcases hrest with rfl | hspace
        · cases hsign
        · rw [List.replicate_zero, List.nil_append, hspace] at hsign
          cases hsign
      · exact hpos
    have htake := (Text.span_append (p := (· = '#')) (a := List.replicate n '#') (by simp) hstop).1
    refine ⟨n, ?_⟩
    rw [headingLevel?, htake, List.length_replicate, List.drop_left' (List.length_replicate ..)]
    rcases hrest with rfl | hspace
    · simp [hpos, hsix]
    · simp [hpos, hsix, hspace]

theorem head?_legacyHeading (hvalid : config.validate = .ok ()) :
    (Text.trim config.target.legacyHeading).head? = some '#' := by
  have hsign : config.target.legacyHeading.head? = some '#' := by
    by_contra hne
    rw [validate, if_pos hne] at hvalid
    split_ifs at hvalid
  obtain ⟨rest, hrest⟩ := List.head?_eq_some_iff.1 hsign
  have hprefix : ['#'] <+: Text.trim (['#'] ++ rest) :=
    Text.prefix_trim_append (by decide) (by decide) rest
  rw [hrest]
  obtain ⟨behind, hbehind⟩ := hprefix
  rw [show '#' :: rest = ['#'] ++ rest from rfl, ← hbehind]
  rfl

/-! ## Taking over -/

theorem locate_of_not_infix (hstart : ¬ config.target.startMarker <:+: document)
    (hend : ¬ config.target.endMarker <:+: document) :
    Document.locate config.target document =
      match Document.section? config.target.legacyHeading document with
      | some (before, inside, after) => .ok ⟨.legacy, before, inside, after⟩
      | none => .error (.missing config.target) := by
  have hcontains : Text.contains config.target.endMarker document = false :=
    Bool.eq_false_iff.2 fun h => hend (Text.contains_iff.1 h)
  rw [Document.locate, Text.cut?_eq_none_iff.2 hstart, hcontains]
  rfl

/-- **When an accepted configuration takes a section over.** In a document without markers, with a
line outside code blocks that is the legacy heading, every section is put in the place of the legacy
one if the heading has at most six signs and ends or goes on with a space behind them. Otherwise none
is, because the section is missing for the splice. -/
theorem takesOver_iff_isHeading (hvalid : config.validate = .ok ())
    (hstart : ¬ config.target.startMarker <:+: document)
    (hend : ¬ config.target.endMarker <:+: document)
    (hline : ∃ i, Shows (· = Text.trim config.target.legacyHeading) (Text.lines document) i) :
    ((∀ newSection, ∃ result, splice config.target document newSection = .ok result ∧
        result.region.kind = .legacy) ↔ IsHeading (Text.trim config.target.legacyHeading)) ∧
      (¬ IsHeading (Text.trim config.target.legacyHeading) →
        ∀ newSection, splice config.target document newSection = .error (.missing config.target)) := by
  have hshows : ∃ i, Shows (Text.startsWith (Text.trim config.target.legacyHeading))
      (Text.lines document) i := by
    obtain ⟨i, hopen, line, hline, heq⟩ := hline
    refine ⟨i, hopen, line, hline, Text.startsWith_iff.2 ?_⟩
    rw [of_decide_eq_true heq]
  have hexists : (∃ parts, Document.section? config.target.legacyHeading document = some parts) ↔
      IsHeading (Text.trim config.target.legacyHeading) := by
    rw [Document.exists_section?_iff, ← exists_headingLevel?_iff (head?_legacyHeading hvalid)]
    exact exists_congr fun level => ⟨fun ⟨_, hlevel, _⟩ => hlevel,
      fun hlevel => hshows.imp fun _ h => ⟨hlevel, h⟩⟩
  have hlocate := locate_of_not_infix hstart hend
  cases hsection : Document.section? config.target.legacyHeading document with
  | some parts =>
    have hheading := hexists.1 ⟨parts, hsection⟩
    rw [hsection] at hlocate
    refine ⟨iff_of_true (fun newSection => ?_) hheading, fun hnone => absurd hheading hnone⟩
    exact ⟨_, by rw [splice, hlocate]; rfl, rfl⟩
  | none =>
    have hheading : ¬ IsHeading (Text.trim config.target.legacyHeading) := by
      rw [← hexists, hsection]
      simp
    rw [hsection] at hlocate
    have hmissing : ∀ newSection,
        splice config.target document newSection = .error (.missing config.target) := by
      intro newSection
      rw [splice, hlocate]
      rfl
    refine ⟨iff_of_false (fun hall => ?_) hheading, fun _ => hmissing⟩
    obtain ⟨result, hresult, -⟩ := hall []
    rw [hmissing] at hresult
    cases hresult

/-- A document with the heading of the standard configuration. -/
def takenOverSample : Text :=
  "# Prompt\n\x60\x60\x60\n## Available Templates\n\x60\x60\x60\n  ## Available Templates\r\nold".toList

theorem takesOver_iff_isHeading_standard :
    (standard.validate = .ok () ∧ ¬ standard.target.startMarker <:+: takenOverSample ∧
      ¬ standard.target.endMarker <:+: takenOverSample ∧
      Shows (· = Text.trim standard.target.legacyHeading) (Text.lines takenOverSample) 4) ∧
    ∀ newSection, ∃ result, splice standard.target takenOverSample newSection = .ok result ∧
      result.region.kind = .legacy := by
  have hvalid : standard.validate = .ok () := by decide +kernel
  have hstart : ¬ standard.target.startMarker <:+: takenOverSample := by decide +kernel
  have hend : ¬ standard.target.endMarker <:+: takenOverSample := by decide +kernel
  have hline : Shows (· = Text.trim standard.target.legacyHeading) (Text.lines takenOverSample) 4 := by
    decide +kernel
  refine ⟨⟨hvalid, hstart, hend, hline⟩, ?_⟩
  refine (takesOver_iff_isHeading hvalid hstart hend ⟨4, hline⟩).1.2 ?_
  exact ⟨2, " Available Templates".toList, by decide, by decide, Or.inr (by decide)⟩

/-- The standard configuration with a heading that has no space behind its sign. -/
def unspaced : Config :=
  { standard with target := { standard.target with legacyHeading := "#Templates".toList } }

/-- The configuration is accepted, but a document with its heading has no section for it. -/
theorem not_takesOver_unspaced :
    unspaced.validate = .ok () ∧
      ¬ unspaced.target.startMarker <:+: "#Templates\nold\n".toList ∧
      ¬ unspaced.target.endMarker <:+: "#Templates\nold\n".toList ∧
      Shows (· = Text.trim unspaced.target.legacyHeading) (Text.lines "#Templates\nold\n".toList) 0 ∧
      ∀ newSection, splice unspaced.target "#Templates\nold\n".toList newSection =
        .error (.missing unspaced.target) := by
  refine ⟨by decide +kernel, by decide +kernel, by decide +kernel, by decide +kernel, ?_⟩
  intro newSection
  rfl

end PropCatalog.Config
