import PropCatalog.Proofs.Catalog.Templates
import PropCatalog.Proofs.Document.History
import PropCatalog.Proofs.Example.Strings

/-!
# Where the section of a catalogue ends

A catalogue stands between the two markers, and a later run finds it again only if the first end
marker after the start marker is the one at its end (`IsSection`). With the standard end marker this
depends on nothing but the texts that the sources bring along: the descriptions that are shown, and
the strings of the payloads (`generate_isSection_iff`). Neither is looked at when the catalogue is
written, so that a source can close the section early (`generate_not_isSection`).

The proof cuts the catalogue into the texts that it was assembled from. A marker reaches over none
of the seams, since on one side of each stands a character that markers do not have.
-/

namespace PropCatalog

open Text (IsMarker FirstAfter)
open Document (IsSection)

theorem isMarker_endMarker : IsMarker Config.targetStandard.endMarker := by
  have hall : Config.targetStandard.endMarker.all (fun c => c ∈ Text.markerChars) = true := by
    decide
  exact ⟨by decide, by decide, fun c hc => of_decide_eq_true (List.all_eq_true.1 hall c hc)⟩

/-! ## Blocks -/

namespace Template

/-- The texts that the block of a template takes over from the source: its description, if it is
shown, and the strings of its payload. -/
def shownTexts (style : BlockStyle) (template : Template) : List Text :=
  (match style.descriptions, template.description with
    | true, some description => [description]
    | _, _ => []) ++ template.payload.strings

theorem infix_block_iff {needle : Text} (h : IsMarker needle) {style : BlockStyle}
    (hlanguage : ¬ needle <:+: style.fenceLanguage) {template : Template}
    (hname : '<' ∉ template.name) :
    needle <:+: template.block style ↔ ∃ s ∈ template.shownTexts style, needle <:+: s := by
  have hpayload : needle <:+: '\n' :: (fence ++ (style.fenceLanguage ++ '\n' ::
      (template.payload.render ++ '\n' :: (fence ++ ['\n'])))) ↔
        ∃ s ∈ template.payload.strings, needle <:+: s := by
    rw [h.infix_cons_iff (by decide), h.infix_append_iff (by decide),
      h.infix_append_cons_iff (by decide), h.infix_append_cons_iff (by decide),
      Example.infix_render_iff h]
    simp [hlanguage, h.not_infix (s := fence ++ ['\n']) (by decide)]
  have htitle : '<' ∉ "### ".toList := by decide
  unfold block shownTexts
  generalize "### ".toList = title at htitle ⊢
  simp only [List.append_assoc, List.cons_append, List.nil_append]
  rw [h.infix_append_iff htitle, h.infix_append_cons_iff (by decide)]
  cases style.descriptions with
  | false =>
    dsimp only
    rw [List.nil_append, hpayload, List.nil_append]
    exact or_iff_right (h.not_infix hname)
  | true =>
    cases template.description with
    | none =>
      dsimp only
      rw [List.nil_append, hpayload, List.nil_append]
      exact or_iff_right (h.not_infix hname)
    | some description =>
      dsimp only
      rw [List.append_assoc, List.singleton_append, h.infix_append_cons_iff (by decide), hpayload]
      simp [h.not_infix hname]

end Template

/-! ## Catalogues -/

namespace Catalog

variable {config : Config} {files : List SourceFile}

/-- What stands between the start marker and the last newline of a catalogue. -/
def inner (config : Config) (blocks : List Text) : Text :=
  "\n\n## ".toList ++ config.output.heading ++ " (".toList ++ Nat.toDigits 10 blocks.length ++
    ")\n".toList ++ blocks.flatMap (fun block => '\n' :: block)

theorem assemble_eq (config : Config) (blocks : List Text) :
    assemble config blocks =
      config.target.startMarker ++ (inner config blocks ++ ['\n']) ++ config.target.endMarker := by
  unfold assemble inner
  simp only [List.append_assoc, List.singleton_append]

theorem infix_flatMap_blocks_iff {needle : Text} (h : IsMarker needle) (lead : Text)
    (blocks : List Text) : needle <:+: lead ++ blocks.flatMap (fun block => '\n' :: block) ↔
      needle <:+: lead ∨ ∃ block ∈ blocks, needle <:+: block := by
  induction blocks generalizing lead with
  | nil => simp
  | cons block blocks ih =>
    rw [List.flatMap_cons, List.cons_append, h.infix_append_cons_iff (by decide), ih block]
    simp

theorem infix_inner_iff {needle : Text} (h : IsMarker needle)
    (hheading : ¬ needle <:+: config.output.heading) (blocks : List Text) :
    needle <:+: inner config blocks ↔ ∃ block ∈ blocks, needle <:+: block := by
  have hdigits : '<' ∉ Nat.toDigits 10 blocks.length := fun hmem =>
    absurd (Nat.isDigit_of_mem_toDigits (by decide) (by decide) hmem) (by decide)
  have hcount : '<' ∉ Nat.toDigits 10 blocks.length ++ ")\n".toList := by
    rw [List.mem_append, not_or]
    exact ⟨hdigits, by decide⟩
  have htitle : '<' ∉ "\n\n## ".toList := by decide
  have hopen : " (".toList = [' ', '('] := rfl
  have hinner : inner config blocks = "\n\n## ".toList ++ ((config.output.heading ++ [' ']) ++
      '(' :: ((Nat.toDigits 10 blocks.length ++ ")\n".toList) ++
        blocks.flatMap (fun block => '\n' :: block))) := by
    unfold inner
    simp only [hopen, List.append_assoc, List.cons_append, List.nil_append]
  have hspace : needle <:+: config.output.heading ++ [' '] ↔ needle <:+: config.output.heading :=
    Text.infix_concat_iff_of_getLast? h.ne_nil (by simp [h.last])
  rw [hinner, h.infix_append_iff htitle, h.infix_append_cons_iff (by decide), hspace,
    infix_flatMap_blocks_iff h]
  simp only [hheading, h.not_infix hcount, false_or]

theorem name_of_mem_templates {file : SourceFile} {template : Template}
    (h : (file, template) ∈ templates config files) :
    file ∈ files ∧ template.name = file.component :=
  (of_mem_templates h).imp_right fun hof => hof.name_eq

theorem lt_notMem_of_isComponentName {name : Text} (h : Scan.isComponentName name = true) :
    '<' ∉ name :=
  notMem_of_isComponentName h (by decide)

/-- **When a catalogue is closed at its end.** A catalogue starts with the start marker and ends
with the end marker. The end marker at its end is the first one after the start marker if and only
if no text that a template takes over from its source has the end marker in it. -/
theorem generate_isSection_iff (config : Config) (files : List SourceFile)
    (hmarker : config.target.endMarker = Config.targetStandard.endMarker)
    (hheading : ¬ config.target.endMarker <:+: config.output.heading)
    (hlanguage : ¬ config.target.endMarker <:+: config.output.fenceLanguage)
    (hnames : ∀ file ∈ files, Scan.isComponentName file.component = true) :
    ∃ body, (generate config files).text =
        config.target.startMarker ++ body ++ config.target.endMarker ∧
      (FirstAfter config.target.endMarker body ↔
        ∀ p ∈ templates config files, ∀ s ∈ p.2.shownTexts config.blockStyle,
          ¬ config.target.endMarker <:+: s) := by
  have h : IsMarker config.target.endMarker := hmarker ▸ isMarker_endMarker
  refine ⟨_, assemble_eq config _, ?_⟩
  rw [Text.firstAfter_concat_iff fun hmem => absurd (h.chars _ hmem) (by decide),
    infix_inner_iff h hheading]
  have hblock : ∀ p ∈ templates config files,
      (config.target.endMarker <:+: p.2.block config.blockStyle ↔
        ∃ s ∈ p.2.shownTexts config.blockStyle, config.target.endMarker <:+: s) := by
    rintro ⟨file, template⟩ hp
    obtain ⟨hfile, hname⟩ := name_of_mem_templates hp
    refine Template.infix_block_iff h hlanguage ?_
    rw [hname]
    exact lt_notMem_of_isComponentName (hnames file hfile)
  simp only [List.mem_map, not_exists, not_and, forall_exists_index, and_imp,
    forall_apply_eq_imp_iff₂]
  refine forall₂_congr fun p hp => ?_
  rw [hblock p hp]
  simp

theorem generate_isSection_iff_plain :
    (Config.standard.target.endMarker = Config.targetStandard.endMarker ∧
      ¬ Config.standard.target.endMarker <:+: Config.standard.output.heading ∧
      ¬ Config.standard.target.endMarker <:+: Config.standard.output.fenceLanguage ∧
      Scan.isComponentName "Card".toList = true) ∧
    ∃ body, (generate Config.standard [⟨[], [], "Card".toList,
          "/** A card. */\ninterface CardProps { title: string }".toList⟩]).text =
        Config.standard.target.startMarker ++ body ++ Config.standard.target.endMarker ∧
      FirstAfter Config.standard.target.endMarker body := by
  have hheading : ¬ Config.standard.target.endMarker <:+: Config.standard.output.heading := by
    decide
  have hlanguage : ¬ Config.standard.target.endMarker <:+:
      Config.standard.output.fenceLanguage := by
    decide
  have hname : Scan.isComponentName "Card".toList = true := by decide
  refine ⟨⟨rfl, hheading, hlanguage, hname⟩, ?_⟩
  obtain ⟨body, htext, hbody⟩ := generate_isSection_iff Config.standard [⟨[], [], "Card".toList,
    "/** A card. */\ninterface CardProps { title: string }".toList⟩] rfl hheading hlanguage
    (by simpa using hname)
  exact ⟨body, htext, hbody.2 (by decide +kernel)⟩

/-- A description with the end marker closes the catalogue early. -/
theorem generate_not_isSection :
    Config.standard.validate = .ok () ∧ Scan.isComponentName "Card".toList = true ∧
      ¬ IsSection Config.standard.target (generate Config.standard [⟨[], [], "Card".toList,
        "/** Ends at ".toList ++ Config.standard.target.endMarker ++
          " */\ninterface CardProps { title: string }".toList⟩]).text := by
  decide +kernel

end Catalog

end PropCatalog
