import PropCatalog.Proofs.Catalog.Templates
import PropCatalog.Proofs.Document.Outline
import PropCatalog.Proofs.Template.Block
import PropCatalog.Proofs.Text.Classes

/-!
# The outline of a catalogue

A catalogue announces its structure: a second-level heading with the number of templates, and a
third-level heading for each of them, with every code block closed. That is the outline of its text
as long as the descriptions are plain lines. They are lines of comments, copied as they are, and one
that is a heading or a fence itself is the only thing that can spoil the outline
(`announced_take_iff`, `not_announced_heading`). The fenced examples never do: each opens and closes
a code block and holds one line that starts with a brace, whatever the outline was before.
-/

namespace PropCatalog

open Document (Outline IsPlain)

/-! ## Blocks -/

namespace Template

variable {style : BlockStyle} {template : Template} {component : Text} {o : Outline}

theorem isPlain_render (h : template.IsOf component) : IsPlain template.payload.render := by
  obtain ⟨fields, hpayload⟩ := h.payload_eq
  rw [hpayload, Example.render, List.cons_append]
  refine Document.isPlain_of_head (by decide) ?_
  rw [← List.cons_append, List.getLast?_concat]
  decide

theorem goOn_example (h : template.IsOf component) (hlanguage : '\n' ∉ style.fenceLanguage)
    (o : Outline) (s : Text) :
    o.goOn (openingFence style ++ (template.payload.render ++ '\n' :: (fence ++ '\n' :: s))) =
      o.goOn s := by
  have hopen : '\n' ∉ fence ++ style.fenceLanguage := by
    rw [List.mem_append, not_or]
    exact ⟨by decide, hlanguage⟩
  have hopens : Document.isFence (fence ++ style.fenceLanguage) = true :=
    Document.isFence_backticks _
  have hcloses : Document.isFence fence = true := Document.isFence_backticks _
  have htext : openingFence style ++ (template.payload.render ++ '\n' :: (fence ++ '\n' :: s)) =
      '\n' :: ((fence ++ style.fenceLanguage) ++ '\n' ::
        (template.payload.render ++ '\n' :: (fence ++ '\n' :: s))) := by
    simp only [openingFence, List.append_assoc, List.cons_append, List.nil_append]
  rw [htext, Outline.goOn_newline, Outline.goOn_line hopen,
    Outline.goOn_line (newline_notMem_render _), Outline.goOn_line (by decide),
    Outline.step_of_isFence hopens, Outline.step_of_isPlain (isPlain_render h),
    Outline.step_of_isFence hcloses, Bool.not_not]

/-- The outline after the description of a block, if it is shown. -/
def afterDescription (style : BlockStyle) (template : Template) (o : Outline) : Outline :=
  match template.shownDescription style with
  | some description => o.step description
  | none => o

theorem goOn_summaryLine (h : template.IsOf component) (o : Outline) (s : Text) :
    o.goOn (template.summaryLine style ++ s) = (template.afterDescription style o).goOn s := by
  have hsummary := isSummary_of_shown style h
  unfold summaryLine afterDescription
  cases hshown : template.shownDescription style with
  | none => rfl
  | some description =>
    have hline := Outline.goOn_line (hsummary description hshown).newline_notMem o s
    simpa only [List.append_assoc, List.singleton_append] using hline

/-- What a block does to an outline: it adds its heading, and then does what the line of its
description does. -/
theorem goOn_block (style : BlockStyle) (h : template.IsOf component) (hname : '\n' ∉ template.name)
    (hlast : (' ' :: template.name).getLast?.any Text.isBlank = false)
    (hlanguage : '\n' ∉ style.fenceLanguage) (hfenced : o.fenced = false) (s : Text) :
    o.goOn ('\n' :: (template.block style ++ s)) = (template.afterDescription style
      ⟨o.headings ++ [(3, Document.title 3 template.name)], false⟩).goOn s := by
  have htext : template.block style ++ s = Document.title 3 template.name ++ '\n' ::
      (template.summaryLine style ++ (openingFence style ++
        (template.payload.render ++ '\n' :: (fence ++ '\n' :: s)))) := by
    have hsharps : "### ".toList = List.replicate 3 '#' ++ [' '] := by decide
    rw [block_eq, hsharps, Document.title]
    simp only [List.append_assoc, List.cons_append, List.nil_append]
  rw [Outline.goOn_newline, htext, Outline.goOn_line (Document.newline_notMem_title hname),
    Outline.step_title hfenced (by decide) (by decide) hlast, goOn_summaryLine h,
    goOn_example h hlanguage]

/-- The description of a block is no heading and no fence. -/
def HasPlainDescription (style : BlockStyle) (template : Template) : Prop :=
  ∀ line ∈ template.shownDescription style, IsPlain line

theorem afterDescription_eq_self_iff (hfenced : o.fenced = false) :
    template.afterDescription style o = o ↔ template.HasPlainDescription style := by
  unfold afterDescription HasPlainDescription
  cases template.shownDescription style with
  | none => simp
  | some description => simpa using Outline.step_eq_self_iff hfenced

theorem hasPlainDescription_iff (h : template.IsOf component) :
    template.HasPlainDescription style ↔ ∀ line ∈ template.shownDescription style,
      Document.isFence line = false ∧ Document.headingLevel? line = none := by
  refine forall₂_congr fun line hline => ?_
  have htrim := (isSummary_of_shown style h line hline).trim_eq
  exact ⟨fun h => ⟨h.isFence_eq, htrim ▸ h.headingLevel?_eq⟩, fun h => ⟨h.1, htrim.symm ▸ h.2⟩⟩

end Template

/-! ## Catalogues -/

namespace Catalog

open Template (BlockStyle)

variable {config : Config} {files : List SourceFile} {o : Outline} {plain : List Template}

/-- The heading of a catalogue of `n` templates. -/
def countHeading (config : Config) (n : Nat) : Text :=
  Document.title 2 (config.output.heading ++ [' ', '('] ++ Nat.toDigits 10 n ++ [')'])

/-- The outline of the catalogue is the one it announces. -/
def Announced (config : Config) (files : List SourceFile) : Prop :=
  Outline.ofText (generate config files).text =
    ⟨(2, countHeading config (templates config files).length) ::
      (templates config files).map fun (file, _) => (3, Document.title 3 file.component), false⟩

instance : Decidable (Announced config files) :=
  inferInstanceAs (Decidable (Outline.ofText (generate config files).text = _))

/-- The markers are the standard ones, and nothing that a catalogue takes from its configuration
breaks a line. -/
structure IsLined (config : Config) : Prop where
  startMarker_eq : config.target.startMarker = Config.targetStandard.startMarker
  endMarker_eq : config.target.endMarker = Config.targetStandard.endMarker
  heading : '\n' ∉ config.output.heading
  fenceLanguage : '\n' ∉ config.output.fenceLanguage

/-- The name of a template is that of its component, and one line without a blank at its end. -/
def IsNamed (template : Template) : Prop :=
  template.IsOf template.name ∧ '\n' ∉ template.name ∧
    (' ' :: template.name).getLast?.any Text.isBlank = false

theorem goOn_blocks (hnamed : ∀ t ∈ plain, IsNamed t)
    (hplain : ∀ t ∈ plain, t.HasPlainDescription config.blockStyle)
    (hlanguage : '\n' ∉ config.output.fenceLanguage) (hfenced : o.fenced = false) (s : Text) :
    o.goOn ((plain.map (·.block config.blockStyle)).flatMap (fun block => '\n' :: block) ++ s) =
      Outline.goOn ⟨o.headings ++ plain.map (fun t => (3, Document.title 3 t.name)), false⟩ s := by
  induction plain generalizing o with
  | nil =>
    rw [List.map_nil, List.map_nil, List.append_nil, ← hfenced]
    rfl
  | cons template plain ih =>
    obtain ⟨hof, hname, hlast⟩ := hnamed template (by simp)
    have hself := (Template.afterDescription_eq_self_iff
      (o := ⟨o.headings ++ [(3, Document.title 3 template.name)], false⟩) rfl).2
      (hplain template (by simp))
    have hrest := ih (fun t ht => hnamed t (by simp [ht])) (fun t ht => hplain t (by simp [ht]))
      (o := ⟨o.headings ++ [(3, Document.title 3 template.name)], false⟩) rfl
    rw [List.map_cons, List.flatMap_cons, List.append_assoc, List.cons_append,
      Template.goOn_block config.blockStyle hof hname hlast hlanguage hfenced, hself,
      hrest, List.append_assoc]
    rfl

theorem ofText_assemble (hconfig : IsLined config) (hnamed : ∀ t ∈ plain, IsNamed t)
    (hplain : ∀ t ∈ plain, t.HasPlainDescription config.blockStyle) (rest : List Template) :
    Outline.ofText (assemble config ((plain ++ rest).map (·.block config.blockStyle))) =
      Outline.goOn ⟨(2, countHeading config (plain ++ rest).length) ::
          plain.map (fun t => (3, Document.title 3 t.name)), false⟩
        ((rest.map (·.block config.blockStyle)).flatMap (fun block => '\n' :: block) ++
          '\n' :: config.target.endMarker) := by
  have hmarker : IsPlain config.target.startMarker := by
    rw [hconfig.startMarker_eq]
    exact ⟨by decide, by decide⟩
  have hmarkerLine : '\n' ∉ config.target.startMarker := by
    rw [hconfig.startMarker_eq]
    decide
  have hdigits : '\n' ∉ Nat.toDigits 10 (plain ++ rest).length := fun hmem =>
    absurd (Nat.isDigit_of_mem_toDigits (by decide) (by decide) hmem) (by decide)
  have hcountLine : '\n' ∉ countHeading config (plain ++ rest).length := by
    refine Document.newline_notMem_title ?_
    simp only [List.mem_append, not_or]
    exact ⟨⟨⟨hconfig.heading, by decide⟩, hdigits⟩, by decide⟩
  have hcount : Outline.step ⟨[], false⟩ (countHeading config (plain ++ rest).length) =
      ⟨[(2, countHeading config (plain ++ rest).length)], false⟩ := by
    refine Outline.step_title rfl (by decide) (by decide) ?_
    rw [← List.cons_append, List.getLast?_concat]
    decide
  have htext : assemble config ((plain ++ rest).map (·.block config.blockStyle)) =
      config.target.startMarker ++ '\n' :: '\n' ::
        (countHeading config (plain ++ rest).length ++ '\n' ::
          ((plain.map (·.block config.blockStyle)).flatMap (fun block => '\n' :: block) ++
            ((rest.map (·.block config.blockStyle)).flatMap (fun block => '\n' :: block) ++
              '\n' :: config.target.endMarker))) := by
    have hlead : "\n\n## ".toList = '\n' :: '\n' :: List.replicate 2 '#' ++ [' '] := by decide
    have hopened : " (".toList = [' ', '('] := by decide
    have hclosed : ")\n".toList = [')', '\n'] := by decide
    unfold assemble countHeading Document.title
    rw [hlead, hopened, hclosed, List.map_append, List.flatMap_append]
    simp only [List.append_assoc, List.cons_append, List.nil_append, List.length_append,
      List.length_map]
  rw [htext, Outline.ofText, Outline.goOn_line hmarkerLine, Outline.step_of_isPlain hmarker,
    Outline.goOn_newline, Outline.goOn_line hcountLine, hcount,
    goOn_blocks hnamed hplain hconfig.fenceLanguage rfl]
  rfl

theorem goOn_endMarker (hconfig : IsLined config) (o : Outline) :
    o.goOn ('\n' :: config.target.endMarker) = o := by
  have hmarker : IsPlain Config.targetStandard.endMarker := ⟨by decide, by decide⟩
  rw [hconfig.endMarker_eq, Outline.goOn_newline, Outline.goOn_last (by decide) (by decide),
    Outline.step_of_isPlain hmarker]

theorem isNamed_of_mem_templates
    (hnames : ∀ file ∈ files, Scan.isComponentName file.component = true)
    {p : SourceFile × Template} (hp : p ∈ templates config files) :
    p.2.name = p.1.component ∧ IsNamed p.2 := by
  obtain ⟨hfile, hof⟩ := of_mem_templates hp
  have hname := hnames _ hfile
  refine ⟨hof.name_eq, ?_⟩
  rw [IsNamed, hof.name_eq]
  exact ⟨hof, notMem_of_isComponentName hname (by decide), not_blank_of_isComponentName hname⟩

theorem ofText_generate (hconfig : IsLined config)
    (hnames : ∀ file ∈ files, Scan.isComponentName file.component = true)
    {first last : List (SourceFile × Template)} (htemplates : templates config files = first ++ last)
    (hplain : ∀ p ∈ first, p.2.HasPlainDescription config.blockStyle) :
    Outline.ofText (generate config files).text =
      Outline.goOn ⟨(2, countHeading config (templates config files).length) ::
          first.map (fun (file, _) => (3, Document.title 3 file.component)), false⟩
        ((last.map fun (_, t) => t.block config.blockStyle).flatMap (fun block => '\n' :: block) ++
          '\n' :: config.target.endMarker) := by
  have hnamed : ∀ p ∈ first, p.2.name = p.1.component ∧ IsNamed p.2 := fun p hp =>
    isNamed_of_mem_templates hnames (htemplates ▸ List.mem_append_left _ hp)
  have houtline := ofText_assemble hconfig (List.forall_mem_map.2 fun p hp => (hnamed p hp).2)
    (List.forall_mem_map.2 hplain) (last.map Prod.snd)
  have htitles : (first.map Prod.snd).map (fun t => (3, Document.title 3 t.name)) =
      first.map (fun (file, _) => (3, Document.title 3 file.component)) := by
    rw [List.map_map]
    refine List.map_congr_left fun p hp => ?_
    simp only [Function.comp_apply, (hnamed p hp).1]
  rw [htitles, ← List.map_append, ← htemplates, List.length_map, List.map_map, List.map_map]
    at houtline
  exact houtline

theorem announced_of_plain (hconfig : IsLined config)
    (hnames : ∀ file ∈ files, Scan.isComponentName file.component = true)
    (hplain : ∀ p ∈ templates config files, p.2.HasPlainDescription config.blockStyle) :
    Announced config files := by
  have houtline := ofText_generate hconfig hnames (List.append_nil _).symm hplain
  rw [Announced, houtline]
  exact goOn_endMarker hconfig _

theorem plain_of_announced_concat (hconfig : IsLined config) {file : SourceFile}
    (hnames : ∀ file' ∈ files ++ [file], Scan.isComponentName file'.component = true)
    (hplain : ∀ p ∈ templates config files, p.2.HasPlainDescription config.blockStyle)
    (h : Announced config (files ++ [file])) :
    ∀ p ∈ templates config (files ++ [file]), p.2.HasPlainDescription config.blockStyle := by
  have htemplates := templates_append config files [file]
  cases hread : outcome config file with
  | error problem =>
    rw [htemplates, templates_cons_error hread]
    simpa [templates, readAll] using hplain
  | ok template =>
    rw [templates_cons_ok hread] at htemplates
    have hnil : templates config [] = [] := rfl
    rw [hnil] at htemplates
    have hmem : (file, template) ∈ templates config (files ++ [file]) := by
      simp [htemplates]
    obtain ⟨hname, hof, hline, hlast⟩ := isNamed_of_mem_templates hnames hmem
    have houtline := ofText_generate hconfig hnames htemplates hplain
    rw [h, List.map_singleton, List.flatMap_singleton, List.cons_append,
      Template.goOn_block config.blockStyle hof hline hlast hconfig.fenceLanguage rfl,
      goOn_endMarker hconfig, hname, htemplates, List.map_append] at houtline
    -- without its own lines the last description has to leave the outline as it is
    rw [htemplates, List.forall_mem_append, List.forall_mem_singleton]
    exact ⟨hplain, (Template.afterDescription_eq_self_iff rfl).1 houtline.symm⟩

theorem plain_of_announced_take (hconfig : IsLined config)
    (hnames : ∀ file ∈ files, Scan.isComponentName file.component = true)
    (h : ∀ n, Announced config (files.take n)) :
    ∀ p ∈ templates config files, p.2.HasPlainDescription config.blockStyle := by
  induction files using List.reverseRecOn with
  | nil => simp [templates, readAll]
  | append_singleton files file ih =>
    have hfirst : ∀ n, (files ++ [file]).take (min n files.length) = files.take n := by
      intro n
      rw [List.take_append_of_le_length (min_le_right _ _), List.take_eq_take_iff]
      simp
    have hall : (files ++ [file]).take (files.length + 1) = files ++ [file] := by
      simp
    -- one file after the other, since two descriptions could make up for each other
    refine plain_of_announced_concat hconfig hnames ?_ (hall ▸ h (files.length + 1))
    exact ih (fun file' hfile' => hnames file' (by simp [hfile']))
      fun n => hfirst n ▸ h (min n files.length)

/-- **When catalogues have the outline they announce.** The catalogues of the first files, however
many, have a heading with their number and one for each template, outside code blocks that are all
closed, if and only if no description that is shown is a heading or a fence. -/
theorem announced_take_iff (config : Config) (files : List SourceFile) (hconfig : IsLined config)
    (hnames : ∀ file ∈ files, Scan.isComponentName file.component = true) :
    (∀ n, Announced config (files.take n)) ↔
      ∀ p ∈ templates config files, ∀ line ∈ p.2.shownDescription config.blockStyle,
        Document.isFence line = false ∧ Document.headingLevel? line = none := by
  have hiff : ∀ p ∈ templates config files, (p.2.HasPlainDescription config.blockStyle ↔
      ∀ line ∈ p.2.shownDescription config.blockStyle,
        Document.isFence line = false ∧ Document.headingLevel? line = none) := fun p hp =>
    Template.hasPlainDescription_iff (of_mem_templates hp).2
  rw [← forall₂_congr hiff]
  refine ⟨plain_of_announced_take hconfig hnames, fun hplain n => ?_⟩
  refine announced_of_plain hconfig (fun file hfile => hnames file (List.mem_of_mem_take hfile)) ?_
  have happend := templates_append config (files.take n) (files.drop n)
  rw [List.take_append_drop] at happend
  exact fun p hp => hplain p (happend ▸ List.mem_append_left _ hp)

theorem announced_take_iff_plain :
    (IsLined Config.standard ∧ Scan.isComponentName "Card".toList = true) ∧
      ∀ n, Announced Config.standard (([⟨[], [], "Card".toList,
        "/** A card. */\ninterface CardProps { title: string }".toList⟩] :
          List SourceFile).take n) := by
  have hconfig : IsLined Config.standard := ⟨rfl, rfl, by decide, by decide⟩
  have hname : Scan.isComponentName "Card".toList = true := by decide
  refine ⟨⟨hconfig, hname⟩, ?_⟩
  rw [announced_take_iff Config.standard [⟨[], [], "Card".toList,
    "/** A card. */\ninterface CardProps { title: string }".toList⟩] hconfig (by simpa using hname)]
  decide +kernel

/-- A description that is a heading is one heading too many. -/
theorem not_announced_heading :
    Config.standard.validate = .ok () ∧ IsLined Config.standard ∧
      Scan.isComponentName "Card".toList = true ∧
      ¬ Announced Config.standard [⟨[], [], "Card".toList,
        "/** # Top */\ninterface CardProps { title: string }".toList⟩] :=
  ⟨by decide, ⟨rfl, rfl, by decide, by decide⟩, by decide, by decide +kernel⟩

end Catalog

end PropCatalog
