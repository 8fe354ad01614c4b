import PropCatalog.Proofs.Catalog.Templates
import PropCatalog.Proofs.Template.Block

/-!
# Reading a catalogue back

Nothing that a catalogue shows is lost in its text: `decode?` takes the number in the heading and
the entries of the templates back out of it and needs the configuration for that, but not the files
(`decode?_generate`). The number tells how many blocks follow, so that the reader never has to tell
a block from what looks like one.
-/

namespace PropCatalog.Catalog

open Template (Entry BlockStyle)

variable {config : Config} {style : BlockStyle}

/-! ## The reader -/

/-- What precedes the number of templates. -/
def opening (config : Config) : Text :=
  config.target.startMarker ++ "\n\n## ".toList ++ config.output.heading ++ " (".toList

/-- Reads a number of blocks off the front of a text. -/
def entries? (style : BlockStyle) : Nat → Text → Option (List Entry × Text)
  | 0, s => some ([], s)
  | n + 1, s => do
    let (entry, s) ← Template.readBlock? style s
    let (entries, s) ← entries? style n s
    return (entry :: entries, s)

/-- Reads the number of templates and their entries from a catalogue. -/
def decode? (config : Config) (s : Text) : Option (Nat × List Entry) := do
  let s ← Text.after? (opening config) s
  let count := Nat.ofDigitChars 10 (s.takeWhile Char.isDigit) 0
  let s ← Text.after? ")\n".toList (s.dropWhile Char.isDigit)
  let (entries, s) ← entries? config.blockStyle count s
  if s = '\n' :: config.target.endMarker then some (count, entries) else none

/-! ## Its parts -/

theorem ofDigitChars_span (n : Nat) {s : Text} (hs : s.head?.any Char.isDigit = false) :
    Nat.ofDigitChars 10 ((Nat.toDigits 10 n ++ s).takeWhile Char.isDigit) 0 = n ∧
      (Nat.toDigits 10 n ++ s).dropWhile Char.isDigit = s := by
  have hdigits : ∀ c ∈ Nat.toDigits 10 n, c.isDigit = true := fun c hc =>
    Nat.isDigit_of_mem_toDigits (by decide) (by decide) hc
  obtain ⟨htake, hdrop⟩ := Text.span_append hdigits hs
  exact ⟨by rw [htake, Nat.ofDigitChars_toDigits (by decide) (by decide)], hdrop⟩

theorem entries?_append {templates : List Template}
    (h : ∀ t ∈ templates, t.IsOf t.name ∧ '\n' ∉ t.name) (s : Text) :
    entries? style templates.length
        ((templates.map (·.block style)).flatMap (fun block => '\n' :: block) ++ s) =
      some (templates.map (·.entry style), s) := by
  induction templates with
  | nil => rfl
  | cons template templates ih =>
    obtain ⟨hof, hname⟩ := h template (by simp)
    have hrest := ih fun t ht => h t (by simp [ht])
    simp only [List.map_cons, List.flatMap_cons, List.cons_append, List.append_assoc,
      List.length_cons, entries?, Template.readBlock?_block hof hname, hrest, Option.bind_eq_bind,
      Option.bind_some, Option.pure_def]

/-! ## The catalogue -/

theorem assemble_eq_opening (config : Config) (blocks : List Text) :
    assemble config blocks = opening config ++ (Nat.toDigits 10 blocks.length ++
      (")\n".toList ++ (blocks.flatMap (fun block => '\n' :: block) ++
        '\n' :: config.target.endMarker))) := by
  unfold assemble opening
  simp only [List.append_assoc]

theorem decode?_assemble (config : Config) {templates : List Template}
    (h : ∀ t ∈ templates, t.IsOf t.name ∧ '\n' ∉ t.name) :
    decode? config (assemble config (templates.map (·.block config.blockStyle))) =
      some (templates.length, templates.map (·.entry config.blockStyle)) := by
  rw [assemble_eq_opening, List.length_map, decode?, Text.after?_append]
  obtain ⟨hcount, hrest⟩ := ofDigitChars_span templates.length
    (s := ")\n".toList ++ ((templates.map (·.block config.blockStyle)).flatMap
      (fun block => '\n' :: block) ++ '\n' :: config.target.endMarker)) rfl
  simp only [Option.bind_eq_bind, Option.bind_some, hcount, hrest, Text.after?_append,
    entries?_append h, if_pos]

/-- **A catalogue is complete and can be read back.** The files that have a template are listed and
the others are left out with the reason, both in their order. The text of the catalogue gives the
number of the templates and what is shown of each, in the order of the files, to a reader who knows
the configuration only, whatever the descriptions and the payloads are. -/
theorem decode?_generate (config : Config) (files : List SourceFile)
    (hnames : ∀ file ∈ files, Scan.isComponentName file.component = true) :
    List.Forall₂ (fun file p => p.1 = file ∧ outcome config file = .ok p.2)
        (files.filter (hasTemplate config)) (templates config files) ∧
      List.Forall₂ (fun file s => ∃ problem, outcome config file = .error problem ∧
          s = ⟨file.path, problem⟩)
        (files.filter fun file => !hasTemplate config file) (generate config files).skipped ∧
      (generate config files).listed = (templates config files).map (fun (file, t) =>
        ⟨file.component, file.path, t.properties.length⟩) ∧
      decode? config (generate config files).text =
        some ((generate config files).listed.length, (templates config files).map
          fun (file, t) => ⟨file.component, t.shownDescription config.blockStyle,
            t.payload.shown⟩) := by
  have hname : ∀ p ∈ templates config files, p.2.name = p.1.component := fun p hp =>
    (of_mem_templates hp).2.name_eq
  refine ⟨forall₂_templates config files, forall₂_skipped config files, ?_, ?_⟩
  · refine List.map_congr_left fun p hp => ?_
    dsimp only
    rw [hname p hp]
  · have hread : ∀ t ∈ (templates config files).map Prod.snd, t.IsOf t.name ∧ '\n' ∉ t.name := by
      intro t ht
      obtain ⟨⟨file, t⟩, hp, rfl⟩ := List.mem_map.1 ht
      obtain ⟨hfile, hof⟩ := of_mem_templates hp
      dsimp only
      rw [hof.name_eq]
      exact ⟨hof, notMem_of_isComponentName (hnames file hfile) (by decide)⟩
    have hdecode := decode?_assemble config hread
    rw [List.map_map, List.map_map, List.length_map] at hdecode
    refine hdecode.trans ?_
    have hentries : (templates config files).map ((·.entry config.blockStyle) ∘ Prod.snd) =
        (templates config files).map fun (file, t) => ⟨file.component,
          t.shownDescription config.blockStyle, t.payload.shown⟩ := by
      refine List.map_congr_left fun p hp => ?_
      dsimp only [Function.comp_apply, Template.entry]
      rw [hname p hp]
    rw [hentries, generate, List.length_map]

theorem decode?_generate_blocklike :
    (∀ file ∈ ([⟨[], [], "Card".toList,
          "/** ### Other */\ninterface CardProps { title: string }".toList⟩,
        ⟨[], [], "Other".toList, []⟩] : List SourceFile),
      Scan.isComponentName file.component = true) ∧
    decode? Config.standard (generate Config.standard [⟨[], [], "Card".toList,
          "/** ### Other */\ninterface CardProps { title: string }".toList⟩,
        ⟨[], [], "Other".toList, []⟩]).text =
      some (1, (templates Config.standard [⟨[], [], "Card".toList,
            "/** ### Other */\ninterface CardProps { title: string }".toList⟩,
          ⟨[], [], "Other".toList, []⟩]).map fun (file, t) =>
        ⟨file.component, some "### Other".toList, t.payload.shown⟩) := by
  generalize hcard : (⟨[], [], "Card".toList,
    "/** ### Other */\ninterface CardProps { title: string }".toList⟩ : SourceFile) = card
  generalize hother : (⟨[], [], "Other".toList, []⟩ : SourceFile) = other
  have hnames : ∀ file ∈ [card, other], Scan.isComponentName file.component = true := by
    subst hcard hother
    decide
  have hlisted : (generate Config.standard [card, other]).listed.length = 1 := by
    subst hcard hother
    decide +kernel
  have hshown : ∀ p ∈ templates Config.standard [card, other],
      p.2.shownDescription Config.standard.blockStyle = some "### Other".toList := by
    subst hcard hother
    decide +kernel
  refine ⟨hnames, ?_⟩
  obtain ⟨-, -, -, hdecode⟩ := decode?_generate Config.standard [card, other] hnames
  rw [hdecode, hlisted]
  congr 2
  refine List.map_congr_left fun p hp => ?_
  dsimp only
  rw [hshown p hp]

end PropCatalog.Catalog
