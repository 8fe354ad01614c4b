import PropCatalog.Config.Basic
import PropCatalog.Proofs.Text.Occurrence

/-!
# Runs of splices do not depend on their history

`spliceEach` puts one section after the other into a document. A section that keeps the form
`IsSection` is found again by the next step, in the place where the first step found its region, so
that the document after any step is the one that the section of that step alone would have given
(`spliceEach_history_independent`).

The argument is `locate_replace`: the text before the region of a document is one after which the
start marker occurs for the first time (`firstAfter_before`). For a region between markers this is
how it was found. A legacy section begins a line, and a start marker without a newline cannot reach
back over the end of the line before.
-/

namespace PropCatalog.Document

open Text (FirstAfter)

/-- A section between the markers of a target, closed by the first end marker after its start
marker. -/
def IsSection (target : Target) (newSection : Text) : Prop :=
  ∃ body, newSection = target.startMarker ++ body ++ target.endMarker ∧
    FirstAfter target.endMarker body

theorem isSection_iff {target : Target} {newSection : Text} : IsSection target newSection ↔
    ((Text.after? target.startMarker newSection).bind (Text.cut? target.endMarker)).map Prod.snd =
      some [] := by
  simp only [Option.map_eq_some_iff, Option.bind_eq_some_iff, Text.after?_eq_some_iff]
  constructor
  · rintro ⟨body, rfl, hbody⟩
    refine ⟨(body, []), ⟨body ++ target.endMarker, by simp, ?_⟩, rfl⟩
    simpa using Text.cut?_append hbody []
  · rintro ⟨⟨body, -⟩, ⟨rest, rfl, hcut⟩, rfl⟩
    refine ⟨body, ?_, Text.firstAfter_of_cut? hcut⟩
    simp [Text.cut?_eq_some hcut]

instance (target : Target) (newSection : Text) : Decidable (IsSection target newSection) :=
  decidable_of_iff _ isSection_iff.symm

/-! ## Runs -/

/-- What one step of a run has given. -/
structure SpliceStep where
  /-- The outcome of the step. -/
  outcome : Except RegionProblem Splice
  /-- The document that the step leaves. -/
  document : Text

/-- Puts each section into the document left by the step before; a step that fails leaves the
document as it is. -/
def spliceEach (target : Target) (document : Text) : List Text → List SpliceStep
  | [] => []
  | newSection :: rest =>
    match splice target document newSection with
    | .ok result => ⟨.ok result, result.content⟩ :: spliceEach target result.content rest
    | .error problem => ⟨.error problem, document⟩ :: spliceEach target document rest

theorem splice_of_locate {target : Target} {document : Text} {region : Region}
    (h : locate target document = .ok region) (newSection : Text) :
    splice target document newSection =
      .ok ⟨region.replace newSection, region, region.replace newSection ≠ document⟩ := by
  rw [splice, h]
  rfl

theorem splice_of_locate_error {target : Target} {document : Text} {problem : RegionProblem}
    (h : locate target document = .error problem) (newSection : Text) :
    splice target document newSection = .error problem := by
  rw [splice, h]
  rfl

theorem spliceEach_cons_of_locate {target : Target} {document : Text} {region : Region}
    (h : locate target document = .ok region) (newSection : Text) (rest : List Text) :
    spliceEach target document (newSection :: rest) =
      ⟨.ok ⟨region.replace newSection, region, region.replace newSection ≠ document⟩,
        region.replace newSection⟩ :: spliceEach target (region.replace newSection) rest := by
  rw [spliceEach, splice_of_locate h]

theorem spliceEach_of_locate_error {target : Target} {document : Text} {problem : RegionProblem}
    (h : locate target document = .error problem) (sections : List Text) :
    spliceEach target document sections =
      List.replicate sections.length ⟨.error problem, document⟩ := by
  induction sections with
  | nil => rfl
  | cons newSection rest ih =>
    rw [spliceEach, splice_of_locate_error h, List.length_cons, List.replicate_succ, ← ih]

/-! ## The text before a region -/

theorem flatten_eq_concat_of_lines_eq {s line : Text} {above rest : List Text}
    (h : Text.lines s = above ++ line :: rest) (habove : above ≠ []) :
    ∃ before, above.flatten = before ++ ['\n'] := by
  induction s generalizing above with
  | nil => simp [Text.lines] at h
  | cons c s ih =>
    obtain ⟨top, above, rfl⟩ := List.exists_cons_of_ne_nil habove
    rw [Text.lines] at h
    split at h
    · next hc =>
      obtain ⟨rfl, hlines⟩ := List.cons.inj h
      rcases eq_or_ne above [] with rfl | hne
      · exact ⟨[], by simp [hc]⟩
      · obtain ⟨before, hbefore⟩ := ih hlines hne
        exact ⟨c :: before, by simp [hbefore]⟩
    · cases hs : Text.lines s with
      | nil => simp [hs, Text.consFirst] at h
      | cons piece pieces =>
        rw [hs, Text.consFirst] at h
        obtain ⟨rfl, rfl⟩ := List.cons.inj h
        obtain ⟨before, hbefore⟩ := ih (List.cons_append ▸ hs) (List.cons_ne_nil piece above)
        exact ⟨c :: before, by simpa using hbefore⟩

theorem before_section? {heading document before inside after : Text}
    (h : section? heading document = some (before, inside, after)) :
    before = [] ∨ ∃ lead, before = lead ++ ['\n'] := by
  simp only [section?, Option.bind_eq_bind, Option.bind_eq_some_iff] at h
  obtain ⟨level, -, ⟨above, below⟩, hcut, h⟩ := h
  cases below with
  | nil => simp at h
  | cons first below =>
    simp only [Option.pure_def, Option.some.injEq, Prod.mk.injEq] at h
    obtain ⟨rfl, -, -⟩ := h
    rcases eq_or_ne above [] with rfl | hne
    · exact Or.inl rfl
    · exact Or.inr (flatten_eq_concat_of_lines_eq (cutAtLine?_eq_some hcut) hne)

theorem firstAfter_before {target : Target} {document : Text} {region : Region}
    (hmarker : '\n' ∉ target.startMarker) (h : locate target document = .ok region) :
    FirstAfter target.startMarker region.before := by
  have hdocument := locate_eq_ok h
  unfold locate at h
  split at h
  · next before rest hstart =>
    split at h
    · cases h
      exact Text.firstAfter_of_cut? hstart
    · cases h
  · next hstart =>
    have hnone := Text.cut?_eq_none_iff.1 hstart
    split at h
    · cases h
    · split at h
      · next before inside after hsection =>
        cases h
        rcases before_section? hsection with rfl | ⟨lead, rfl⟩
        · exact FirstAfter.nil _
        · refine (Text.firstAfter_concat_iff hmarker).2 fun hlead => hnone ?_
          rw [hdocument]
          exact hlead.trans ⟨[], ['\n'] ++ inside ++ after, by simp⟩
      · cases h

/-! ## Finding a section again -/

/-- The region that a section takes up after it was put in the place of another region. -/
def Region.retaken (region : Region) (newSection : Text) : Region where
  kind := .markers
  before := region.before
  inside := newSection
  after := region.separator ++ region.after

theorem Region.replace_retaken (region : Region) (previous newSection : Text) :
    (region.retaken previous).replace newSection = region.replace newSection := by
  simp [Region.replace, Region.retaken, Region.separator]

/-- A section is found again in the document that it was put into. -/
theorem locate_replace {target : Target} {document newSection : Text} {region : Region}
    (hmarker : '\n' ∉ target.startMarker) (h : locate target document = .ok region)
    (hsection : IsSection target newSection) :
    locate target (region.replace newSection) = .ok (region.retaken newSection) := by
  obtain ⟨body, rfl, hbody⟩ := hsection
  have hstart : Text.cut? target.startMarker
      (region.replace (target.startMarker ++ body ++ target.endMarker)) =
        some (region.before, body ++ target.endMarker ++ (region.separator ++ region.after)) := by
    rw [← Text.cut?_append (firstAfter_before hmarker h)]
    simp [Region.replace]
  have hend := Text.cut?_append hbody (region.separator ++ region.after)
  simp only [locate, hstart, hend]
  rfl

theorem spliceEach_replace {target : Target} {document previous : Text} {region : Region}
    (hmarker : '\n' ∉ target.startMarker) (h : locate target document = .ok region)
    {sections : List Text} (hsections : ∀ s ∈ previous :: sections, IsSection target s)
    {i : Nat} {found newSection : Text} (hfound : (previous :: sections)[i]? = some found)
    (hnew : sections[i]? = some newSection) :
    (spliceEach target (region.replace previous) sections)[i]? =
      some ⟨.ok ⟨region.replace newSection, region.retaken found,
        region.replace newSection ≠ region.replace found⟩, region.replace newSection⟩ := by
  induction sections generalizing previous i with
  | nil => simp at hnew
  | cons top sections ih =>
    -- the section of the step before is found again, and what is around it is the same
    have hretaken := locate_replace hmarker h (hsections previous (by simp))
    rw [spliceEach_cons_of_locate hretaken, Region.replace_retaken]
    cases i with
    | zero =>
      simp only [List.getElem?_cons_zero, Option.some.injEq] at hfound hnew ⊢
      subst hfound hnew
      rfl
    | succ i =>
      simp only [List.getElem?_cons_succ] at hfound hnew ⊢
      exact ih (fun s hs => hsections s (by simp [hs])) hfound hnew

theorem spliceEach_of_locate {target : Target} {document : Text} {region : Region}
    (hmarker : '\n' ∉ target.startMarker) (h : locate target document = .ok region)
    {sections : List Text} (hsections : ∀ s ∈ sections, IsSection target s)
    {i : Nat} {newSection : Text} (hnew : sections[i]? = some newSection) :
    ∃ result : Splice,
      (spliceEach target document sections)[i]? = some ⟨.ok result, result.content⟩ ∧
      result.content = region.replace newSection ∧ (i = 0 → result.region = region) ∧
      ∀ j previous, i = j + 1 → sections[j]? = some previous →
        result.region = region.retaken previous ∧
          (result.changed = true ↔ region.replace newSection ≠ region.replace previous) := by
  cases sections with
  | nil => simp at hnew
  | cons top sections =>
    rw [spliceEach_cons_of_locate h]
    cases i with
    | zero =>
      simp only [List.getElem?_cons_zero, Option.some.injEq] at hnew
      subst hnew
      exact ⟨_, rfl, rfl, fun _ => rfl, fun j _ hj => absurd hj (by omega)⟩
    | succ i =>
      rw [List.getElem?_cons_succ] at hnew ⊢
      obtain ⟨found, hfound⟩ : ∃ found, (top :: sections)[i]? = some found := by
        have hi := (List.getElem?_eq_some_iff.1 hnew).1
        exact ⟨_, List.getElem?_eq_getElem (by simp only [List.length_cons]; omega)⟩
      refine ⟨_, spliceEach_replace hmarker h hsections hfound hnew, rfl, fun hi => by omega, ?_⟩
      intro j previous hj hprevious
      obtain rfl : i = j := by omega
      obtain rfl : found = previous := Option.some.inj (hfound.symm.trans hprevious)
      exact ⟨rfl, by simp⟩

theorem length_spliceEach (target : Target) (document : Text) (sections : List Text) :
    (spliceEach target document sections).length = sections.length := by
  induction sections generalizing document with
  | nil => rfl
  | cons newSection rest ih =>
    rw [spliceEach]
    split <;> simp [ih]

/-- **Runs of splices do not depend on their history.** Either every step fails for the same reason
and the document stays, or every step succeeds and leaves the document that its section alone would
have given. Each step after the first finds the section of the step before, where the first step
found its region; the same section again changes nothing. -/
theorem spliceEach_history_independent (target : Target) (document : Text) (sections : List Text)
    (hmarker : '\n' ∉ target.startMarker) (hsections : ∀ s ∈ sections, IsSection target s) :
    (∃ problem, spliceEach target document sections =
      List.replicate sections.length ⟨.error problem, document⟩) ∨
    ((∀ (i : Nat) newSection, sections[i]? = some newSection → ∃ result alone : Splice,
        (spliceEach target document sections)[i]? = some ⟨.ok result, result.content⟩ ∧
        splice target document newSection = .ok alone ∧ result.content = alone.content) ∧
      (∀ (i : Nat) previous newSection first before result,
        sections[i]? = some previous → sections[i + 1]? = some newSection →
        (spliceEach target document sections)[0]?.map (·.outcome) = some (.ok first) →
        (spliceEach target document sections)[i]?.map (·.document) = some before →
        (spliceEach target document sections)[i + 1]?.map (·.outcome) = some (.ok result) →
        result.region.kind = .markers ∧ result.region.start = first.region.start ∧
          result.region.inside = previous ∧
          (newSection = previous → result.changed = false ∧ result.content = before)) ∧
      (∀ last, sections.getLast? = some last → ∃ alone, splice target document last = .ok alone ∧
        (spliceEach target document sections).getLast?.map (·.document) = some alone.content)) := by
  cases h : locate target document with
  | error problem => exact Or.inl ⟨problem, spliceEach_of_locate_error h sections⟩
  | ok region =>
    have hstep := fun (i : Nat) (newSection : Text) (hnew : sections[i]? = some newSection) =>
      spliceEach_of_locate hmarker h hsections hnew
    refine Or.inr ⟨?_, ?_, ?_⟩
    · intro i newSection hnew
      obtain ⟨result, hresult, hcontent, -⟩ := hstep i newSection hnew
      exact ⟨result, _, hresult, splice_of_locate h newSection, hcontent⟩
    · intro i previous newSection first before result hprevious hnew hfirst hbefore hresult
      obtain ⟨start, hstart⟩ : ∃ start, sections[0]? = some start := by
        have hi := (List.getElem?_eq_some_iff.1 hnew).1
        exact ⟨_, List.getElem?_eq_getElem (by omega)⟩
      -- the steps are those that the runs give: the first one, and the two that are compared
      obtain ⟨first', hfirst', -, hregion, -⟩ := hstep 0 start hstart
      obtain ⟨earlier, hearlier, hdocument, -⟩ := hstep i previous hprevious
      obtain ⟨result', hresult', hcontent, -, hretaken⟩ := hstep (i + 1) newSection hnew
      simp only [hfirst', Option.map_some, Option.some.injEq, Except.ok.injEq] at hfirst
      simp only [hearlier, Option.map_some, Option.some.injEq] at hbefore
      simp only [hresult', Option.map_some, Option.some.injEq, Except.ok.injEq] at hresult
      subst hfirst hbefore hresult
      obtain ⟨hfound, hchanged⟩ := hretaken i previous rfl hprevious
      refine ⟨by rw [hfound]; rfl, by rw [hfound, hregion rfl]; rfl, by rw [hfound]; rfl, ?_⟩
      rintro rfl
      exact ⟨by simpa using hchanged, by rw [hcontent, hdocument]⟩
    · intro last hlast
      rw [List.getLast?_eq_getElem?] at hlast
      obtain ⟨result, hresult, hcontent, -⟩ := hstep _ last hlast
      refine ⟨_, splice_of_locate h last, ?_⟩
      rw [List.getLast?_eq_getElem?, length_spliceEach, hresult]
      simp [hcontent]

theorem spliceEach_history_independent_legacy :
    ('\n' ∉ Config.targetStandard.startMarker ∧
      IsSection Config.targetStandard (Config.targetStandard.startMarker ++ "\na\n".toList ++
        Config.targetStandard.endMarker) ∧
      IsSection Config.targetStandard (Config.targetStandard.startMarker ++ "\nb\n".toList ++
        Config.targetStandard.endMarker)) ∧
    ∃ alone, splice Config.targetStandard "# A\n## Available Templates\nold\n# B".toList
        (Config.targetStandard.startMarker ++ "\nb\n".toList ++ Config.targetStandard.endMarker) =
          .ok alone ∧
      (spliceEach Config.targetStandard "# A\n## Available Templates\nold\n# B".toList
        [Config.targetStandard.startMarker ++ "\na\n".toList ++ Config.targetStandard.endMarker,
          Config.targetStandard.startMarker ++ "\nb\n".toList ++
            Config.targetStandard.endMarker]).getLast?.map (·.document) = some alone.content := by
  have hmarker : '\n' ∉ Config.targetStandard.startMarker := by decide
  have ha : IsSection Config.targetStandard (Config.targetStandard.startMarker ++
      "\na\n".toList ++ Config.targetStandard.endMarker) := by decide
  have hb : IsSection Config.targetStandard (Config.targetStandard.startMarker ++
      "\nb\n".toList ++ Config.targetStandard.endMarker) := by decide
  refine ⟨⟨hmarker, ha, hb⟩, ?_⟩
  rcases spliceEach_history_independent Config.targetStandard
    "# A\n## Available Templates\nold\n# B".toList [_, _] hmarker
    (by simpa using And.intro ha hb) with ⟨problem, hfail⟩ | ⟨-, -, hlast⟩
  · have hok : [true, true] = [false, false] :=
      congrArg (List.map fun step : SpliceStep => step.outcome.isOk) hfail
    exact absurd hok (by decide)
  · exact hlast _ rfl

end PropCatalog.Document
