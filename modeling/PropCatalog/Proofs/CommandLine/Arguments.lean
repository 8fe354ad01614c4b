import PropCatalog.CommandLine.Arguments
import Mathlib.Data.List.Basic

/-!
# The arguments of a check and of an update

`check` takes the options that choose sources and document, and `generate` takes these and two
more. So `check` takes the arguments that `generate` takes without the two others, and both make the
same of them (`read_check_iff`), also with a dry run asked for before or after them
(`read_dryRun_of_check`).

From `check` to `generate`, what is read is carried along with options that were given before
(`Carried`): an option in common is found in the longer list too, and the ones given before do not
stand in its way. From `generate` to `check`, what has once been given stays given
(`suffix_of_addAll`), so that neither of the two others was ever read if none is there in the end.
-/

namespace PropCatalog.CommandLine

/-- The options of `generate`. -/
abbrev generateOptionNames : List OptionName :=
  .watch :: .dryRun :: sourceOptionNames

theorem find?_generateOptionNames {p : OptionName → Bool} {o : OptionName}
    (hwatch : p .watch = true → ∀ o ∈ sourceOptionNames, p o = false)
    (hdry : p .dryRun = true → ∀ o ∈ sourceOptionNames, p o = false)
    (h : sourceOptionNames.find? p = some o) : generateOptionNames.find? p = some o := by
  have hmem := List.mem_of_find?_eq_some h
  have ho := List.find?_some h
  have hnot : ∀ other, (p other = true → ∀ o ∈ sourceOptionNames, p o = false) →
      ¬ p other = true := by
    intro other hother hp
    rw [hother hp o hmem] at ho
    cases ho
  rw [generateOptionNames, List.find?_cons_of_neg (hnot _ hwatch),
    List.find?_cons_of_neg (hnot _ hdry), h]

namespace Given

/-- The options in common are the only ones given. -/
def OnlySource (given : Given) : Prop :=
  ∀ entry ∈ given, entry.1 ∈ sourceOptionNames

/-- None of the options in common is given. -/
def NoSource (extra : Given) : Prop :=
  ∀ entry ∈ extra, entry.1 ∉ sourceOptionNames

variable {given extra result : Given} {o : OptionName} {waiting : Option OptionName}

theorem NoSource.lookup_eq_none (hextra : NoSource extra) (ho : o ∈ sourceOptionNames) :
    extra.lookup o = none := by
  rw [List.lookup_eq_none_iff]
  intro entry hentry
  have hne : o ≠ entry.1 := ne_of_mem_of_not_mem ho (hextra entry hentry)
  simpa using hne

theorem NoSource.lookup_append (hextra : NoSource extra) (ho : o ∈ sourceOptionNames) :
    (given ++ extra).lookup o = given.lookup o := by
  rw [List.lookup_append, hextra.lookup_eq_none ho, Option.or_none]

theorem OnlySource.lookup_eq_none (hgiven : OnlySource given) (ho : o ∉ sourceOptionNames) :
    given.lookup o = none := by
  rw [List.lookup_eq_none_iff]
  intro entry hentry
  have hne : o ≠ entry.1 := (ne_of_mem_of_not_mem (hgiven entry hentry) ho).symm
  simpa using hne

/-! ## One argument -/

theorem add_append (hextra : NoSource extra) (ho : o ∈ sourceOptionNames) {value : Text}
    (hgiven : OnlySource given) (h : given.add o value = .ok result) :
    OnlySource result ∧ (given ++ extra).add o value = .ok (result ++ extra) := by
  unfold add at h ⊢
  rw [hextra.lookup_append ho]
  split at h
  · cases h
  next hhelp =>
  split at h
  · cases h
  next hversion =>
  split at h
  · cases h
  next haccepts =>
  split at h
  · cases h
  next htwice =>
  obtain rfl := Except.ok.inj h
  refine ⟨?_, ?_⟩
  · intro entry hentry
    rcases List.mem_cons.1 hentry with rfl | hentry
    · exact ho
    · exact hgiven entry hentry
  · rw [if_neg hhelp, if_neg hversion, if_neg haccepts, if_neg htwice]
    rfl

/-- What is read of an argument among the options in common is read of it among all, with some other
options given before. -/
structure Carried (extra : Given) (read : Except Stop (Given × Option OptionName))
    (result : Given) (waiting : Option OptionName) : Prop where
  onlySource : OnlySource result
  waits : ∀ o, waiting = some o → o ∈ sourceOptionNames
  read_eq : read = .ok (result ++ extra, waiting)

theorem add_carried (hextra : NoSource extra) (ho : o ∈ sourceOptionNames) {value : Text}
    (hgiven : OnlySource given)
    (h : (given.add o value).map (fun given => (given, none)) = .ok (result, waiting)) :
    Carried extra (((given ++ extra).add o value).map fun given => (given, none)) result
      waiting := by
  cases hadd : given.add o value with
  | error stop =>
    rw [hadd] at h
    cases h
  | ok added =>
    rw [hadd] at h
    obtain ⟨rfl, rfl⟩ := Prod.mk.inj (Except.ok.inj h)
    obtain ⟨honly, hadded⟩ := add_append hextra ho hgiven hadd
    exact ⟨honly, by simp, by rw [hadded]; rfl⟩

theorem addLetters_carried (hextra : NoSource extra) {s : Text} (hgiven : OnlySource given)
    (h : addLetters sourceOptionNames given s = .ok (result, waiting)) :
    Carried extra (addLetters generateOptionNames (given ++ extra) s) result waiting := by
  induction s generalizing given with
  | nil =>
    obtain ⟨rfl, rfl⟩ := Prod.mk.inj (Except.ok.inj h)
    exact ⟨hgiven, by simp, rfl⟩
  | cons c s ih =>
    rw [addLetters] at h ⊢
    split at h
    · cases h
    next o hfind =>
    have ho := List.mem_of_find?_eq_some hfind
    -- the options that only the longer list has do not have this letter
    have hfound : generateOptionNames.find? (fun o => o.letter? = some c) = some o := by
      refine find?_generateOptionNames (fun hc => ?_) (fun hc => ?_) hfind
      · obtain rfl : 'w' = c := by simpa [OptionName.letter?] using hc
        decide
      · simp [OptionName.letter?] at hc
    rw [hfound]
    split at h
    next htakes =>
      simp only [htakes, if_true]
      split at h
      next hend =>
        obtain ⟨rfl, rfl⟩ := Prod.mk.inj (Except.ok.inj h)
        rw [if_pos hend]
        exact ⟨hgiven, fun o' ho' => Option.some.inj ho' ▸ ho, rfl⟩
      next hend =>
        rw [if_neg hend]
        exact add_carried hextra ho hgiven h
    next htakes =>
      simp only [htakes]
      split at h
      · cases h
      next added hadd =>
      obtain ⟨honly, hadded⟩ := add_append hextra ho hgiven hadd
      rw [hadded]
      exact ih honly h

/-- Reads a long name with the value that is attached to it, if there is one. -/
def addNamed (options : List OptionName) (given : Given) (name : Text) (value? : Option Text) :
    Except Stop (Given × Option OptionName) :=
  match options.find? (fun o => o.long = name), value? with
  | none, _ => .error .usage
  | some o, some value =>
    if o.takesValue then (given.add o value).map fun given => (given, none) else .error .usage
  | some o, none =>
    if o.takesValue then .ok (given, some o) else (given.add o []).map fun given => (given, none)

theorem addLong_eq (options : List OptionName) (given : Given) (s : Text) :
    addLong options given s =
      match Text.cut? ['='] s with
      | some (name, value) => addNamed options given name (some value)
      | none => addNamed options given s none := by
  unfold addLong
  cases Text.cut? ['='] s <;> rfl

theorem addNamed_carried (hextra : NoSource extra) {name : Text} {value? : Option Text}
    (hgiven : OnlySource given)
    (h : addNamed sourceOptionNames given name value? = .ok (result, waiting)) :
    Carried extra (addNamed generateOptionNames (given ++ extra) name value?) result waiting := by
  unfold addNamed at h ⊢
  cases hfind : sourceOptionNames.find? (fun o => o.long = name) with
  | none =>
    rw [hfind] at h
    cases h
  | some o =>
    have ho := List.mem_of_find?_eq_some hfind
    have hfound : generateOptionNames.find? (fun o => o.long = name) = some o := by
      refine find?_generateOptionNames (fun hlong => ?_) (fun hlong => ?_) hfind
      · obtain rfl : OptionName.watch.long = name := by simpa using hlong
        decide
      · obtain rfl : OptionName.dryRun.long = name := by simpa using hlong
        decide
    rw [hfind] at h
    rw [hfound]
    cases value? with
    | some value =>
      by_cases htakes : o.takesValue = true
      · simp only [htakes, if_true] at h ⊢
        exact add_carried hextra ho hgiven h
      · simp [htakes] at h
    | none =>
      by_cases htakes : o.takesValue = true
      · simp only [htakes, if_true] at h ⊢
        obtain ⟨rfl, rfl⟩ := Prod.mk.inj (Except.ok.inj h)
        exact ⟨hgiven, fun o' ho' => Option.some.inj ho' ▸ ho, rfl⟩
      · simp only [htakes] at h ⊢
        exact add_carried hextra ho hgiven h

theorem addArgument_carried (hextra : NoSource extra) {arg : Text} (hgiven : OnlySource given)
    (h : addArgument sourceOptionNames given arg = .ok (result, waiting)) :
    Carried extra (addArgument generateOptionNames (given ++ extra) arg) result waiting := by
  unfold addArgument at h ⊢
  split at h
  · next s =>
    rw [addLong_eq] at h ⊢
    split at h
    · exact addNamed_carried hextra hgiven h
    · exact addNamed_carried hextra hgiven h
  · exact addLetters_carried hextra hgiven h

/-! ## All arguments -/

theorem addAll_append (hextra : NoSource extra) {args : List Text} (hgiven : OnlySource given)
    (hwaiting : ∀ o, waiting = some o → o ∈ sourceOptionNames)
    (h : addAll sourceOptionNames given waiting args = .ok result) :
    OnlySource result ∧
      addAll generateOptionNames (given ++ extra) waiting args = .ok (result ++ extra) := by
  induction args generalizing given waiting with
  | nil =>
    rw [addAll] at h ⊢
    split at h
    · cases h
    next hdone =>
      obtain rfl := Except.ok.inj h
      exact ⟨hgiven, by rw [if_neg hdone]⟩
  | cons arg rest ih =>
    cases waiting with
    | some o =>
      rw [addAll] at h ⊢
      split at h
      · cases h
      next harg =>
      rw [if_neg harg]
      split at h
      · cases h
      next added hadd =>
      obtain ⟨honly, hadded⟩ := add_append hextra (hwaiting o rfl) hgiven hadd
      rw [hadded]
      exact ih honly (by simp) h
    | none =>
      rw [addAll] at h ⊢
      split at h
      next hend =>
        rw [if_pos hend]
        split at h
        next hrest =>
          obtain rfl := Except.ok.inj h
          exact ⟨hgiven, by rw [if_pos hrest]⟩
        · cases h
      next hend =>
        rw [if_neg hend]
        split at h
        next harg =>
          rw [if_pos harg]
          split at h
          · cases h
          next added waiting hadd =>
          obtain ⟨honly, hwaits, hread⟩ := addArgument_carried hextra hgiven hadd
          rw [hread]
          exact ih honly hwaits h
        · cases h

/-! ## What stays given -/

theorem suffix_of_add {value : Text} (h : given.add o value = .ok result) : given <:+ result := by
  unfold add at h
  split at h
  · cases h
  split at h
  · cases h
  split at h
  · cases h
  split at h
  · cases h
  obtain rfl := Except.ok.inj h
  exact List.suffix_cons _ _

theorem suffix_of_map_add {value : Text}
    (h : (given.add o value).map (fun given => (given, none)) = .ok (result, waiting)) :
    given <:+ result := by
  cases hadd : given.add o value with
  | error stop =>
    rw [hadd] at h
    cases h
  | ok added =>
    rw [hadd] at h
    obtain ⟨rfl, -⟩ := Prod.mk.inj (Except.ok.inj h)
    exact suffix_of_add hadd

theorem suffix_of_addLetters {options : List OptionName} {s : Text}
    (h : addLetters options given s = .ok (result, waiting)) : given <:+ result := by
  induction s generalizing given with
  | nil =>
    obtain ⟨rfl, -⟩ := Prod.mk.inj (Except.ok.inj h)
    exact List.suffix_rfl
  | cons c s ih =>
    rw [addLetters] at h
    split at h
    · cases h
    split at h
    · split at h
      · obtain ⟨rfl, -⟩ := Prod.mk.inj (Except.ok.inj h)
        exact List.suffix_rfl
      · exact suffix_of_map_add h
    · split at h
      · cases h
      next added hadd => exact (suffix_of_add hadd).trans (ih h)

theorem suffix_of_addArgument {options : List OptionName} {arg : Text}
    (h : addArgument options given arg = .ok (result, waiting)) : given <:+ result := by
  have hnamed : ∀ name value?, addNamed options given name value? = .ok (result, waiting) →
      given <:+ result := by
    intro name value? h
    unfold addNamed at h
    split at h
    · cases h
    · split at h
      · exact suffix_of_map_add h
      · cases h
    · split at h
      · obtain ⟨rfl, -⟩ := Prod.mk.inj (Except.ok.inj h)
        exact List.suffix_rfl
      · exact suffix_of_map_add h
  unfold addArgument at h
  split at h
  · rw [addLong_eq] at h
    split at h
    · exact hnamed _ _ h
    · exact hnamed _ _ h
  · exact suffix_of_addLetters h

theorem suffix_of_addAll {options : List OptionName} {args : List Text}
    (h : addAll options given waiting args = .ok result) : given <:+ result := by
  induction args generalizing given waiting with
  | nil =>
    rw [addAll] at h
    split at h
    · cases h
    obtain rfl := Except.ok.inj h
    exact List.suffix_rfl
  | cons arg rest ih =>
    cases waiting with
    | some o =>
      rw [addAll] at h
      split at h
      · cases h
      split at h
      · cases h
      next added hadd => exact (suffix_of_add hadd).trans (ih h)
    | none =>
      rw [addAll] at h
      split at h
      · split at h
        · obtain rfl := Except.ok.inj h
          exact List.suffix_rfl
        · cases h
      · split at h
        · split at h
          · cases h
          next added waiting hadd => exact (suffix_of_addArgument hadd).trans (ih h)
        · cases h

/-! ## Back to the options in common -/

/-- Neither a watch nor a dry run is asked for. -/
def Plain (given : Given) : Prop :=
  ∀ entry ∈ given, entry.1 ≠ .watch ∧ entry.1 ≠ .dryRun

theorem plain_of_has (hwatch : given.has .watch = false) (hdry : given.has .dryRun = false) :
    Plain given := by
  rw [has, Option.isSome_eq_false_iff, Option.isNone_iff_eq_none, List.lookup_eq_none_iff]
    at hwatch hdry
  intro entry hentry
  have hw := hwatch entry hentry
  have hd := hdry entry hentry
  exact ⟨by simpa using Ne.symm (bne_iff_ne.1 hw), by simpa using Ne.symm (bne_iff_ne.1 hd)⟩

theorem Plain.of_suffix (hresult : Plain result) (h : given <:+ result) : Plain given :=
  fun entry hentry => hresult entry (h.subset hentry)

theorem find?_sourceOptionNames {p : OptionName → Bool} (ho : o ∈ sourceOptionNames)
    (h : generateOptionNames.find? p = some o) : sourceOptionNames.find? p = some o := by
  have hne : ∀ other, other ∉ sourceOptionNames → o ≠ other :=
    fun other hother => ne_of_mem_of_not_mem ho hother
  rw [generateOptionNames, List.find?_cons] at h
  split at h
  · exact absurd (Option.some.inj h).symm (hne .watch (by decide))
  rw [List.find?_cons] at h
  split at h
  · exact absurd (Option.some.inj h).symm (hne .dryRun (by decide))
  exact h

theorem takesValue_of_notMem {p : OptionName → Bool} (ho : o ∉ sourceOptionNames)
    (h : generateOptionNames.find? p = some o) : o.takesValue = false := by
  rcases List.mem_cons.1 (List.mem_of_find?_eq_some h) with rfl | hmem
  · rfl
  rcases List.mem_cons.1 hmem with rfl | hmem
  · rfl
  exact absurd hmem ho

theorem Plain.mem_of_add {p : OptionName → Bool} {value : Text} (hresult : Plain result)
    (hfind : generateOptionNames.find? p = some o) (h : given.add o value = .ok result) :
    o ∈ sourceOptionNames := by
  unfold add at h
  split at h
  · cases h
  split at h
  · cases h
  split at h
  · cases h
  split at h
  · cases h
  obtain rfl := Except.ok.inj h
  obtain ⟨hwatch, hdry⟩ := hresult _ List.mem_cons_self
  have hmem := List.mem_of_find?_eq_some hfind
  exact ((List.mem_cons.1 hmem).resolve_left hwatch |> List.mem_cons.1).resolve_left hdry

theorem addLetters_source {s : Text} (hresult : Plain result)
    (h : addLetters generateOptionNames given s = .ok (result, waiting)) :
    addLetters sourceOptionNames given s = .ok (result, waiting) := by
  induction s generalizing given with
  | nil => exact h
  | cons c s ih =>
    rw [addLetters] at h ⊢
    split at h
    · cases h
    next o hfind =>
    have ho : o ∈ sourceOptionNames := by
      -- an option of `generate` alone is added at once, and stays
      by_contra ho
      rw [takesValue_of_notMem ho hfind, if_neg Bool.false_ne_true] at h
      split at h
      · cases h
      next added hadd =>
      exact ho ((hresult.of_suffix (suffix_of_addLetters h)).mem_of_add hfind hadd)
    rw [find?_sourceOptionNames ho hfind]
    dsimp only
    split at h
    next htakes =>
      rw [if_pos htakes]
      exact h
    next htakes =>
      rw [if_neg htakes]
      split at h
      · cases h
      next added hadd => exact ih h

theorem addNamed_source {name : Text} {value? : Option Text} (hresult : Plain result)
    (h : addNamed generateOptionNames given name value? = .ok (result, waiting)) :
    addNamed sourceOptionNames given name value? = .ok (result, waiting) := by
  unfold addNamed at h ⊢
  cases hfind : generateOptionNames.find? (fun o => o.long = name) with
  | none =>
    rw [hfind] at h
    cases h
  | some o =>
    rw [hfind] at h
    have ho : o ∈ sourceOptionNames := by
      by_contra ho
      have htakes := takesValue_of_notMem ho hfind
      cases value? with
      | some value => simp [htakes] at h
      | none =>
        simp only [htakes, Bool.false_eq_true, if_false] at h
        cases hadd : given.add o [] with
        | error stop =>
          rw [hadd] at h
          cases h
        | ok added =>
          rw [hadd] at h
          obtain ⟨rfl, -⟩ := Prod.mk.inj (Except.ok.inj h)
          exact ho (hresult.mem_of_add hfind hadd)
    rw [find?_sourceOptionNames ho hfind]
    exact h

theorem addArgument_source {arg : Text} (hresult : Plain result)
    (h : addArgument generateOptionNames given arg = .ok (result, waiting)) :
    addArgument sourceOptionNames given arg = .ok (result, waiting) := by
  unfold addArgument at h ⊢
  split at h
  · rw [addLong_eq] at h ⊢
    split at h
    · exact addNamed_source hresult h
    · exact addNamed_source hresult h
  · exact addLetters_source hresult h

theorem addAll_source {args : List Text} (hresult : Plain result)
    (h : addAll generateOptionNames given waiting args = .ok result) :
    addAll sourceOptionNames given waiting args = .ok result := by
  induction args generalizing given waiting with
  | nil => exact h
  | cons arg rest ih =>
    cases waiting with
    | some o =>
      rw [addAll] at h ⊢
      split at h
      · cases h
      next harg =>
      rw [if_neg harg]
      split at h
      · cases h
      next added hadd => exact ih h
    | none =>
      rw [addAll] at h ⊢
      split at h
      next hend =>
        rw [if_pos hend]
        exact h
      next hend =>
        rw [if_neg hend]
        split at h
        next harg =>
          rw [if_pos harg]
          split at h
          · cases h
          next added waiting hadd =>
          rw [addArgument_source (hresult.of_suffix (suffix_of_addAll h)) hadd]
          exact ih h
        next => cases h

/-! ## More arguments -/

end Given

/-! ## The two commands -/

theorem read_cons {name : Text} (hhelp : name ≠ "help".toList) (hend : name ≠ ['-', '-'])
    (hoption : Given.isOption name = false) (args : List Text) :
    read (name :: args) = readCommand name args := by
  refine (if_neg hhelp).trans ((if_neg hend).trans (if_neg ?_))
  rw [hoption]
  exact Bool.false_ne_true

theorem read_check (args : List Text) : read ("check".toList :: args) =
    (Given.addAll sourceOptionNames [] none args).map fun given =>
      .check given.sourceOptions := by
  rw [read_cons (by decide) (by decide) (by decide), readCommand, if_neg (by decide),
    if_neg (by decide), if_pos rfl]

theorem read_generate (args : List Text) : read ("generate".toList :: args) =
    (Given.addAll generateOptionNames [] none args).map fun given =>
      .generate given.sourceOptions (given.has .watch) (given.has .dryRun) := by
  rw [read_cons (by decide) (by decide) (by decide), readCommand, if_pos rfl]

theorem addAll_of_read_check {args : List Text} {source : SourceOptions}
    (h : read ("check".toList :: args) = .ok (.check source)) :
    ∃ given : Given, given.OnlySource ∧ given.sourceOptions = source ∧
      ∀ extra : Given, extra.NoSource →
        Given.addAll generateOptionNames extra none args = .ok (given ++ extra) := by
  rw [read_check] at h
  cases hgiven : Given.addAll sourceOptionNames [] none args with
  | error stop =>
    rw [hgiven] at h
    cases h
  | ok given =>
    rw [hgiven] at h
    have hnone : Given.OnlySource [] := fun entry hentry => absurd hentry List.not_mem_nil
    have hcarried := fun (extra : Given) (hextra : extra.NoSource) =>
      Given.addAll_append hextra hnone (by simp) hgiven
    have hempty : Given.NoSource [] := fun entry hentry => absurd hentry List.not_mem_nil
    refine ⟨given, (hcarried [] hempty).1, Command.check.inj (Except.ok.inj h), ?_⟩
    intro extra hextra
    exact (hcarried extra hextra).2

/-- `check` takes the arguments that `generate` takes without a watch and a dry run, and makes
the same of them. -/
theorem read_check_iff {args : List Text} {source : SourceOptions} :
    read ("check".toList :: args) = .ok (.check source) ↔
      read ("generate".toList :: args) = .ok (.generate source false false) := by
  constructor
  · intro h
    obtain ⟨given, honly, rfl, hread⟩ := addAll_of_read_check h
    have hempty : Given.NoSource [] := fun entry hentry => absurd hentry List.not_mem_nil
    have hgiven := hread [] hempty
    rw [List.append_nil] at hgiven
    have hwatch : given.has .watch = false := by
      rw [Given.has, honly.lookup_eq_none (by decide)]
      rfl
    have hdry : given.has .dryRun = false := by
      rw [Given.has, honly.lookup_eq_none (by decide)]
      rfl
    rw [read_generate, hgiven, Except.map, hwatch, hdry]
  · intro h
    rw [read_generate] at h
    cases hgiven : Given.addAll generateOptionNames [] none args with
    | error stop =>
      rw [hgiven] at h
      cases h
    | ok given =>
      rw [hgiven] at h
      obtain ⟨hsource, hwatch, hdry⟩ := Command.generate.inj (Except.ok.inj h)
      rw [read_check, Given.addAll_source (Given.plain_of_has hwatch hdry) hgiven, Except.map,
        hsource]

end PropCatalog.CommandLine
