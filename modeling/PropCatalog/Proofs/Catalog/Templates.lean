import PropCatalog.Catalog.Scan
import PropCatalog.Proofs.Template.Reading
import PropCatalog.Proofs.Text.Classes
import Mathlib.Data.List.Forall2

/-!
# The templates of a list of files

Each file is read on its own, and is either listed with its template or left out with the reason.
Both lists keep the order of the files (`forall₂_templates`, `forall₂_skipped`).
-/

namespace PropCatalog.Catalog

variable {config : Config} {files : List SourceFile}

/-- The outcome of reading a file. -/
def outcome (config : Config) (file : SourceFile) : Except Template.Problem Template :=
  config.reader.read file.component file.content

/-- A file that has a template. -/
def hasTemplate (config : Config) (file : SourceFile) : Bool :=
  (outcome config file).isOk

theorem hasTemplate_of_ok {file : SourceFile} {template : Template}
    (h : outcome config file = .ok template) : hasTemplate config file = true := by
  rw [hasTemplate, h]
  rfl

theorem hasTemplate_of_error {file : SourceFile} {problem : Template.Problem}
    (h : outcome config file = .error problem) : hasTemplate config file = false := by
  rw [hasTemplate, h]
  rfl

theorem templates_cons_ok {file : SourceFile} {template : Template}
    (h : outcome config file = .ok template) (files : List SourceFile) :
    templates config (file :: files) = (file, template) :: templates config files := by
  simp only [outcome] at h
  simp [templates, readAll, h]

theorem templates_cons_error {file : SourceFile} {problem : Template.Problem}
    (h : outcome config file = .error problem) (files : List SourceFile) :
    templates config (file :: files) = templates config files := by
  simp only [outcome] at h
  simp [templates, readAll, h]

theorem templates_append (config : Config) (files files' : List SourceFile) :
    templates config (files ++ files') = templates config files ++ templates config files' := by
  simp only [templates, readAll, List.map_append, List.filterMap_append]

theorem skipped_cons_ok {file : SourceFile} {template : Template}
    (h : outcome config file = .ok template) (files : List SourceFile) :
    skipped config (file :: files) = skipped config files := by
  simp only [outcome] at h
  simp [skipped, readAll, h]

theorem skipped_cons_error {file : SourceFile} {problem : Template.Problem}
    (h : outcome config file = .error problem) (files : List SourceFile) :
    skipped config (file :: files) = ⟨file.path, problem⟩ :: skipped config files := by
  simp only [outcome] at h
  simp [skipped, readAll, h]

/-- The templates are those of the files that have one, in order. -/
theorem forall₂_templates (config : Config) (files : List SourceFile) :
    List.Forall₂ (fun file p => p.1 = file ∧ outcome config file = .ok p.2)
      (files.filter (hasTemplate config)) (templates config files) := by
  induction files with
  | nil => exact .nil
  | cons file files ih =>
    rw [List.filter_cons]
    cases hread : outcome config file with
    | ok template =>
      rw [templates_cons_ok hread, if_pos (hasTemplate_of_ok hread)]
      exact .cons ⟨rfl, hread⟩ ih
    | error problem =>
      rw [templates_cons_error hread, if_neg (by simp [hasTemplate_of_error hread])]
      exact ih

/-- The files that are left out are those without a template, in order. -/
theorem forall₂_skipped (config : Config) (files : List SourceFile) :
    List.Forall₂ (fun file s => ∃ problem, outcome config file = .error problem ∧
        s = ⟨file.path, problem⟩)
      (files.filter fun file => !hasTemplate config file) (skipped config files) := by
  induction files with
  | nil => exact .nil
  | cons file files ih =>
    rw [List.filter_cons]
    cases hread : outcome config file with
    | ok template =>
      rw [skipped_cons_ok hread, if_neg (by simp [hasTemplate_of_ok hread])]
      exact ih
    | error problem =>
      rw [skipped_cons_error hread, if_pos (by simp [hasTemplate_of_error hread])]
      exact .cons ⟨problem, hread, rfl⟩ ih

theorem of_mem_templates {file : SourceFile} {template : Template}
    (h : (file, template) ∈ templates config files) :
    file ∈ files ∧ template.IsOf file.component := by
  induction files with
  | nil => cases h
  | cons first files ih =>
    cases hread : outcome config first with
    | ok found =>
      rw [templates_cons_ok hread] at h
      rcases List.mem_cons.1 h with heq | h
      · cases heq
        exact ⟨by simp, Template.isOf_of_read hread⟩
      · obtain ⟨hfile, hof⟩ := ih h
        exact ⟨by simp [hfile], hof⟩
    | error problem =>
      rw [templates_cons_error hread] at h
      obtain ⟨hfile, hof⟩ := ih h
      exact ⟨by simp [hfile], hof⟩

/-! ## Names of components -/

theorem isNameRest_of_isComponentName {name : Text} (h : Scan.isComponentName name = true) :
    ∀ c ∈ name, Scan.isNameRest c = true := by
  cases name with
  | nil => simp
  | cons d s =>
    simp only [Scan.isComponentName, Bool.and_eq_true, List.all_eq_true] at h
    have hstart : Scan.isNameRest d = true := by
      simp only [Scan.isNameRest, Char.isAlphanum]
      simp only [Bool.or_eq_true] at h ⊢
      tauto
    exact List.forall_mem_cons.2 ⟨hstart, h.2⟩

theorem notMem_of_isComponentName {name : Text} (h : Scan.isComponentName name = true) {c : Char}
    (hc : Scan.isNameRest c = false) : c ∉ name := fun hmem => by
  rw [isNameRest_of_isComponentName h c hmem] at hc
  cases hc

theorem not_blank_of_isComponentName {name : Text} (h : Scan.isComponentName name = true) :
    (' ' :: name).getLast?.any Text.isBlank = false := by
  cases name with
  | nil => cases h
  | cons c s =>
    rw [List.getLast?_cons_cons, List.getLast?_eq_some_getLast (by simp)]
    refine Bool.eq_false_iff.2 fun hblank => ?_
    have hrest := isNameRest_of_isComponentName h _ (List.getLast_mem (List.cons_ne_nil c s))
    have hnot := Text.forall_blank (p := fun c => !Scan.isNameRest c) (by decide +kernel) hblank
    rw [hrest] at hnot
    cases hnot

end PropCatalog.Catalog
