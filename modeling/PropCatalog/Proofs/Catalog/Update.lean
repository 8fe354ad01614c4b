import PropCatalog.Catalog.Update
import PropCatalog.Proofs.Document.History
import PropCatalog.Proofs.Files.Workspace

/-!
# Plans and what becomes of them

A plan that is made has read the document, and a document that can be read can be written: writing
the planned text changes nothing if the document holds it already, and otherwise puts it in the
place of the document (`write_of_plan`). A second plan, made after the text of the first one was
written, finds the same sources and takes the section of the first plan over, so that there is
nothing left to change (`plan_again`).
-/

namespace PropCatalog.Catalog

open Files (Workspace Node Location Name)
open Files.Workspace (FilePlace SameFiles WritesOnly)

variable {ws ws' : Workspace} {config : Config} {filter : Option Text} {path old content : Text}

/-! ## Plans -/

theorem plan_eq_ok {p : Plan} : plan ws config filter = .ok p ↔
    ∃ files document, (scanOf config filter).runAllowEmpty ws = .ok files ∧
      ws.readText config.target.file = .ok document ∧
      Document.splice config.target document (generate config files).text = .ok p.splice ∧
      p.output = generate config files := by
  unfold plan
  cases hscan : (scanOf config filter).runAllowEmpty ws with
  | error problem => simp
  | ok files =>
    cases hread : ws.readText config.target.file with
    | error error => simp
    | ok document =>
      cases hsplice : Document.splice config.target document (generate config files).text with
      | error problem => simp [hsplice]
      | ok splice =>
        obtain ⟨output, planned⟩ := p
        simp only [hsplice, Except.ok.injEq, Plan.mk.injEq]
        constructor
        · rintro ⟨rfl, rfl⟩
          exact ⟨files, document, rfl, rfl, hsplice, rfl⟩
        · rintro ⟨files', document', rfl, rfl, hplanned, rfl⟩
          rw [hsplice] at hplanned
          exact ⟨rfl, Except.ok.inj hplanned⟩

theorem exitCode_of_plan_eq_error {failure : Failure} (h : plan ws config filter = .error failure) :
    failure.exitCode = 1 := by
  unfold plan at h
  split at h
  · cases h
    rfl
  · split at h
    · cases h
      rfl
    · dsimp only at h
      split at h
      · cases h
        rfl
      · cases h

theorem changed_of_plan_eq_ok {p : Plan} (h : plan ws config filter = .ok p) :
    ∃ document, ws.readText config.target.file = .ok document ∧
      (p.splice.changed = true ↔ p.splice.content ≠ document) := by
  obtain ⟨files, document, -, hread, hsplice, -⟩ := plan_eq_ok.1 h
  refine ⟨document, hread, ?_⟩
  cases hlocate : Document.locate config.target document with
  | error problem =>
    rw [Document.splice_of_locate_error hlocate] at hsplice
    cases hsplice
  | ok region =>
    rw [Document.splice_of_locate hlocate] at hsplice
    rw [← Except.ok.inj hsplice]
    exact decide_eq_true_iff

/-- A plan made after the one before was written changes nothing. -/
theorem plan_again {p : Plan} (hmarker : '\n' ∉ config.target.startMarker)
    (hplan : plan ws config filter = .ok p)
    (hsection : Document.IsSection config.target p.output.text)
    (hscan : (scanOf config filter).runAllowEmpty ws' = (scanOf config filter).runAllowEmpty ws)
    (hread : ws'.readText config.target.file = .ok p.splice.content) :
    ∃ again, plan ws' config filter = .ok again ∧ again.output = p.output ∧
      again.splice.content = p.splice.content ∧ again.splice.changed = false := by
  obtain ⟨files, document, hfiles, hdocument, hsplice, houtput⟩ := plan_eq_ok.1 hplan
  cases hlocate : Document.locate config.target document with
  | error problem =>
    rw [Document.splice_of_locate_error hlocate] at hsplice
    cases hsplice
  | ok region =>
    rw [Document.splice_of_locate hlocate] at hsplice
    have hcontent : p.splice.content = region.replace (generate config files).text := by
      rw [← Except.ok.inj hsplice]
    rw [houtput] at hsection
    -- the section is found again, and replacing it by itself gives the same document
    have hretaken := Document.locate_replace hmarker hlocate hsection
    rw [← hcontent] at hretaken
    obtain ⟨again, hagain, hsame, hunchanged⟩ : ∃ again : Document.Splice,
        Document.splice config.target p.splice.content (generate config files).text = .ok again ∧
          again.content = p.splice.content ∧ again.changed = false := by
      refine ⟨_, Document.splice_of_locate hretaken _, ?_, ?_⟩
      · rw [Document.Region.replace_retaken, hcontent]
      · rw [Document.Region.replace_retaken, hcontent]
        exact decide_eq_false (not_not_intro rfl)
    refine ⟨⟨p.output, again⟩, ?_, rfl, hsame, hunchanged⟩
    rw [plan_eq_ok, hscan]
    exact ⟨files, p.splice.content, hfiles, hread, hagain, houtput⟩

/-! ## Writing -/

theorem makeParent_of_filePlace {dir : Location} {name : Name} (h : FilePlace ws path dir name) :
    makeParent ws path = (ws, .ok ()) := by
  unfold makeParent
  split
  · rfl
  next parent hparent =>
  rw [if_pos]
  rcases h.exists?_parent hparent with rfl | hexists
  · rfl
  · rw [hexists, Bool.or_true]

theorem write_unchanged (h : ws.readText path = .ok content) :
    write ws false path content = (ws, .ok .unchanged) := by
  simp [write, h]

theorem write_eq_put {dir : Location} {name : Name} (hplace : FilePlace ws path dir name)
    (h : ws.readText path = .ok old) (hne : old ≠ content) :
    write ws false path content =
      ({ ws with root := Node.put (.file (Text.toUtf8 content)) (dir ++ [name]) ws.root },
        .ok (.written (Text.utf8Length content))) := by
  simp only [write, h, hne, writeNew, makeParent_of_filePlace hplace, hplace.writeText_eq content]
  rfl

theorem write_of_readText (h : ws.readText path = .ok old) (hne : old ≠ content) :
    ∃ ws', write ws false path content = (ws', .ok (.written (Text.utf8Length content))) ∧
      ws'.readBytes path ≠ ws.readBytes path ∧ ¬ SameFiles ws ws' := by
  obtain ⟨dir, name, bytes, hplace, hlocate, hfile, hold⟩ :=
    Files.Workspace.exists_filePlace_of_readText h
  obtain ⟨entries, hentries⟩ := hplace.directory
  -- bytes that are read as another text are other bytes
  have hother : Text.toUtf8 content ≠ bytes := by
    rintro rfl
    rw [Text.ofUtf8?_toUtf8] at hold
    exact hne (Option.some.inj hold).symm
  refine ⟨_, write_eq_put hplace h hne, ?_, ?_⟩
  · rw [hplace.readBytes_put, Files.Workspace.readBytes_eq_ok.2 ⟨_, hlocate, hfile⟩]
    exact fun hsame => hother (Except.ok.inj hsame)
  · intro hsame
    have hput := hsame (dir ++ [name])
    rw [hfile, Node.fileAt?_eq_some_iff, Node.get?_put _ hentries] at hput
    exact hother (Node.file.inj (Option.some.inj hput))

theorem writesOnly_of_write {written : Written} (h : ws.readText path = .ok old)
    (hwrite : write ws false path content = (ws', .ok written)) :
    WritesOnly ws ws' path content := by
  by_cases hne : old = content
  · subst hne
    rw [write_unchanged h] at hwrite
    obtain ⟨rfl, -⟩ := Prod.mk.inj hwrite
    exact Files.Workspace.writesOnly_of_readText h
  · obtain ⟨dir, name, bytes, hplace, -⟩ := Files.Workspace.exists_filePlace_of_readText h
    rw [write_eq_put hplace h hne] at hwrite
    obtain ⟨rfl, -⟩ := Prod.mk.inj hwrite
    exact hplace.writesOnly_put content

theorem readText_of_write {written : Written}
    (h : write ws false path content = (ws', .ok written)) : ws'.readText path = .ok content := by
  have hnew : ∀ written, writeNew ws path content = (ws', .ok written) →
      ws'.readText path = .ok content := by
    intro written h
    unfold writeNew at h
    split at h
    · cases h
    next made hmade =>
    split at h
    · next written hwritten =>
      obtain ⟨rfl, -⟩ := Prod.mk.inj h
      exact Files.Workspace.readText_of_writeText hwritten
    · cases h
  unfold write at h
  rw [if_neg Bool.false_ne_true] at h
  split at h
  · next old hold =>
    split at h
    next hsame =>
      obtain ⟨rfl, -⟩ := Prod.mk.inj h
      rw [hold, hsame]
    next => exact hnew written h
  · exact hnew written h

/-- Writing the text of a plan does not fail. The document holds it afterwards; a plan without
changes leaves the workspace, and one with changes leaves another document. -/
theorem write_of_plan {p : Plan} (h : plan ws config filter = .ok p) : ∃ ws' written,
    write ws false config.target.file p.splice.content = (ws', .ok written) ∧
      ws'.readText config.target.file = .ok p.splice.content ∧
      (p.splice.changed = false → ws' = ws ∧ written = .unchanged) ∧
      (p.splice.changed = true →
        ws'.readBytes config.target.file ≠ ws.readBytes config.target.file ∧
          ¬ SameFiles ws ws') := by
  obtain ⟨document, hread, hchanged⟩ := changed_of_plan_eq_ok h
  by_cases hsame : document = p.splice.content
  · have hfalse : p.splice.changed = false := by
      rw [← Bool.not_eq_true, hchanged]
      exact not_not_intro hsame.symm
    rw [hsame] at hread
    refine ⟨ws, .unchanged, write_unchanged hread, hread, fun _ => ⟨rfl, rfl⟩, fun htrue => ?_⟩
    rw [hfalse] at htrue
    cases htrue
  · have htrue : p.splice.changed = true := hchanged.2 (Ne.symm hsame)
    obtain ⟨ws', hwrite, hbytes, hfiles⟩ := write_of_readText hread hsame
    refine ⟨ws', _, hwrite, readText_of_write hwrite, fun hfalse => ?_, fun _ => ⟨hbytes, hfiles⟩⟩
    rw [htrue] at hfalse
    cases hfalse

end PropCatalog.Catalog
