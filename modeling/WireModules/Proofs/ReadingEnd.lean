import WireModules.Proofs.ImportSearch
import WireModules.Proofs.Loading

/-!
# How reading ends

Reading a program may end with a fault: after some steps, and perhaps after one more unit, whose
file was found for an import but declares another module. It comes to the end of its fuel only
after as many units as the fuel allows.
-/

set_option autoImplicit false

namespace WireModules

theorem Module.load_ne_exhausted (files : FileSystem) (path : Path) :
    Module.load files path ≠ .error .exhausted := by
  intro failed
  simp only [Module.load] at failed
  split at failed
  · cases failed
  · split at failed
    · cases failed
    · next text _ =>
      cases parsed : Module.parse text (some (toString path)) with
      | error reason =>
        rw [parsed] at failed
        cases failed
      | ok reading =>
        rw [parsed] at failed
        cases failed

namespace Loading

/-- The states in which reading may end: those reached by steps, and those in which the file that
is found for an import has been added although it declares another module. -/
inductive Ended (sources : Sources) (before : Loading) : Loading → Prop where
  | steps {after : Loading} : Steps sources before after → Ended sources before after
  | misplaced {after : Loading} {path : Path} {module : Module} : Steps sources before after →
      Module.load sources.files path = .ok (.ok module) →
      Ended sources before (after.withUnit (.inFile path module))

variable {sources : Sources} {before between after : Loading} {fault : Fault}

theorem Ended.after_steps (ended : Ended sources between after) (steps : Steps sources before between) :
    Ended sources before after := by
  cases ended with
  | steps later => exact .steps (steps.trans later)
  | misplaced later loaded => exact .misplaced (steps.trans later) loaded

theorem addFile_error {files : FileSystem} {path : Path}
    (failed : (addFile files path).run before = .error fault after) :
    after = before ∧ fault ≠ .exhausted := by
  unfold addFile at failed
  replace failed := Action.error_of_run_bind_of_ok failed rfl
  split at failed
  · cases failed
  · split at failed
    · next reason refused =>
      cases failed
      refine ⟨rfl, ?_⟩
      rintro rfl
      exact Module.load_ne_exhausted files path refused
    · cases failed
      exact ⟨rfl, nofun⟩
    · cases failed

theorem satisfy_error {request : ImportRequest}
    (failed : (satisfy sources.files sources.searchOrder request).run before = .error fault after) :
    Ended sources before after ∧ fault ≠ .exhausted := by
  unfold satisfy at failed
  split at failed
  · next unlocated =>
    cases failed
    refine ⟨.steps .refl, ?_⟩
    rcases findImport_error unlocated with ⟨rfl, _⟩ | ⟨path, error, _, rfl⟩ <;> exact nofun
  · cases failed
    exact ⟨.steps .refl, nofun⟩
  · next found located =>
    rcases Action.error_of_run_bind failed with own | ⟨added, between, ranAdd, checked⟩
    · obtain ⟨rfl, other⟩ := addFile_error own
      exact ⟨.steps .refl, other⟩
    · rcases addFile_ok ranAdd with ⟨rfl, rfl, present⟩ | ⟨module, text, rfl, absent, loaded, rfl⟩
      · cases checked
      · dsimp only at checked
        split at checked
        · cases checked
          exact ⟨.misplaced (.single (.logged text)) loaded, nofun⟩
        · cases checked

theorem satisfyImport_error {unit : ProgramUnit} {imported : Import}
    (failed : (satisfyImport sources.files sources.searchOrder unit imported).run before =
      .error fault after) : Ended sources before after ∧ fault ≠ .exhausted := by
  unfold satisfyImport at failed
  replace failed := Action.error_of_run_bind_of_ok failed rfl
  split at failed
  · exact satisfy_error failed
  · cases failed

theorem satisfyImports_error {unit : ProgramUnit} (member : unit ∈ before.units)
    (failed : (unit.module.imports.forM (satisfyImport sources.files sources.searchOrder unit)).run
      before = .error fault after) : Ended sources before after ∧ fault ≠ .exhausted := by
  obtain ⟨earlier, imported, later, between, split, ran, failed⟩ := Action.error_of_run_forM failed
  have inside : ∀ other ∈ earlier, other ∈ unit.module.imports := by
    intro other listed
    rw [split]
    exact List.mem_append_left _ listed
  obtain ⟨steps, _⟩ := satisfyImports_ok member inside ran
  obtain ⟨ended, other⟩ := satisfyImport_error failed
  exact ⟨ended.after_steps steps, other⟩

/-- Fuel is spent on units only, one for each. -/
theorem satisfyAll_error {fuel index : Nat} (inside : index ≤ before.units.length)
    (failed : (satisfyAll sources.files sources.searchOrder fuel index).run before =
      .error fault after) :
    Ended sources before after ∧
      (fault = .exhausted → Steps sources before after ∧ index + fuel ≤ after.units.length) := by
  induction fuel generalizing index before with
  | zero =>
    cases failed
    exact ⟨.steps .refl, fun _ => ⟨.refl, inside⟩⟩
  | succ fuel ih =>
    unfold satisfyAll at failed
    replace failed := Action.error_of_run_bind_of_ok failed rfl
    split at failed
    · cases failed
    · next unit present =>
      have member := List.mem_of_getElem? present
      rcases Action.error_of_run_bind failed with own | ⟨_, between, ran, failed⟩
      · obtain ⟨ended, other⟩ := satisfyImports_error member own
        exact ⟨ended, fun same => absurd same other⟩
      · obtain ⟨steps, _⟩ := satisfyImports_ok member (fun _ inside => inside) ran
        have started := (List.getElem?_eq_some_iff.mp present).1
        have grown := steps.units_prefix.length_le
        obtain ⟨ended, spent⟩ := ih (by omega) failed
        refine ⟨ended.after_steps steps, fun same => ?_⟩
        obtain ⟨later, bound⟩ := spent same
        exact ⟨steps.trans later, by omega⟩

theorem addInput_error {path : Path}
    (failed : (addInput sources.files path).run before = .error fault after) :
    after = before ∧ fault ≠ .exhausted := by
  unfold addInput at failed
  split at failed
  · split at failed
    · rcases Action.error_of_run_bind failed with own | ⟨_, _, _, same⟩
      · exact addFile_error own
      · cases same
    · cases failed
  · cases failed

theorem addInputs_error {paths : List Path} (queued : ∀ path ∈ paths, path ∈ sources.inputs)
    (failed : (paths.forM (addInput sources.files)).run before = .error fault after) :
    Steps sources before after ∧ fault ≠ .exhausted := by
  obtain ⟨earlier, path, later, between, rfl, ran, failed⟩ := Action.error_of_run_forM failed
  obtain ⟨rfl, other⟩ := addInput_error failed
  exact ⟨addInputs_ok (fun path member => queued path (List.mem_append_left _ member)) ran, other⟩

/-- However reading fails, it has gone by steps, and it has run out of fuel only with as many units
as its bound. -/
theorem readProgram_error {files : FileSystem} {options : Options} {queue : Queue}
    {loading : Loading} (failed : (readProgram files options queue).run {} = .error fault loading) :
    Ended (.ofQueue files options queue) opening loading ∧
      (fault = .exhausted → Steps (.ofQueue files options queue) opening loading ∧
        unitBound files options.searchOrder queue.paths ≤ loading.units.length) := by
  let sources : Sources := .ofQueue files options queue
  -- What fails once the support modules are there, whether the runtime module is one of them or not.
  have failedQueued : ∀ started, Steps sources opening started →
      (readQueued files options queue).run started = .error fault loading →
      Ended sources opening loading ∧ (fault = .exhausted → Steps sources opening loading ∧
        unitBound files options.searchOrder queue.paths ≤ loading.units.length) := by
    intro started first failed
    rcases Action.error_of_run_bind failed with own | ⟨_, queued, ran, failed⟩
    · obtain ⟨second, other⟩ : Steps sources started loading ∧ _ :=
        addInputs_error (fun _ member => member) own
      exact ⟨.steps (first.trans second), fun same => absurd same other⟩
    · have second : Steps sources started queued := addInputs_ok (fun _ member => member) ran
      obtain ⟨ended, spent⟩ : Ended sources queued loading ∧ _ :=
        satisfyAll_error (Nat.zero_le _) failed
      refine ⟨ended.after_steps (first.trans second), fun same => ?_⟩
      obtain ⟨third, bound⟩ := spent same
      exact ⟨(first.trans second).trans third, by omega⟩
  rw [run_readProgram] at failed
  split at failed
  · rcases Action.error_of_run_bind failed with own | ⟨_, started, ran, failed⟩
    · obtain ⟨ended, other⟩ : Ended sources opening loading ∧ _ := satisfy_error own
      exact ⟨ended, fun same => absurd same other⟩
    · have satisfied : Steps sources opening started ∧ _ := satisfy_ok .runtime ran
      exact failedQueued started satisfied.1 failed
  · exact failedQueued opening .refl failed

end Loading

end WireModules
