import WireModules.Proofs.ReadingBound

/-!
# What may go wrong while a program is compiled

Reading a program fails with diagnostics, at an integer literal that is too long, at a place that is
nowhere, at a file that no path can open, or at an import that is asked for and whose search comes to a
path that cannot be looked up. Resolution fails with diagnostics only.
-/

set_option autoImplicit false

namespace WireModules

/-- The faults of reading the modules of a program, by where reading has ended. -/
inductive ReadingFault (sources : Loading.Sources) (ended : Loading) : Fault → Prop where
  | rejected (diagnostics : List Diagnostic) :
      ReadingFault sources ended (.failure (.compileFailure diagnostics))
  | tooLong (refusal : Text.Decimal.TooLong) : ReadingFault sources ended (.tooLong refusal)
  | searchNowhere : .nowhere ∈ sources.searchOrder →
      ReadingFault sources ended (.place .searchNowhere)
  | nullInput {path : Path} : path ∈ sources.inputs → path.hasNull = true →
      ReadingFault sources ended (.place .nullCharacter)
  | refused {request : ImportRequest} {path : Path} {error : FileError} :
      ended.Asks request → sources.files.Refused path error →
      Loading.findImport sources.files sources.searchOrder request Loading.moduleExtensions =
        .error (.lookup path error) → ReadingFault sources ended (.lookup path error)

theorem Module.load_error {files : FileSystem} {path : Path} {fault : Fault}
    (failed : Module.load files path = .error fault) :
    (∃ refusal, fault = .tooLong refusal) ∨ fault = .place .nullCharacter ∧ path.hasNull = true := by
  simp only [Module.load] at failed
  split at failed
  · next null =>
    cases failed
    exact .inr ⟨rfl, null⟩
  · split at failed
    · cases failed
    · next text _ =>
      cases parsed : Module.parse text (some (toString path)) with
      | error refusal =>
        rw [parsed] at failed
        cases failed
        exact .inl ⟨refusal, rfl⟩
      | ok reading =>
        rw [parsed] at failed
        cases failed

namespace Loading

variable {sources : Sources} {request : ImportRequest} {before after : Loading} {fault : Fault}

theorem addFile_fault {path : Path}
    (failed : (addFile sources.files path).run before = .error fault after)
    (null : path.hasNull = true → ReadingFault sources after (.place .nullCharacter)) :
    ReadingFault sources after fault := by
  unfold addFile at failed
  replace failed := Action.error_of_run_bind_of_ok failed rfl
  split at failed
  · cases failed
  · split at failed
    · next reason refused =>
      cases failed
      rcases Module.load_error refused with ⟨refusal, rfl⟩ | ⟨rfl, isNull⟩
      · exact .tooLong refusal
      · exact null isNull
    · cases failed
      exact .rejected _
    · cases failed

theorem satisfy_fault (asks : Asks before request)
    (failed : (satisfy sources.files sources.searchOrder request).run before = .error fault after) :
    ReadingFault sources after fault := by
  unfold satisfy at failed
  split at failed
  · next unlocated =>
    cases failed
    rcases findImport_error unlocated with ⟨rfl, member⟩ | ⟨path, error, refused, rfl⟩
    · exact .searchNowhere member
    · exact .refused asks refused unlocated
  · cases failed
    exact .rejected _
  · next found located =>
    rcases Action.error_of_run_bind failed with own | ⟨added, between, ranAdd, checked⟩
    · have openable : found.normalize.hasNull = false :=
        Path.hasNull_normalize (FileSystem.hasNull_of_contains (exists_of_findImport located).1)
      exact addFile_fault own fun null => by cases null.symm.trans openable
    · split at checked
      · cases checked
      · split at checked
        · cases checked
          exact .rejected _
        · cases checked

theorem satisfyImport_fault {unit : ProgramUnit} {imported : Import} (member : unit ∈ before.units)
    (inside : imported ∈ unit.module.imports)
    (failed : (satisfyImport sources.files sources.searchOrder unit imported).run before =
      .error fault after) : ReadingFault sources after fault := by
  unfold satisfyImport at failed
  replace failed := Action.error_of_run_bind_of_ok failed rfl
  split at failed
  · exact satisfy_fault (.unit member inside) failed
  · cases failed

theorem satisfyImports_fault {unit : ProgramUnit} (member : unit ∈ before.units)
    (failed : (unit.module.imports.forM (satisfyImport sources.files sources.searchOrder unit)).run
      before = .error fault after) : ReadingFault sources after fault := by
  obtain ⟨earlier, imported, later, between, split, ran, failed⟩ := Action.error_of_run_forM failed
  have inside : ∀ other ∈ earlier ++ imported :: later, other ∈ unit.module.imports := by
    rw [← split]
    exact fun _ listed => listed
  obtain ⟨given, others⟩ := List.forall_mem_append.mp inside
  obtain ⟨steps, _⟩ := satisfyImports_ok member given ran
  exact satisfyImport_fault (steps.units_prefix.subset member) (others imported (.head _)) failed

theorem satisfyAll_fault {fuel index : Nat}
    (failed : (satisfyAll sources.files sources.searchOrder fuel index).run before =
      .error fault after) : ReadingFault sources after fault ∨ fault = .exhausted := by
  induction fuel generalizing index before with
  | zero =>
    cases failed
    exact .inr rfl
  | succ fuel ih =>
    unfold satisfyAll at failed
    replace failed := Action.error_of_run_bind_of_ok failed rfl
    split at failed
    · cases failed
    · next present =>
      rcases Action.error_of_run_bind failed with own | ⟨_, _, _, failed⟩
      · exact .inl (satisfyImports_fault (List.mem_of_getElem? present) own)
      · exact ih failed

theorem addInput_fault {path : Path} (queued : path ∈ sources.inputs)
    (failed : (addInput sources.files path).run before = .error fault after) :
    ReadingFault sources after fault := by
  unfold addInput at failed
  split at failed
  · split at failed
    · rcases Action.error_of_run_bind failed with own | ⟨_, _, _, same⟩
      · exact addFile_fault own (.nullInput queued)
      · cases same
    · cases failed
  · cases failed

theorem readProgram_fault {files : FileSystem} {options : Options} {queue : Queue}
    (failed : (readProgram files options queue).run {} = .error fault after) :
    ReadingFault (.ofQueue files options queue) after fault := by
  let sources : Sources := .ofQueue files options queue
  have limited : fault ≠ .exhausted := by
    rintro rfl
    exact readProgram_ne_exhausted files options queue after failed
  have failedQueued : ∀ started, (readQueued files options queue).run started = .error fault after →
      ReadingFault sources after fault := by
    intro started failed
    rcases Action.error_of_run_bind failed with own | ⟨_, _, _, failed⟩
    · obtain ⟨earlier, path, later, _, split, _, failed⟩ := Action.error_of_run_forM own
      have queued : path ∈ sources.inputs := by
        change path ∈ queue.paths
        rw [split]
        exact List.mem_append_right _ (.head _)
      exact addInput_fault queued failed
    · have read : ReadingFault sources after fault ∨ fault = .exhausted := satisfyAll_fault failed
      exact read.resolve_right limited
  rw [run_readProgram] at failed
  split at failed
  · rcases Action.error_of_run_bind failed with own | ⟨_, started, _, failed⟩
    · exact satisfy_fault .runtime own
    · exact failedQueued started failed
  · exact failedQueued opening failed

end Loading

/-- A compilation fails as reading does, or with what resolution reports. -/
theorem Compilation.fault_of_ofQueue {files : FileSystem} {options : Options} {queue : Queue}
    {fault : Fault} (failed : (ofQueue files options queue).outcome = .error fault) :
    (∃ loading, (Loading.readProgram files options queue).run {} = .error fault loading ∧
        (ofQueue files options queue).events = loading.events ∧
        ReadingFault (.ofQueue files options queue) loading fault) ∨
      ∃ diagnostics, fault = .failure (.compileFailure diagnostics) := by
  rw [ofQueue] at failed ⊢
  split at failed
  · next loading read =>
    cases failed
    exact .inl ⟨loading, read, rfl, Loading.readProgram_fault read⟩
  · rw [ofLoading] at failed
    dsimp only at failed
    split at failed
    · cases failed
      exact .inr ⟨_, rfl⟩
    · cases failed

end WireModules
