import WireModules.Proofs.ReadingBound

/-!
# The units of a compiled program

A queue holds files in normal form, none of them twice. A program that is compiled from it has each
of its modules once and hands the other files to the linker in their order; any other unit is a
support module or was asked for by an import of a unit before it.
-/

set_option autoImplicit false

namespace WireModules

/-! ## Queues -/

/-- Queues that files have been added to, whatever files there were each time. -/
inductive Queue.Filled : Queue → Prop where
  | empty : Filled {}
  | added {queue next : Queue} {files : FileSystem} {path : Path} : Filled queue →
      queue.add files path = .ok next → Filled next

namespace Loading

def linkExtensions : List String := [".wiro", ".cc", ".cxx"]

end Loading

/-- What may be queued: a module, or what is handed to the linker. -/
structure Path.IsQueueable (path : Path) : Prop where
  normal : path.normalize = path
  known : path.suffix ∈ Loading.moduleExtensions ∨ path.suffix ∈ Loading.linkExtensions

theorem Path.known_of_inputKind? {path : Path} {kind : InputKind}
    (known : path.inputKind? = some kind) (notGlue : kind ≠ .glue) :
    path.suffix ∈ Loading.moduleExtensions ∨ path.suffix ∈ Loading.linkExtensions := by
  unfold Path.inputKind? InputKind.ofExtension? at known
  split at known <;> simp_all [Loading.moduleExtensions, Loading.linkExtensions]

theorem Queue.Filled.sound {queue : Queue} (filled : queue.Filled) :
    queue.paths.Nodup ∧ ∀ path ∈ queue.paths, path.IsQueueable := by
  induction filled with
  | empty => simp
  | @added queue next files path _ ran ih =>
    obtain ⟨⟨kind, notGlue, known⟩, _, ⟨_, rfl⟩ | ⟨fresh, longer⟩⟩ := add_ok ran
    · exact ih
    · have queueable : path.normalize.IsQueueable :=
        ⟨path.normalize_normalize, Path.known_of_inputKind? known notGlue⟩
      rw [longer]
      refine ⟨?_, List.forall_mem_append.mpr ⟨ih.2, List.forall_mem_singleton.mpr queueable⟩⟩
      rw [← List.concat_eq_append]
      exact ih.1.concat fresh

namespace Loading

/-! ## Inputs -/

theorem keeps_linkInputs_addFile (files : FileSystem) (path : Path) :
    Action.Keeps linkInputs (addFile files path) := by
  unfold addFile
  apply Action.Keeps.bind .get
  intro loading
  split
  · exact .pure none
  · split
    · exact .throw _
    · exact .throw _
    · exact fun _ => rfl

theorem keeps_linkInputs_satisfy (files : FileSystem) (searchOrder : List Place)
    (request : ImportRequest) : Action.Keeps linkInputs (satisfy files searchOrder request) := by
  unfold satisfy
  split
  · exact .throw _
  · exact .throw _
  · apply Action.Keeps.bind (keeps_linkInputs_addFile files _)
    intro added
    split
    · exact .pure ()
    · split
      · exact .throw _
      · exact .pure ()

theorem keeps_linkInputs_satisfyAll (files : FileSystem) (searchOrder : List Place)
    (fuel index : Nat) : Action.Keeps linkInputs (satisfyAll files searchOrder fuel index) := by
  induction fuel generalizing index with
  | zero => exact .throw _
  | succ fuel ih =>
    unfold satisfyAll
    apply Action.Keeps.bind .get
    intro loading
    split
    · exact .pure ()
    · next unit _ =>
      refine Action.Keeps.bind (.forM fun imported => ?_) fun _ => ih (index + 1)
      unfold satisfyImport
      apply Action.Keeps.bind .get
      intro loading
      split
      · exact keeps_linkInputs_satisfy files searchOrder _
      · exact .pure ()

variable {sources : Sources} {before after : Loading}

theorem Steps.paths_subset (steps : Steps sources before after) : before.paths ⊆ after.paths :=
  fun _ member => (steps.units_prefix.filterMap _).subset member

theorem addInput_files {path : Path} (queueable : path.IsQueueable)
    (ran : (addInput sources.files path).run before = .ok () after) :
    after.linkInputs =
        before.linkInputs ++ [path].filter (fun path => linkExtensions.contains path.suffix) ∧
      (path.suffix ∈ moduleExtensions → path ∈ after.paths) := by
  have apart : ∀ extension ∈ moduleExtensions, extension ∉ linkExtensions := by decide
  unfold addInput at ran
  split at ran
  · next kind known =>
    have isModule := isParsed_iff_of_inputKind? known
    split at ran
    · next parsed =>
      obtain ⟨added, between, ranAdd, same⟩ := Action.exists_of_run_bind_eq_ok ran
      cases same
      have links := (keeps_linkInputs_addFile sources.files path).of_run_eq_ok ranAdd
      have passed : path ∈ after.paths := by
        rcases addFile_ok ranAdd with ⟨_, rfl, present⟩ | ⟨module, text, _, _, _, rfl⟩
        · exact mem_paths_iff.mpr present
        · rw [paths_withUnit]
          exact List.mem_append_right _ (.head _)
      simp [links, apart path.suffix (isModule.mp parsed), passed]
    · next passedThrough =>
      have notModule := mt isModule.mpr passedThrough
      have linked := queueable.known.resolve_left notModule
      cases ran
      simp [linked, notModule]
  · next unknown =>
    have kinds : ∀ extension, extension ∈ moduleExtensions ∨ extension ∈ linkExtensions →
        (InputKind.ofExtension? extension).isSome = true := by
      simp only [or_imp, forall_and]
      decide
    have known := kinds path.suffix queueable.known
    change InputKind.ofExtension? path.suffix = none at unknown
    simp [unknown] at known

theorem addInputs_files {paths : List Path} (queued : ∀ path ∈ paths, path ∈ sources.inputs)
    (queueable : ∀ path ∈ paths, path.IsQueueable)
    (ran : (paths.forM (addInput sources.files)).run before = .ok () after) :
    after.linkInputs =
        before.linkInputs ++ paths.filter (fun path => linkExtensions.contains path.suffix) ∧
      ∀ path ∈ paths, path.suffix ∈ moduleExtensions → path ∈ after.paths := by
  induction paths generalizing before with
  | nil =>
    cases ran
    simp
  | cons path rest ih =>
    obtain ⟨between, first, others⟩ := Action.exists_of_run_forM_cons_eq_ok ran
    obtain ⟨ownLinks, ownPath⟩ := addInput_files (queueable path (.head _)) first
    have restQueued : ∀ other ∈ rest, other ∈ sources.inputs :=
      fun other member => queued other (.tail _ member)
    obtain ⟨links, listed⟩ := ih restQueued (fun other member => queueable other (.tail _ member))
      others
    refine ⟨?_, List.forall_mem_cons.mpr ⟨fun isModule => ?_, listed⟩⟩
    · rw [links, ownLinks, List.append_assoc, ← List.filter_append, List.singleton_append]
    · exact Steps.paths_subset (addInputs_ok restQueued others) (ownPath isModule)

theorem readProgram_files {files : FileSystem} {options : Options} {queue : Queue}
    {loading : Loading} (queueable : ∀ path ∈ queue.paths, path.IsQueueable)
    (ran : (readProgram files options queue).run {} = .ok () loading) :
    loading.linkInputs = queue.paths.filter (fun path => linkExtensions.contains path.suffix) ∧
      ∀ path ∈ queue.paths, path.suffix ∈ moduleExtensions → path ∈ loading.paths := by
  let sources : Sources := .ofQueue files options queue
  obtain ⟨started, noLinks, ranQueued⟩ : ∃ started, started.linkInputs = [] ∧
      (readQueued files options queue).run started = .ok () loading := by
    rw [run_readProgram] at ran
    split at ran
    · obtain ⟨_, started, ranSatisfy, ranQueued⟩ := Action.exists_of_run_bind_eq_ok ran
      exact ⟨started, (keeps_linkInputs_satisfy _ _ _).of_run_eq_ok ranSatisfy, ranQueued⟩
    · exact ⟨opening, rfl, ran⟩
  obtain ⟨_, queued, ranInputs, ranImports⟩ := Action.exists_of_run_bind_eq_ok ranQueued
  have queuedInputs : ∀ path ∈ queue.paths, path ∈ sources.inputs := fun _ member => member
  obtain ⟨links, listed⟩ := addInputs_files queuedInputs queueable ranInputs
  have later : Steps sources queued loading := (satisfyAll_ok ranImports).1
  refine ⟨?_, fun path member isModule => later.paths_subset (listed path member isModule)⟩
  rw [(keeps_linkInputs_satisfyAll _ _ _ _).of_run_eq_ok ranImports, links, noLinks, List.nil_append]

/-! ## Units -/

/-- Why a unit stands in a program after some others. -/
inductive Accounted (inputs : List Path) (earlier : List ProgramUnit) (unit : ProgramUnit) :
    Prop where
  | prelude : earlier = [] → unit.path = none → unit.moduleId = Support.preludeId →
      Accounted inputs earlier unit
  | input {path : Path} : path ∈ inputs → path.suffix ∈ moduleExtensions →
      unit.path = some path → Accounted inputs earlier unit
  | runtime : unit.moduleId = Support.runtimeId → Accounted inputs earlier unit
  | imported {importer : ProgramUnit} {imported : Import} : importer ∈ earlier →
      imported ∈ importer.module.imports → unit.moduleId = imported.name →
      Accounted inputs earlier unit

/-- Every unit is accounted for by the units before it. -/
def AllAccounted (inputs : List Path) (units : List ProgramUnit) : Prop :=
  ∀ earlier unit later, units = earlier ++ unit :: later → Accounted inputs earlier unit

theorem AllAccounted.append {inputs : List Path} {units : List ProgramUnit} {unit : ProgramUnit}
    (all : AllAccounted inputs units) (last : Accounted inputs units unit) :
    AllAccounted inputs (units ++ [unit]) := by
  intro earlier other later split
  rcases List.eq_nil_or_concat later with rfl | ⟨others, final, rfl⟩
  · obtain ⟨rfl, same⟩ := List.append_inj' split rfl
    cases same
    exact last
  · have whole : units ++ [unit] = (earlier ++ other :: others) ++ [final] := by
      simpa using split
    exact all earlier other others (List.append_inj' whole rfl).1

theorem Asks.accounted {inputs : List Path} {loading : Loading} {request : ImportRequest}
    (asks : Asks loading request) {unit : ProgramUnit} (named : unit.moduleId = request.name) :
    Accounted inputs loading.units unit := by
  cases asks with
  | runtime => exact .runtime named
  | unit member inside => exact .imported member inside named

theorem Steps.allAccounted {loading : Loading} (steps : Steps sources opening loading) :
    AllAccounted sources.inputs loading.units := by
  induction steps with
  | refl =>
    have none : AllAccounted sources.inputs [] := by
      intro earlier unit later split
      simp at split
    exact none.append (.prelude rfl rfl rfl)
  | tail _ step ih =>
    cases step with
    | logged text => exact ih
    | linked queued => exact ih
    | input queued absent loaded =>
      obtain ⟨listed, isModule⟩ := List.mem_filter.mp queued
      exact ih.append (.input listed (List.contains_iff_mem.mp isModule) rfl)
    | imported asks located absent loaded named => exact ih.append (asks.accounted named)

theorem Steps.normalize_of_mem_paths {loading : Loading} (steps : Steps sources opening loading)
    (normal : ∀ path ∈ sources.inputs, path.normalize = path) :
    ∀ path ∈ loading.paths, path.normalize = path := by
  intro path member
  obtain ⟨unit, listed, standsIn⟩ := List.mem_filterMap.mp member
  cases steps.provenance unit listed with
  | prelude => cases standsIn
  | input queued loaded =>
    cases standsIn
    exact normal _ queued
  | imported named located same =>
    cases standsIn
    exact Path.normalize_normalize _

/-- What a change of declared types leaves of a unit accounts for it as before. -/
theorem Accounted.map {inputs : List Path} {earlier : List ProgramUnit} {unit : ProgramUnit}
    (accounted : Accounted inputs earlier unit) {change : ProgramUnit → ProgramUnit}
    (moduleId : ∀ unit, (change unit).moduleId = unit.moduleId)
    (path : ∀ unit, (change unit).path = unit.path)
    (imports : ∀ unit, (change unit).module.imports = unit.module.imports) :
    Accounted inputs (earlier.map change) (change unit) := by
  cases accounted with
  | prelude first noFile named =>
    exact .prelude (by simp [first]) ((path unit).trans noFile) ((moduleId unit).trans named)
  | input queued isModule standsIn => exact .input queued isModule ((path unit).trans standsIn)
  | runtime named => exact .runtime ((moduleId unit).trans named)
  | @imported importer _ member inside named =>
    exact .imported (List.mem_map_of_mem member) ((imports importer).symm ▸ inside)
      ((moduleId unit).trans named)

end Loading

theorem countP_path (units : List ProgramUnit) (path : Path) :
    units.countP (fun unit => unit.path = some path) =
      (units.filterMap ProgramUnit.path).count path := by
  induction units with
  | nil => rfl
  | cons unit rest ih =>
    rw [List.countP_cons, ih, List.filterMap_cons]
    cases unit.path with
    | none => simp
    | some own => simp [List.count_cons]

/-- Reading a program ends, however modules import one another, and the bound on its units does not
show; and a program compiled from a queue
has no file twice, each queued module once and the other queued files as link inputs in their
order, and every other unit is a support module or asked for by a unit before it. -/
theorem reading_ends_and_accounts (files : FileSystem) (options : Options) (queue : Queue) :
    (∀ loading, (Loading.readProgram files options queue).run {} ≠ .error .exhausted loading) ∧
      (∀ loading more, Loading.Steps (.ofQueue files options queue) Loading.opening loading →
        (Loading.satisfyAll files options.searchOrder
          (Loading.unitBound files options.searchOrder queue.paths + more) 0).run loading =
        (Loading.satisfyAll files options.searchOrder
          (Loading.unitBound files options.searchOrder queue.paths) 0).run loading) ∧
      ∀ program, queue.Filled → (Compilation.ofQueue files options queue).outcome = .ok program →
        ((program.units.filterMap ProgramUnit.path).map Path.normalize).Nodup ∧
        (∀ path ∈ queue.paths, path.suffix ∈ Loading.moduleExtensions →
          program.units.countP (fun unit => unit.path = some path) = 1) ∧
        program.linkInputs =
          queue.paths.filter (fun path => Loading.linkExtensions.contains path.suffix) ∧
        ∀ earlier unit later, program.units = earlier ++ unit :: later →
          Loading.Accounted queue.paths earlier unit := by
  refine ⟨Loading.readProgram_ne_exhausted files options queue, ?_, ?_⟩
  · intro loading more steps
    exact Loading.run_satisfyAll_add (Loading.satisfyAll_ne_exhausted steps) more
  intro program filled compiled
  obtain ⟨loading, read, rfl, _⟩ := Compilation.ofQueue_ok compiled
  obtain ⟨steps, _⟩ := Loading.readProgram_ok read
  have queueable := filled.sound.2
  obtain ⟨links, listed⟩ := Loading.readProgram_files queueable read
  have unique := (Loading.Steps.filed steps).unique
  have normal : ∀ path ∈ loading.paths, path.normalize = path :=
    Loading.Steps.normalize_of_mem_paths steps fun path member => (queueable path member).normal
  let resolve : ProgramUnit → ProgramUnit := fun unit =>
    Resolve.resolveUnit (Resolve.scopeOf loading.units unit) (Resolve.aliasGraph loading.units) unit
  have paths : (loading.units.map resolve).filterMap ProgramUnit.path = loading.paths := by
    rw [List.filterMap_map]
    rfl
  refine ⟨?_, ?_, links, ?_⟩
  · change (((loading.units.map resolve).filterMap ProgramUnit.path).map Path.normalize).Nodup
    rw [paths, List.map_congr_left normal, List.map_id']
    exact unique
  · intro path member isModule
    change (loading.units.map resolve).countP _ = 1
    rw [countP_path, paths]
    exact List.count_eq_one_of_mem unique (listed path member isModule)
  · intro earlier unit later split
    obtain ⟨first, second, whole, rfl, following⟩ := List.map_eq_append_iff.mp split
    obtain ⟨source, rest, rfl, rfl, rfl⟩ := List.map_eq_cons_iff.mp following
    exact (Loading.Steps.allAccounted steps first source rest whole).map (fun _ => rfl)
      (fun _ => rfl) fun unit => Resolve.imports_resolveUnit _ _ unit

/-- Two modules that import one another, one of them itself and the other twice, among files for the
linker. -/
def entangledFiles : FileSystem :=
  .ofEntries
    [("a.weft", .file "module a;\nimport a;\nimport b;\nimport b;\n".toUTF8.toList),
      ("b.weft", .file "module b;\nimport a;\n".toUTF8.toList),
      ("n.cc", .file []), ("o.wiro", .file [])]

def entangledQueue : Queue :=
  ⟨[⟨.relative, ["n.cc"]⟩, ⟨.relative, ["a.weft"]⟩, ⟨.relative, ["o.wiro"]⟩]⟩

theorem filled_entangledQueue : entangledQueue.Filled := by
  have native : Queue.add {} entangledFiles (.ofString "n.cc") =
      .ok ⟨[⟨.relative, ["n.cc"]⟩]⟩ := rfl
  have source : Queue.add ⟨[⟨.relative, ["n.cc"]⟩]⟩ entangledFiles (.ofString "./a.weft") =
      .ok ⟨[⟨.relative, ["n.cc"]⟩, ⟨.relative, ["a.weft"]⟩]⟩ := rfl
  have object : Queue.add ⟨[⟨.relative, ["n.cc"]⟩, ⟨.relative, ["a.weft"]⟩]⟩ entangledFiles
      (.ofString "o.wiro") = .ok entangledQueue := rfl
  exact .added (.added (.added .empty native) source) object

/-- Each of the entangled modules is in the program once. -/
theorem reading_ends_and_accounts_entangled :
    entangledQueue.Filled ∧ ∃ program,
      (Compilation.ofQueue entangledFiles .plain entangledQueue).outcome = .ok program ∧
      program.units.map ProgramUnit.moduleId = ["weft", "a", "b"] ∧
      program.linkInputs = [⟨.relative, ["n.cc"]⟩, ⟨.relative, ["o.wiro"]⟩] ∧
      program.units.countP (fun unit => unit.path = some ⟨.relative, ["a.weft"]⟩) = 1 ∧
      ∀ earlier unit later, program.units = earlier ++ unit :: later →
        Loading.Accounted entangledQueue.paths earlier unit := by
  have names : (Compilation.ofQueue entangledFiles .plain
      entangledQueue).outcome.toOption.map (fun program =>
        program.units.map ProgramUnit.moduleId) = some ["weft", "a", "b"] := by
    decide +kernel
  refine ⟨filled_entangledQueue, ?_⟩
  obtain ⟨_, _, accounts⟩ := reading_ends_and_accounts entangledFiles .plain entangledQueue
  cases compiled : (Compilation.ofQueue entangledFiles .plain entangledQueue).outcome with
  | error fault =>
    rw [compiled] at names
    cases names
  | ok program =>
    rw [compiled] at names
    obtain ⟨_, once, links, accounted⟩ := accounts program filled_entangledQueue compiled
    have linked : entangledQueue.paths.filter (fun path =>
        Loading.linkExtensions.contains path.suffix) =
          [⟨.relative, ["n.cc"]⟩, ⟨.relative, ["o.wiro"]⟩] := by
      decide
    exact ⟨program, rfl, Option.some.inj names, links.trans linked,
      once _ (by decide) (by decide), accounted⟩

end WireModules
