import Mathlib.Logic.Relation
import WireModules.Program.Compile
import WireModules.Proofs.ParsedModule

/-!
# How a program is read

Reading a program goes by steps: a line is logged, an input is passed through, or a unit is added
that stands in a queued file or in the file found for an import.
-/

set_option autoImplicit false

namespace WireModules

theorem Module.isParsed_of_load {files : FileSystem} {path : Path} {module : Module}
    (loaded : Module.load files path = .ok (.ok module)) : module.IsParsed := by
  simp only [Module.load] at loaded
  split at loaded
  · cases loaded
  · split at loaded
    · cases loaded
    · next text _ =>
      refine ⟨text, ?_⟩
      rw [Module.parse] at loaded
      cases read : Module.ofText text with
      | ok other =>
        rw [read] at loaded
        cases loaded
        rfl
      | error reason =>
        rw [read] at loaded
        cases reason <;> cases loaded

/-- The unit that a module in a file makes. -/
def ProgramUnit.inFile (path : Path) (module : Module) : ProgramUnit :=
  ⟨module.name, some path, path.suffix, module⟩

namespace Loading

def withLog (loading : Loading) (text : String) : Loading :=
  { loading with events := loading.events ++ [.logged ⟨.debug, .compiler, text⟩] }

def withUnit (loading : Loading) (unit : ProgramUnit) : Loading :=
  { loading with
    units := loading.units ++ [unit]
    events := loading.events ++ [.parsed unit] }

def withLinkInput (loading : Loading) (path : Path) : Loading :=
  { loading with linkInputs := loading.linkInputs ++ [path] }

@[simp] theorem units_withUnit (loading : Loading) (unit : ProgramUnit) :
    (loading.withUnit unit).units = loading.units ++ [unit] := rfl

/-- What a program is read from. -/
structure Sources where
  files : FileSystem
  searchOrder : List Place
  inputs : List Path

/-- The inputs that are read as modules. -/
def Sources.modules (sources : Sources) : List Path :=
  sources.inputs.filter fun path => moduleExtensions.contains path.suffix

/-- The import of a name by a unit, as a request. -/
def requestOf (unit : ProgramUnit) (imported : Import) : ImportRequest :=
  ⟨imported.name, unit.path, some imported.position⟩

/-- The request for the runtime support module. -/
def runtimeRequest : ImportRequest := { name := Support.runtimeId }

/-- Whoever asks for a module: the run itself, or a unit that imports it. -/
inductive Asks (loading : Loading) : ImportRequest → Prop where
  | runtime : Asks loading runtimeRequest
  | unit {unit : ProgramUnit} {imported : Import} : unit ∈ loading.units →
      imported ∈ unit.module.imports → Asks loading (requestOf unit imported)

/-- One step of reading. -/
inductive Step (sources : Sources) : Loading → Loading → Prop where
  | logged {loading : Loading} (text : String) : Step sources loading (loading.withLog text)
  | linked {loading : Loading} {path : Path} : path ∈ sources.inputs →
      Step sources loading (loading.withLinkInput path)
  | input {loading : Loading} {path : Path} {module : Module} : path ∈ sources.modules →
      loading.hasFile path = false → Module.load sources.files path = .ok (.ok module) →
      Step sources loading (loading.withUnit (.inFile path module))
  | imported {loading : Loading} {request : ImportRequest} {found : Path} {module : Module} :
      Asks loading request →
      findImport sources.files sources.searchOrder request moduleExtensions = .ok (some found) →
      loading.hasFile found.normalize = false →
      Module.load sources.files found.normalize = .ok (.ok module) →
      module.name = request.name →
      Step sources loading (loading.withUnit (.inFile found.normalize module))

abbrev Steps (sources : Sources) : Loading → Loading → Prop :=
  Relation.ReflTransGen (Step sources)

/-- A file that is added was added before, or its module is added now. -/
theorem addFile_ok {files : FileSystem} {path : Path} {before after : Loading}
    {added : Option ProgramUnit} (ran : (addFile files path).run before = .ok added after) :
    (added = none ∧ after = before ∧ before.hasFile path = true) ∨
      ∃ module text, added = some (.inFile path module) ∧ before.hasFile path = false ∧
        Module.load files path = .ok (.ok module) ∧
        after = (before.withLog text).withUnit (.inFile path module) := by
  unfold addFile at ran
  obtain ⟨_, _, got, ran⟩ := Action.exists_of_run_bind_eq_ok ran
  cases got
  split at ran
  · next present =>
    cases ran
    exact .inl ⟨rfl, rfl, present⟩
  · next absent =>
    split at ran
    · cases ran
    · cases ran
    · next module loaded =>
      cases ran
      exact .inr ⟨module, _, rfl, by simpa using absent, loaded, rfl⟩

theorem Step.units_prefix {sources : Sources} {before after : Loading}
    (step : Step sources before after) : before.units <+: after.units := by
  cases step with
  | logged text => exact List.prefix_rfl
  | linked queued => exact List.prefix_rfl
  | input queued absent loaded => exact List.prefix_append ..
  | imported asks located absent loaded named => exact List.prefix_append ..

theorem Steps.units_prefix {sources : Sources} {before after : Loading}
    (steps : Steps sources before after) : before.units <+: after.units := by
  induction steps with
  | refl => exact List.prefix_rfl
  | tail _ step ih => exact ih.trans step.units_prefix

/-- A module of the requested name is there, or the file that the search finds. -/
def Answered (sources : Sources) (loading : Loading) (request : ImportRequest) : Prop :=
  loading.has request.name = true ∨ ∃ found,
    findImport sources.files sources.searchOrder request moduleExtensions = .ok (some found) ∧
      loading.hasFile found.normalize = true

theorem Asks.mono {sources : Sources} {before after : Loading} {request : ImportRequest}
    (asks : Asks before request) (steps : Steps sources before after) : Asks after request := by
  cases asks with
  | runtime => exact .runtime
  | unit member inside => exact .unit (steps.units_prefix.subset member) inside

theorem Answered.mono {sources : Sources} {before after : Loading} {request : ImportRequest}
    (answered : Answered sources before request) (steps : Steps sources before after) :
    Answered sources after request := by
  have grows : ∀ {test : ProgramUnit → Bool}, before.units.any test = true →
      after.units.any test = true := by
    intro test passes
    obtain ⟨unit, member, passed⟩ := List.any_eq_true.mp passes
    exact List.any_eq_true.mpr ⟨unit, steps.units_prefix.subset member, passed⟩
  rcases answered with named | ⟨found, located, present⟩
  · exact .inl (grows named)
  · exact .inr ⟨found, located, grows present⟩

variable {sources : Sources} {before after : Loading}

theorem satisfy_ok {request : ImportRequest} (asks : Asks before request)
    (ran : (satisfy sources.files sources.searchOrder request).run before = .ok () after) :
    Steps sources before after ∧ Answered sources after request := by
  unfold satisfy at ran
  split at ran
  · cases ran
  · cases ran
  · next found located =>
    obtain ⟨added, between, ranAdd, checked⟩ := Action.exists_of_run_bind_eq_ok ran
    rcases addFile_ok ranAdd with ⟨rfl, rfl, present⟩ | ⟨module, text, rfl, absent, loaded, rfl⟩
    · cases checked
      exact ⟨.refl, .inr ⟨found, located, present⟩⟩
    · dsimp only at checked
      split at checked
      · cases checked
      · next named =>
        cases checked
        have named : module.name = request.name := Decidable.not_not.mp named
        have logged : Steps sources before (before.withLog text) := .single (.logged text)
        have steps := logged.tail (.imported (asks.mono logged) located absent loaded named)
        exact ⟨steps, .inl (by simp [has, ProgramUnit.inFile, named])⟩

theorem satisfyImport_ok {unit : ProgramUnit} {imported : Import} (member : unit ∈ before.units)
    (inside : imported ∈ unit.module.imports)
    (ran : (satisfyImport sources.files sources.searchOrder unit imported).run before =
      .ok () after) :
    Steps sources before after ∧ Answered sources after (requestOf unit imported) := by
  unfold satisfyImport at ran
  obtain ⟨_, _, got, ran⟩ := Action.exists_of_run_bind_eq_ok ran
  cases got
  split at ran
  · exact satisfy_ok (.unit member inside) ran
  · next named =>
    cases ran
    exact ⟨.refl, .inl (by simpa [requestOf] using named)⟩

theorem satisfyImports_ok {unit : ProgramUnit} {imports : List Import}
    (member : unit ∈ before.units) (inside : ∀ imported ∈ imports, imported ∈ unit.module.imports)
    (ran : (imports.forM (satisfyImport sources.files sources.searchOrder unit)).run before =
      .ok () after) :
    Steps sources before after ∧
      ∀ imported ∈ imports, Answered sources after (requestOf unit imported) := by
  induction imports generalizing before with
  | nil =>
    cases ran
    exact ⟨.refl, by simp⟩
  | cons imported rest ih =>
    obtain ⟨between, ranFirst, ranRest⟩ := Action.exists_of_run_forM_cons_eq_ok ran
    obtain ⟨first, answered⟩ := satisfyImport_ok member (inside imported (.head _)) ranFirst
    obtain ⟨later, others⟩ := ih (first.units_prefix.subset member)
      (fun other later => inside other (.tail _ later)) ranRest
    refine ⟨first.trans later, ?_⟩
    intro other listed
    rcases List.mem_cons.mp listed with rfl | listed
    · exact answered.mono later
    · exact others other listed

/-- From the index on, all imports of all units are answered, units added on the way included. -/
theorem satisfyAll_ok {fuel index : Nat}
    (ran : (satisfyAll sources.files sources.searchOrder fuel index).run before = .ok () after) :
    Steps sources before after ∧ ∀ position unit, index ≤ position →
      after.units[position]? = some unit → ∀ imported ∈ unit.module.imports,
        Answered sources after (requestOf unit imported) := by
  induction fuel generalizing index before with
  | zero => cases ran
  | succ fuel ih =>
    unfold satisfyAll at ran
    obtain ⟨_, _, got, ran⟩ := Action.exists_of_run_bind_eq_ok ran
    cases got
    split at ran
    · next past =>
      cases ran
      refine ⟨.refl, ?_⟩
      intro position unit reached present
      have ended := List.getElem?_eq_none_iff.mp past
      rw [List.getElem?_eq_none (Nat.le_trans ended reached)] at present
      cases present
    · next unit present =>
      obtain ⟨_, between, ranImports, ranRest⟩ := Action.exists_of_run_bind_eq_ok ran
      obtain ⟨first, answered⟩ := satisfyImports_ok (List.mem_of_getElem? present)
        (fun _ member => member) ranImports
      obtain ⟨later, others⟩ := ih ranRest
      refine ⟨first.trans later, ?_⟩
      intro position other reached found
      rcases Nat.eq_or_lt_of_le reached with rfl | beyond
      · obtain ⟨more, grown⟩ := Steps.units_prefix (first.trans later)
        rw [← grown, List.getElem?_append_left (List.getElem?_eq_some_iff.mp present).1,
          present] at found
        cases found
        exact fun imported member => (answered imported member).mono later
      · exact others position other beyond found

theorem isParsed_iff_of_inputKind? {path : Path} {kind : InputKind}
    (known : path.inputKind? = some kind) :
    kind.isParsed = true ↔ path.suffix ∈ moduleExtensions := by
  unfold Path.inputKind? InputKind.ofExtension? at known
  split at known <;> cases known <;> simp_all [InputKind.isParsed, moduleExtensions]

theorem addInput_ok {path : Path} (queued : path ∈ sources.inputs)
    (ran : (addInput sources.files path).run before = .ok () after) :
    Steps sources before after := by
  unfold addInput at ran
  split at ran
  · next kind known =>
    split at ran
    · next parsed =>
      have isModule : path ∈ sources.modules := by
        simp [Sources.modules, queued, (isParsed_iff_of_inputKind? known).mp parsed]
      obtain ⟨added, between, ranAdd, same⟩ := Action.exists_of_run_bind_eq_ok ran
      cases same
      rcases addFile_ok ranAdd with ⟨_, rfl, _⟩ | ⟨module, text, _, absent, loaded, rfl⟩
      · exact .refl
      · exact .tail (.single (.logged text)) (.input isModule absent loaded)
    · cases ran
      exact Relation.ReflTransGen.tail (.single (.logged _)) (.linked queued)
  · cases ran
    exact .refl

theorem addInputs_ok {paths : List Path} (queued : ∀ path ∈ paths, path ∈ sources.inputs)
    (ran : (paths.forM (addInput sources.files)).run before = .ok () after) :
    Steps sources before after :=
  Action.forM_reaches (fun _ => .refl) (fun first second => first.trans second)
    (fun path member _ _ ranInput => addInput_ok (queued path member) ranInput) ran

/-- What a program starts with. -/
def opening : Loading := Loading.withUnit {} .prelude

/-- What a queue is compiled from. -/
def Sources.ofQueue (files : FileSystem) (options : Options) (queue : Queue) : Sources :=
  ⟨files, options.searchOrder, queue.paths⟩

/-- Reading once the support modules are there. -/
def readQueued (files : FileSystem) (options : Options) (queue : Queue) : Action Loading Unit := do
  queue.paths.forM (addInput files)
  satisfyAll files options.searchOrder (unitBound files options.searchOrder queue.paths) 0

theorem run_readProgram (files : FileSystem) (options : Options) (queue : Queue) :
    (readProgram files options queue).run {} =
      if options.autoImportRuntime then
        (satisfy files options.searchOrder runtimeRequest >>= fun _ =>
          readQueued files options queue).run opening
      else (readQueued files options queue).run opening := by
  unfold readProgram
  rw [EStateM.run_bind]
  change EStateM.run _ opening = _
  cases options.autoImportRuntime <;> rfl

/-- Reading a program goes by steps from the prelude, until all imports are answered. -/
theorem readProgram_ok {files : FileSystem} {options : Options} {queue : Queue}
    {loading : Loading} (ran : (readProgram files options queue).run {} = .ok () loading) :
    Steps (.ofQueue files options queue) opening loading ∧
      ∀ unit ∈ loading.units, ∀ imported ∈ unit.module.imports,
        Answered (.ofQueue files options queue) loading (requestOf unit imported) := by
  let sources : Sources := .ofQueue files options queue
  obtain ⟨started, first, ranQueued⟩ : ∃ started, Steps sources opening started ∧
      (readQueued files options queue).run started = .ok () loading := by
    rw [run_readProgram] at ran
    split at ran
    · obtain ⟨_, started, ranSatisfy, ranQueued⟩ := Action.exists_of_run_bind_eq_ok ran
      have satisfied : Steps sources opening started ∧ _ := satisfy_ok .runtime ranSatisfy
      exact ⟨started, satisfied.1, ranQueued⟩
    · exact ⟨opening, .refl, ran⟩
  obtain ⟨_, queued, ranInputs, ranImports⟩ := Action.exists_of_run_bind_eq_ok ranQueued
  have second : Steps sources started queued := addInputs_ok (fun _ member => member) ranInputs
  obtain ⟨third, answered⟩ : Steps sources queued loading ∧ _ := satisfyAll_ok ranImports
  refine ⟨(first.trans second).trans third, ?_⟩
  intro unit member
  obtain ⟨position, present⟩ := List.mem_iff_getElem?.mp member
  exact answered position unit (Nat.zero_le position) present

theorem isParsed_withUnit {files : FileSystem} {loading : Loading} {path : Path} {module : Module}
    (parsed : ∀ unit ∈ loading.units, unit.IsParsed)
    (loaded : Module.load files path = .ok (.ok module)) :
    ∀ unit ∈ (loading.withUnit (.inFile path module)).units, unit.IsParsed :=
  List.forall_mem_append.mpr
    ⟨parsed, List.forall_mem_singleton.mpr ⟨rfl, Module.isParsed_of_load loaded⟩⟩

theorem Steps.isParsed {loading : Loading} (steps : Steps sources opening loading) :
    ∀ unit ∈ loading.units, unit.IsParsed := by
  induction steps with
  | refl =>
    intro unit member
    cases List.mem_singleton.mp member
    exact ProgramUnit.isParsed_prelude
  | tail _ step ih =>
    cases step with
    | logged text => exact ih
    | linked queued => exact ih
    | input queued absent loaded => exact isParsed_withUnit ih loaded
    | imported asks located absent loaded named => exact isParsed_withUnit ih loaded

end Loading

namespace Compilation

/-- A compilation that gives a program has read it, resolved it without error and tells of both. -/
theorem ofQueue_ok {files : FileSystem} {options : Options} {queue : Queue} {program : Program}
    (compiled : (ofQueue files options queue).outcome = .ok program) :
    ∃ loading, (Loading.readProgram files options queue).run {} = .ok () loading ∧
      program = ⟨(Resolution.ofUnits loading.units).units, loading.linkInputs⟩ ∧
      (ofQueue files options queue).events =
        loading.events ++
          [.logged ⟨.debug, .compiler,
            "resolving " ++ toString loading.units.length ++ " module(s)"⟩] ++
          program.units.map .resolved ++ [.finished program] := by
  unfold ofQueue at compiled ⊢
  split at compiled
  · cases compiled
  · next loading ran =>
    unfold ofLoading at compiled ⊢
    dsimp only at compiled ⊢
    split at compiled
    · cases compiled
    · next silent =>
      cases compiled
      refine ⟨loading, ran, rfl, ?_⟩
      rw [if_neg silent]

end Compilation

end WireModules
