import WireModules.Proofs.CheckedGlue
import WireModules.Proofs.LoadOutcome
import WireModules.Proofs.LocatedPaths
import WireModules.Proofs.UnreadTraces

/-!
# The order of inputs

Glue files go to the coordinator and all other inputs wait in the queue, and neither looks at the other
until a run compiles. So what a run comes to depends on the order of its glue files and on the order of
its other inputs, but not on how the two are mixed.
-/

set_option autoImplicit false

namespace WireModules

/-! ## The file that a request stands for -/

namespace FileSystem

variable {files : FileSystem} {requested path : Path} {places : List Place}

/-- Where there is a working directory, a request that stands for a plain file has its name. -/
theorem name_of_resolveInput (stands : files.contains .here = .ok true) (clean : requested.IsClean)
    (cleanPlaces : ∀ directory, .path directory ∈ places → directory.IsClean)
    (resolved : files.resolveInput requested none places = .ok path)
    (isFile : files.isFile path = .ok true) : path.name = requested.name := by
  obtain ⟨_, found, first, present, rfl, rfl | ⟨absent, relative, directory, member, rfl⟩⟩ :=
    exists_of_resolveInput resolved <;> cases first
  · exact name_normalize clean present isFile
  · rw [name_normalize ((cleanPlaces directory member).div clean) present isFile]
    have filled : requested.components ≠ [] := by
      intro empty
      have isHere : requested = .here := by
        obtain ⟨anchor, components⟩ := requested
        simp_all [Path.here, Path.isAbsolute]
      rw [isHere, stands] at absent
      cases absent
    have joined : directory / requested =
        ⟨directory.anchor, directory.components ++ requested.components⟩ :=
      if_neg (by simp [relative])
    obtain ⟨last, isLast⟩ := Option.isSome_iff_exists.mp (List.getLast?_isSome.mpr filled)
    rw [joined, Path.name, Path.name, List.getLast?_append, isLast, Option.some_or]

end FileSystem

/-! ## The two parts of a session -/

/-- All that a binder has loaded are plain files. -/
def GlueBinder.KnowsFiles (files : FileSystem) (binder : GlueBinder) : Prop :=
  ∀ loaded ∈ binder.files, files.isFile loaded.path = .ok true

theorem FileSystem.isFile_of_glueFile? {files : FileSystem} {path : Path} {glue : GlueFile}
    (given : files.glueFile? path = some glue) : files.isFile path = .ok true := by
  rw [glueFile?, readSource] at given
  cases opened : files.read path with
  | error error => simp [opened] at given
  | ok content =>
    rw [read] at opened
    rw [isFile, standing]
    split at opened
    · cases opened
    next location looked =>
    split at opened
    · cases opened
    split at opened
    · next bytes found =>
      rw [looked]
      dsimp only
      rw [found]
      rfl
    · cases opened
    · cases opened

namespace GlueBinder

variable {files : FileSystem} {path : Path} {binder : GlueBinder}

/-- What a binder takes is a plain file, now or when it was loaded. -/
theorem KnowsFiles.load (knows : binder.KnowsFiles files)
    (granted : (load files path binder).answer = .ok true) :
    files.isFile path.normalize = .ok true ∧
      (GlueBinder.load files path binder).state.KnowsFiles files := by
  rcases load_granted granted with ⟨present, same⟩ | ⟨_, glue, read, state⟩
  · obtain ⟨loaded, member, isPath⟩ := List.any_eq_true.mp present
    rw [same]
    exact ⟨of_decide_eq_true isPath ▸ knows loaded member, knows⟩
  · have isFile := FileSystem.isFile_of_glueFile? read
    rw [state]
    exact ⟨isFile, List.forall_mem_append.mpr ⟨knows, List.forall_mem_singleton.mpr isFile⟩⟩

/-- The binder after it has loaded a file, if it takes the file. -/
def taking (files : FileSystem) (binder : GlueBinder) (path : Path) : Option GlueBinder :=
  let reply := load files path binder
  match reply.answer with
  | .ok true => some reply.state
  | _ => none

theorem KnowsFiles.taking {later : GlueBinder} (knows : binder.KnowsFiles files)
    (takes : binder.taking files path = some later) :
    files.isFile path.normalize = .ok true ∧ later.KnowsFiles files := by
  rw [GlueBinder.taking] at takes
  split at takes
  · next granted =>
    cases takes
    exact knows.load granted
  · cases takes

end GlueBinder

/-- The queue after a file was added, if it can be queued. -/
def Queue.taking (files : FileSystem) (queue : Queue) (path : Path) : Option Queue :=
  (queue.add files path).toOption

theorem Queue.isFile_of_taking {queue later : Queue} {files : FileSystem} {path : Path}
    (takes : queue.taking files path = some later) : files.isFile path.normalize = .ok true :=
  (add_ok (eq_ok_of_toOption takes)).2.1

namespace CommandLine

open Session

variable {files : FileSystem} {places : List Place} {before : Session GlueBinder}
  {requested path : Path}

/-- The session that an action leaves if it succeeds, without its trace. -/
def leaves? {α : Type} : EStateM.Result Fault (Session GlueBinder) α → Option (Session GlueBinder)
  | .ok _ after => some after.untraced
  | .error _ _ => none

/-- A session that loads inputs. -/
structure IsLoading (files : FileSystem) (places : List Place) (session : Session GlueBinder) :
    Prop where
  stage : session.stage = .loading
  opened : session.closed = false
  places : session.options.searchOrder = places
  knows : session.glue.KnowsFiles files

/-- There is a working directory, and the places to search are as they are read from texts. -/
structure WellPlaced (files : FileSystem) (places : List Place) : Prop where
  stands : files.contains .here = .ok true
  clean : ∀ directory, .path directory ∈ places → directory.IsClean

/-- What a session has scheduled, with one more file for the binder or for the queue. -/
def scheduling (files : FileSystem) (session : Session GlueBinder) (isGlue : Bool) (path : Path) :
    Option (Session GlueBinder) :=
  if isGlue then (session.glue.taking files path).map fun glue => { session.untraced with glue }
  else (session.queue.taking files path).map fun queue => { session.untraced with queue }

theorem leaves?_scheduled (normal : path.normalize = path) :
    leaves? (before.scheduled .standard files path) = scheduling files before path.isGlue path := by
  rw [scheduled, scheduling, Path.isGlue, GlueBinder.taking, Queue.taking]
  split
  · next isNone =>
    have refused : before.queue.add files path =
        .error (.failure (.notACompilerInput (toString path))) := by
      rw [Queue.add, normal, isNone]
      rfl
    simp [isNone, leaves?, refused, Except.toOption]
  · next isGlue =>
    rw [if_pos (by simp [isGlue])]
    dsimp only [GlueBinder.coordinator]
    cases (GlueBinder.load files path before.glue).answer with
    | error fault => rfl
    | ok granted => cases granted <;> rfl
  · next kind notGlue isKind =>
    rw [if_neg (by simpa [isKind] using notGlue)]
    dsimp only [FrontEnd.standard]
    cases before.queue.add files path <;> rfl

/-- Nothing is scheduled where there is no plain file, whatever it is taken for. -/
theorem scheduling_of_not_isFile (loading : IsLoading files places before)
    (normal : path.normalize = path) (notFile : files.isFile path ≠ .ok true) (isGlue : Bool) :
    scheduling files before isGlue path = none := by
  have absent : files.isFile path.normalize ≠ .ok true := normal.symm ▸ notFile
  rw [scheduling]
  split
  · cases takes : before.glue.taking files path with
    | none => rfl
    | some later => exact absurd (loading.knows.taking takes).1 absent
  · cases takes : before.queue.taking files path with
    | none => rfl
    | some later => exact absurd (Queue.isFile_of_taking takes) absent

/-- A load schedules what is found by what was asked for, since a plain file keeps its name. -/
theorem leaves?_load (placed : WellPlaced files places) (clean : requested.IsClean)
    (loading : IsLoading files places before) :
    leaves? ((Session.load .standard files requested none).run before) =
      (files.resolveInput requested none places).toOption.bind
        (scheduling files before requested.isGlue) := by
  have begun : before.beginLoading = before := by
    rw [beginLoading, loading.stage]
    rfl
  have opened : ¬before.closed = true := by simp [loading.opened]
  rw [run_load, if_neg opened, begun, loading.places]
  cases resolved : files.resolveInput requested none places with
  | error fault => rfl
  | ok path =>
    have normal : path.normalize = path := FileSystem.normalize_of_resolveInput resolved
    change leaves? (before.scheduled .standard files path) = scheduling files before _ path
    rw [leaves?_scheduled normal]
    by_cases isFile : files.isFile path = .ok true
    · have sameName := FileSystem.name_of_resolveInput placed.stands clean placed.clean resolved isFile
      rw [Path.isGlue, Path.isGlue, Path.inputKind?, Path.inputKind?, Path.suffix, Path.suffix,
        sameName]
    · rw [scheduling_of_not_isFile loading normal isFile,
        scheduling_of_not_isFile loading normal isFile]

/-! ## All inputs -/

/-- What becomes of a part of a session by a request, if it takes what is found. -/
def answering {σ : Type} (taking : σ → Path → Option σ) (files : FileSystem) (places : List Place)
    (part : σ) (requested : Path) : Option σ :=
  (files.resolveInput requested none places).toOption.bind (taking part)

/-- Load some inputs, one after the other. -/
def loadAll (files : FileSystem) (inputs : List Path) : Action (Session GlueBinder) Unit :=
  inputs.forM fun input => discard (Session.load .standard files input none)

theorem run_loadAll_cons (input : Path) (rest : List Path) (before : Session GlueBinder) :
    (loadAll files (input :: rest)).run before =
      match (Session.load .standard files input none).run before with
      | .ok _ between => (loadAll files rest).run between
      | .error fault after => .error fault after := by
  have unfolded : (loadAll files (input :: rest)).run before =
      ((Session.load .standard files input none >>= fun _ => pure PUnit.unit) >>= fun _ =>
        loadAll files rest).run before := rfl
  rw [unfolded, EStateM.run_bind, EStateM.run_bind]
  cases (Session.load .standard files input none).run before <;> rfl

theorem leaves?_loadAll_cons {input : Path} {rest : List Path}
    {later : Session GlueBinder → Option (Session GlueBinder)}
    (continues : ∀ path between,
      (Session.load .standard files input none).run before = .ok path between →
        leaves? ((loadAll files rest).run between) = later between.untraced) :
    leaves? ((loadAll files (input :: rest)).run before) =
      (leaves? ((Session.load .standard files input none).run before)).bind later := by
  rw [run_loadAll_cons]
  cases ran : (Session.load .standard files input none).run before with
  | error fault after => rfl
  | ok path between => exact continues path between ran

theorem IsLoading.of_scheduling {isGlue : Bool} {after : Session GlueBinder}
    (loading : IsLoading files places before)
    (schedules : scheduling files before isGlue path = some after.untraced) :
    IsLoading files places after := by
  have kept : ∀ {session : Session GlueBinder}, session = after.untraced →
      session.stage = before.stage → session.closed = before.closed →
      session.options = before.options → session.glue.KnowsFiles files →
      IsLoading files places after := by
    rintro _ rfl stage closed options knows
    exact ⟨stage.trans loading.stage, closed.trans loading.opened,
      (congrArg Options.searchOrder options).trans loading.places, knows⟩
  rw [scheduling] at schedules
  split at schedules
  · obtain ⟨glue, takes, same⟩ := Option.map_eq_some_iff.mp schedules
    exact kept same rfl rfl rfl (loading.knows.taking takes).2
  · obtain ⟨queue, _, same⟩ := Option.map_eq_some_iff.mp schedules
    exact kept same rfl rfl rfl loading.knows

/-- What is left of a session by requests: the binder takes what is found for glue files, and the queue
what is found for all others, each in order. -/
def answeringAll (files : FileSystem) (places : List Place) (session : Session GlueBinder)
    (inputs : List Path) : Option (Session GlueBinder) :=
  ((inputs.filter Path.isGlue).foldlM (answering (GlueBinder.taking files) files places)
    session.glue).bind fun glue =>
  ((inputs.filter fun input => !input.isGlue).foldlM (answering (Queue.taking files) files places)
    session.queue).map fun queue => { session.untraced with glue, queue }

/-- The first request goes to the one part or to the other, which does not meet the rest of requests to
the other part. -/
theorem answeringAll_cons (input : Path) (rest : List Path) :
    answeringAll files places before (input :: rest) =
      ((files.resolveInput input none places).toOption.bind
        (scheduling files before input.isGlue)).bind fun between =>
          answeringAll files places between rest := by
  cases isGlue : input.isGlue with
  | true =>
    have first : ((files.resolveInput input none places).toOption.bind (scheduling files before true)) =
        (answering (GlueBinder.taking files) files places before.glue input).map fun glue =>
          { before.untraced with glue } := by
      rw [answering, Option.map_bind]
      rfl
    rw [first, answeringAll, List.filter_cons_of_pos isGlue,
      List.filter_cons_of_neg (by simp [isGlue]), List.foldlM_cons]
    cases answering (GlueBinder.taking files) files places before.glue input <;> rfl
  | false =>
    have first : ((files.resolveInput input none places).toOption.bind (scheduling files before false)) =
        (answering (Queue.taking files) files places before.queue input).map fun queue =>
          { before.untraced with queue } := by
      rw [answering, Option.map_bind]
      rfl
    rw [first, answeringAll, List.filter_cons_of_neg (by simp [isGlue]),
      List.filter_cons_of_pos (by simp [isGlue]), List.foldlM_cons]
    cases answering (Queue.taking files) files places before.queue input with
    | none => simp
    | some queue => rfl

theorem leaves?_loadAll (placed : WellPlaced files places) {inputs : List Path}
    (clean : ∀ input ∈ inputs, input.IsClean) (loading : IsLoading files places before) :
    leaves? ((loadAll files inputs).run before) = answeringAll files places before inputs := by
  induction inputs generalizing before with
  | nil => rfl
  | cons input rest ih =>
    obtain ⟨own, others⟩ := List.forall_mem_cons.mp clean
    have step := leaves?_load placed own loading
    have continues : ∀ path between,
        (Session.load .standard files input none).run before = .ok path between →
          leaves? ((loadAll files rest).run between) =
            answeringAll files places between.untraced rest := by
      intro path between ran
      rw [ran] at step
      obtain ⟨found, _, schedules⟩ := Option.bind_eq_some_iff.mp step.symm
      exact ih others (loading.of_scheduling schedules)
    have composed : leaves? ((loadAll files (input :: rest)).run before) =
        (leaves? ((Session.load .standard files input none).run before)).bind fun between =>
          answeringAll files places between rest := leaves?_loadAll_cons continues
    rw [composed, step, answeringAll_cons]

/-! ## Runs -/

/-- What is left of a run when all inputs are loaded. -/
def finish (output : Option Place) (files : FileSystem) : Action (Session GlueBinder) FileSystem := do
  let program ← Session.compile .standard files
  match output with
  | none => return files
  | some place => writeManifest (← manifestOf program) files place

theorem blind_writeManifest (manifest : Manifest) (files : FileSystem) (place : Place) :
    Blind (writeManifest manifest files place) := by
  cases place with
  | nowhere => exact .throw _
  | path path =>
    unfold writeManifest
    dsimp only
    split
    · refine .bind (.throw _) fun _ => ?_
      split
      · exact .pure _
      · exact .throw _
    · split
      · exact .pure _
      · exact .throw _

theorem blind_finish (output : Option Place) (files : FileSystem) : Blind (finish output files) := by
  refine .bind (blind_compile (fun _ _ => rfl) files) fun program => ?_
  split
  · exact .pure _
  next place =>
  refine .bind (.read (fun _ => rfl) fun session => ?_) fun manifest => blind_writeManifest _ _ _
  exact .bind blind_reportExports fun exports => .read (fun _ => rfl) fun session => .pure _

/-- What a run makes of its inputs depends on what is left when they are loaded, and not on the trace of
the loads. -/
theorem outcome?_work (arguments : Arguments) (files : FileSystem) (before : Session GlueBinder) :
    (work arguments files).outcome? before =
      (leaves? ((loadAll files arguments.inputs).run before)).bind fun loaded =>
        (finish arguments.output files).outcome? loaded := by
  have unfolded : work arguments files =
      loadAll files arguments.inputs >>= fun _ => finish arguments.output files := rfl
  rw [unfolded, Action.outcome?, EStateM.run_bind]
  cases (loadAll files arguments.inputs).run before with
  | error fault after => rfl
  | ok _ after =>
    have same : after.untraced = after.untraced.untraced := rfl
    exact (blind_finish arguments.output files).outcome? same

theorem isLoading_start (options : Options) :
    IsLoading files options.searchOrder (start .standard options {}).beginLoading where
  stage := rfl
  opened := rfl
  places := rfl
  knows := nofun

theorem run_loadAll_start {options : Options} {inputs : List Path} (filled : inputs ≠ []) :
    (loadAll files inputs).run (start .standard options {}) =
      (loadAll files inputs).run (start .standard options {}).beginLoading := by
  cases inputs with
  | nil => exact absurd rfl filled
  | cons input rest =>
    have same : (Session.load .standard files input none).run (start .standard options {}) =
        (Session.load .standard files input none).run
          (start .standard options {}).beginLoading := by
      rw [run_load, run_load]
      rfl
    rw [run_loadAll_cons, run_loadAll_cons, same]

/-! ## Words -/

/-- All paths that are given are as they are read from texts. -/
structure Arguments.IsClean (arguments : Arguments) : Prop where
  inputs : ∀ input ∈ arguments.inputs, input.IsClean
  places : ∀ directory, .path directory ∈ arguments.libraryPaths → directory.IsClean

namespace Arguments

variable {arguments after : Arguments}

theorem IsClean.setFlags {switches : List Switch} (clean : arguments.IsClean)
    (set : arguments.setFlags switches = .ok after) : after.IsClean := by
  induction switches generalizing arguments with
  | nil =>
    cases set
    exact clean
  | cons switch rest ih =>
    obtain ⟨between, first, others⟩ := exists_of_bind_eq_ok set
    refine ih ?_ others
    cases switch <;> cases first <;> exact ⟨clean.inputs, clean.places⟩

theorem IsClean.setValue (clean : arguments.IsClean) (switch : Switch) (value : String) :
    (arguments.setValue switch value).IsClean := by
  rw [Arguments.setValue]
  split
  · exact ⟨clean.inputs, clean.places⟩
  · refine ⟨clean.inputs, fun directory member => ?_⟩
    rcases List.mem_append.mp member with earlier | own
    · exact clean.places directory earlier
    · rw [List.mem_singleton, placeOf] at own
      split at own
      · cases own
      · cases own
        exact Path.isClean_ofString value

theorem isClean_takePlain {progress : Progress} (clean : progress.arguments.IsClean) (text : String) :
    (progress.takePlain text).arguments.IsClean := by
  rw [Progress.takePlain]
  split
  · exact clean
  · refine ⟨?_, clean.places⟩
    exact List.forall_mem_append.mpr
      ⟨clean.inputs, List.forall_mem_singleton.mpr (Path.isClean_ofString text)⟩

theorem arguments_endInputs (progress : Progress) :
    progress.endInputs.arguments = progress.arguments := by
  rw [Progress.endInputs]
  split <;> rfl

theorem arguments_takeEnd (progress : Progress) : progress.takeEnd.arguments = progress.arguments := by
  rw [Progress.takeEnd]
  split <;> rfl

theorem isClean_takeFlags {progress taken : Progress} {switches : List Switch}
    (clean : progress.arguments.IsClean)
    (takes : progress.endInputs.takeFlags switches = .ok taken) : taken.arguments.IsClean := by
  obtain ⟨flagged, set, ended⟩ := exists_of_bind_eq_ok takes
  cases ended
  rw [arguments_endInputs] at set
  exact clean.setFlags set

theorem isClean_readWords {progress ended : Progress} {words : List Word}
    (clean : progress.arguments.IsClean) (ran : progress.readWords words = .ok ended) :
    ended.arguments.IsClean := by
  fun_induction Progress.readWords progress words with
  | case1 progress =>
    cases ran
    exact clean
  | case2 progress text rest ih => exact ih (isClean_takePlain clean text) ran
  | case3 progress rest ih => exact ih (arguments_takeEnd progress ▸ clean) ran
  | case4 progress text rest ih =>
    have kept : (progress.endInputs.takeUnknown text).arguments = progress.arguments :=
      arguments_endInputs progress
    exact ih (kept ▸ clean) ran
  | case5 => cases ran
  | case6 progress reading rest flags switch value _ ih =>
    obtain ⟨taken, flagged, others⟩ := exists_of_bind_eq_ok ran
    exact ih taken ((isClean_takeFlags clean flagged).setValue switch value) others
  | case7 progress reading flags switch _ _ value rest ih =>
    obtain ⟨taken, flagged, others⟩ := exists_of_bind_eq_ok ran
    exact ih taken ((isClean_takeFlags clean flagged).setValue switch value) others
  | case8 => cases ran
  | case9 progress reading rest flags switch _ _ ih =>
    obtain ⟨taken, flagged, others⟩ := exists_of_bind_eq_ok ran
    exact ih taken (isClean_takeFlags clean flagged) others

theorem isClean_ofWords {words : List String} (read : ofWords words = .ok arguments) :
    arguments.IsClean := by
  rw [ofWords] at read
  split at read
  · cases read
  split at read
  · cases read
  next ended ran =>
  split at read
  · cases read
    have fresh : ({} : Progress).arguments.IsClean := by
      constructor <;> exact fun _ member => absurd member List.not_mem_nil
    exact isClean_readWords fresh ran
  · cases read

theorem IsClean.searchOrder (clean : arguments.IsClean) {bundled : Path} (bundledClean : bundled.IsClean)
    (entry : Option String) :
    ∀ directory, .path directory ∈ (optionsOf arguments bundled entry).searchOrder →
      directory.IsClean := by
  have libraries : ∀ directory,
      .path directory ∈ (optionsOf arguments bundled entry).libraryPaths → directory.IsClean := by
    intro directory member
    rcases List.mem_append.mp member with given | extra
    · exact clean.places directory given
    · obtain ⟨text, _, same⟩ := List.mem_map.mp extra
      cases same
      exact Path.isClean_ofString _
  intro directory member
  rw [Options.searchOrder] at member
  split at member
  · exact libraries directory member
  · rcases List.mem_append.mp member with library | last
    · exact libraries directory library
    · cases List.mem_singleton.mp last
      exact bundledClean

/-- What two lists of words are read as differs in nothing but how glue files and other inputs are mixed,
or both are refused, or both ask for the same text. -/
inductive MixedOtherwise : Except Halt Arguments → Except Halt Arguments → Prop where
  | read {arguments : Arguments} {inputs : List Path} :
      inputs.filter Path.isGlue = arguments.inputs.filter Path.isGlue →
      (inputs.filter fun input => !input.isGlue) =
        (arguments.inputs.filter fun input => !input.isGlue) →
      MixedOtherwise (.ok arguments) (.ok { arguments with inputs })
  | shown (halt : Halt) : MixedOtherwise (.error halt) (.error halt)
  | refused (first second : UsageError) :
      MixedOtherwise (.error (.refused first)) (.error (.refused second))

end Arguments

/-! ## What a run comes to -/

/-- The status with which a run ends; it is 1 also for a fault that is not reported. -/
def exitStatus : Except Fault Outcome → Nat
  | .ok outcome => outcome.status
  | .error _ => 1

theorem process_ends (arguments : Arguments) (options : Options) (files : FileSystem) :
    match (work arguments files).outcome? (start .standard options {}) with
    | some written => ∃ outcome, process arguments options files = .ok outcome ∧ outcome.status = 0 ∧
        outcome.output = (if arguments.json then successJson.line ++ "\n" else "") ∧
        outcome.files = written
    | none => exitStatus (process arguments options files) = 1 := by
  rw [process, Action.outcome?]
  cases (work arguments files).run (start .standard options {}) with
  | ok written session => exact ⟨_, rfl, rfl, rfl, rfl⟩
  | error fault session => cases fault <;> rfl

theorem eq_nil_iff_filters {α : Type} (test : α → Bool) {items : List α} :
    items = [] ↔ items.filter test = [] ∧ (items.filter fun item => !test item) = [] := by
  constructor
  · rintro rfl
    exact ⟨rfl, rfl⟩
  · rintro ⟨none, others⟩
    rw [List.filter_eq_nil_iff] at none others
    refine List.eq_nil_iff_forall_not_mem.mpr fun item member => ?_
    exact others item member (by simpa using none item member)

/-- Work on inputs that are mixed otherwise gives the same. -/
theorem outcome?_work_of_mixed {arguments : Arguments} {inputs : List Path} {options : Options}
    (placed : WellPlaced files options.searchOrder) (filled : arguments.inputs ≠ [])
    (filledOther : inputs ≠ []) (clean : ∀ input ∈ arguments.inputs, input.IsClean)
    (cleanOther : ∀ input ∈ inputs, input.IsClean)
    (glue : inputs.filter Path.isGlue = arguments.inputs.filter Path.isGlue)
    (rest : (inputs.filter fun input => !input.isGlue) =
      (arguments.inputs.filter fun input => !input.isGlue)) :
    (work { arguments with inputs } files).outcome? (start .standard options {}) =
      (work arguments files).outcome? (start .standard options {}) := by
  rw [outcome?_work, outcome?_work, run_loadAll_start filled, run_loadAll_start filledOther,
    leaves?_loadAll placed clean (isLoading_start options),
    leaves?_loadAll placed cleanOther (isLoading_start options), answeringAll, answeringAll, glue,
    rest]

/-- However the glue files are mixed with the other inputs, as long as both stay in their order, a run
ends with the same status, and if it succeeds, with the same output and the same files on disk, the
manifest among them. -/
theorem mixed_inputs_end_alike {words others : List String} {bundled : Path}
    {entry : Option String} {files : FileSystem} (stands : files.contains .here = .ok true)
    (bundledClean : bundled.IsClean)
    (mixed : Arguments.MixedOtherwise (Arguments.ofWords words) (Arguments.ofWords others)) :
    exitStatus (run words bundled entry files) = exitStatus (run others bundled entry files) ∧
      (exitStatus (run words bundled entry files) = 0 → ∃ first second,
        run words bundled entry files = .ok first ∧ run others bundled entry files = .ok second ∧
        first.output = second.output ∧ first.files = second.files) := by
  rw [run, run]
  generalize read : Arguments.ofWords words = result at mixed
  generalize readOther : Arguments.ofWords others = resultOther at mixed
  cases mixed with
  | shown halt =>
    refine ⟨rfl, fun success => ?_⟩
    cases halt with
    | help => exact ⟨_, _, rfl, rfl, rfl, rfl⟩
    | version => exact ⟨_, _, rfl, rfl, rfl, rfl⟩
    | refused error => cases success
  | refused first second =>
    refine ⟨rfl, fun success => ?_⟩
    cases success
  | @read arguments inputs glue rest =>
    have clean := Arguments.isClean_ofWords read
    have cleanOther := (Arguments.isClean_ofWords readOther).inputs
    dsimp only
    split
    · exact ⟨rfl, fun _ => ⟨_, _, rfl, rfl, rfl, rfl⟩⟩
    have together : inputs = [] ↔ arguments.inputs = [] := by
      rw [eq_nil_iff_filters Path.isGlue, glue, rest, ← eq_nil_iff_filters]
    by_cases empty : arguments.inputs = []
    · rw [if_pos (by simp [empty]), if_pos (by simp [together.mpr empty])]
      refine ⟨rfl, fun success => ?_⟩
      cases success
    rw [if_neg (by simpa using empty), if_neg (by simpa using mt together.mp empty)]
    change exitStatus (process arguments (optionsOf arguments bundled entry) files) =
        exitStatus (process { arguments with inputs } (optionsOf arguments bundled entry) files) ∧ _
    have placed : WellPlaced files (optionsOf arguments bundled entry).searchOrder :=
      ⟨stands, clean.searchOrder bundledClean entry⟩
    have same := outcome?_work_of_mixed placed empty (mt together.mp empty) clean.inputs cleanOther
      glue rest
    have ends := process_ends arguments (optionsOf arguments bundled entry) files
    have endsOther := process_ends { arguments with inputs } (optionsOf arguments bundled entry) files
    rw [same] at endsOther
    cases gives : (work arguments files).outcome?
        (start .standard (optionsOf arguments bundled entry) {}) with
    | none =>
      rw [gives] at ends endsOther
      refine ⟨ends.trans endsOther.symm, fun success => ?_⟩
      cases ends.symm.trans success
    | some written =>
      rw [gives] at ends endsOther
      obtain ⟨first, ran, status, output, left⟩ := ends
      obtain ⟨second, ranOther, statusOther, outputOther, leftOther⟩ := endsOther
      refine ⟨?_, fun _ => ⟨first, second, ran, ranOther, output.trans outputOther.symm,
        left.trans leftOther.symm⟩⟩
      rw [ran, ranOther]
      exact status.trans statusOther.symm

theorem mixedOtherwise_gluedDirectory :
    Arguments.MixedOtherwise (Arguments.ofWords ["p.glue", "a.weft", "-o", "m.json"])
      (Arguments.ofWords ["a.weft", "p.glue", "-o", "m.json"]) := by
  have denote : ∃ arguments ∈ (Arguments.ofWords ["p.glue", "a.weft", "-o", "m.json"]).toOption,
      ∃ other ∈ (Arguments.ofWords ["a.weft", "p.glue", "-o", "m.json"]).toOption,
        arguments.inputs = [.ofString "p.glue", .ofString "a.weft"] ∧
        other.inputs = [.ofString "a.weft", .ofString "p.glue"] ∧
        other.libraryPaths = arguments.libraryPaths ∧
        other.strictTypeNames = arguments.strictTypeNames ∧ other.debug = arguments.debug ∧
        other.json = arguments.json ∧ other.output = arguments.output ∧
        other.printLibraryPath = arguments.printLibraryPath := by
    decide +kernel
  obtain ⟨arguments, read, other, readOther, inputs, inputsOther, rest⟩ := denote
  have same : other = { arguments with inputs := other.inputs } := by
    obtain ⟨libraryPaths, strict, debug, json, output, print⟩ := rest
    cases other
    simp_all
  rw [eq_ok_of_toOption read, eq_ok_of_toOption readOther, same]
  refine .read ?_ ?_ <;> rw [inputs, inputsOther] <;> decide +kernel

/-- The glue file before the module that it is about, and after it: both runs succeed and write the same
manifest. -/
theorem mixed_inputs_end_alike_gluedDirectory :
    gluedDirectory.contains .here = .ok true ∧ Path.IsClean ⟨.relative, []⟩ ∧
      Arguments.MixedOtherwise (Arguments.ofWords ["p.glue", "a.weft", "-o", "m.json"])
        (Arguments.ofWords ["a.weft", "p.glue", "-o", "m.json"]) ∧
      ∃ first second,
        run ["p.glue", "a.weft", "-o", "m.json"] ⟨.relative, []⟩ none gluedDirectory = .ok first ∧
        run ["a.weft", "p.glue", "-o", "m.json"] ⟨.relative, []⟩ none gluedDirectory = .ok second ∧
        second.status = 0 ∧ first.output = second.output ∧ first.files = second.files ∧
        first.files.isFile (.ofString "m.json") = .ok true := by
  have stands : gluedDirectory.contains .here = .ok true := rfl
  have clean : Path.IsClean ⟨.relative, []⟩ := fun _ member => absurd member List.not_mem_nil
  have succeeds : exitStatus (run ["p.glue", "a.weft", "-o", "m.json"] ⟨.relative, []⟩ none
      gluedDirectory) = 0 := by
    decide +kernel
  have written : ∃ outcome ∈ (run ["p.glue", "a.weft", "-o", "m.json"] ⟨.relative, []⟩ none
      gluedDirectory).toOption,
      (outcome.files.isFile (.ofString "m.json")).toOption = some true := by
    decide +kernel
  obtain ⟨status, alike⟩ := mixed_inputs_end_alike stands clean mixedOtherwise_gluedDirectory
  obtain ⟨first, second, ran, ranOther, output, files⟩ := alike succeeds
  obtain ⟨outcome, gives, isFile⟩ := written
  cases ran.symm.trans (eq_ok_of_toOption gives)
  refine ⟨stands, clean, mixedOtherwise_gluedDirectory, first, second, ran, ranOther, ?_, output,
    files, eq_ok_of_toOption isFile⟩
  have ended := status.symm.trans succeeds
  rw [ranOther] at ended
  exact ended

end CommandLine

end WireModules
