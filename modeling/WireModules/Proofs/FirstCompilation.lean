import WireModules.Proofs.CollisionWarnings
import WireModules.Proofs.CompileSteps
import WireModules.Proofs.Grounding
import WireModules.Proofs.ReadingBound
import WireModules.Proofs.RecordedTypes

/-!
# Warnings of the first compilation

The first compilation of a session notes the types of its units twice over, in the order of the program.
What it warns of can hence be told from the files in which users see a type: each file collides with the
next, as it should be, and where there are three files or more the last collides with the first, too,
since the second pass over the units begins with the first file again.
-/

set_option autoImplicit false

namespace WireModules

namespace ProgramUnit

/-! ## Files of a type -/

/-- The files of the units that users see and that declare a type, in order. -/
def filesOf (units : List ProgramUnit) (id : String) : List Path :=
  (units.filter fun unit => unit.isUserVisible && unit.typeIds.contains id).filterMap ProgramUnit.path

variable {units : List ProgramUnit} {unit : ProgramUnit} {infos : List TypeRecord} {phase : Bool}
  {id : String}

theorem filesOf_cons (unit : ProgramUnit) (rest : List ProgramUnit) (id : String) :
    filesOf (unit :: rest) id = filesOf [unit] id ++ filesOf rest id := by
  rw [filesOf, ← List.singleton_append, List.filter_append, List.filterMap_append]
  rfl

/-- Resolution leaves alone where types are declared. -/
theorem filesOf_resolution : filesOf (Resolution.ofUnits units).units id = filesOf units id := by
  simp only [filesOf, Resolution.ofUnits, List.filter_map, List.filterMap_map, Function.comp_def,
    typeIds_resolveUnit]
  rfl

theorem nodup_filesOf (distinct : (units.filterMap ProgramUnit.path).Nodup) :
    (filesOf units id).Nodup :=
  distinct.sublist (List.filter_sublist.filterMap ProgramUnit.path)

/-- One of the types that a unit declares has a name, or none has. -/
theorem paths_of_described {decls : List TypeDecl} (described : Described unit phase decls infos)
    (distinct : (decls.map TypeDecl.name).Nodup) :
    (infos.filter fun info => info.id = id).map TypeRecord.modulePath =
      if id ∈ decls.map (fun decl => qualify unit.moduleId decl.name) then [unit.path] else [] := by
  induction described with
  | nil => rfl
  | @cons decl info rest others first _ ih =>
    obtain ⟨fresh, distinctRest⟩ := List.nodup_cons.mp distinct
    by_cases named : info.id = id
    · have absent : id ∉ rest.map fun decl => qualify unit.moduleId decl.name := by
        intro member
        obtain ⟨other, inside, same⟩ := List.mem_map.mp member
        have sameName : other.name = decl.name :=
          name_of_qualify_eq (same.trans (named.symm.trans first.id))
        exact fresh (List.mem_map.mpr ⟨other, inside, sameName⟩)
      have declared : id ∈ (decl :: rest).map fun decl => qualify unit.moduleId decl.name :=
        List.mem_cons.mpr (.inl (named.symm.trans first.id))
      rw [List.filter_cons_of_pos (by simpa using named), List.map_cons, ih distinctRest,
        if_neg absent, if_pos declared, first.modulePath]
    · have other : id ≠ qualify unit.moduleId decl.name := fun same =>
        named (first.id.trans same.symm)
      rw [List.filter_cons_of_neg (by simpa using named), ih distinctRest, List.map_cons]
      simp only [List.mem_cons, other, false_or]

theorem paths_of_shownRecords (shown : unit.shownRecords phase = .ok infos)
    (distinct : (unit.module.declaredTypes.map TypeDecl.name).Nodup) :
    (infos.filter fun info => info.id = id).map TypeRecord.modulePath =
      (filesOf [unit] id).map some := by
  by_cases visible : unit.isUserVisible = true
  · have paths : _ = if id ∈ unit.typeIds then [unit.path] else [] :=
      paths_of_described (described_of_shownRecords visible shown) distinct
    obtain ⟨path, placed⟩ := Option.isSome_iff_exists.mp (isSome_path visible)
    rw [paths]
    by_cases declared : id ∈ unit.typeIds <;> simp [filesOf, visible, declared, placed]
  · rw [shownRecords, if_neg visible] at shown
    cases shown
    simp [filesOf, visible]

end ProgramUnit

open ProgramUnit in
/-- The records of a name are of the files that declare it, in order. -/
theorem CompileEvent.Records.paths {units : List ProgramUnit} {infos : List TypeRecord}
    {event : ProgramUnit → CompileEvent} {phase : Bool}
    (about : ∀ unit, (event unit).records = unit.shownRecords phase)
    (recorded : Records (units.map event) infos)
    (distinct : ∀ unit ∈ units, (unit.module.declaredTypes.map TypeDecl.name).Nodup) (id : String) :
    (infos.filter fun info => info.id = id).map TypeRecord.modulePath =
      (filesOf units id).map some := by
  induction units generalizing infos with
  | nil =>
    cases recorded
    rfl
  | cons unit rest ih =>
    obtain ⟨own, others⟩ := List.forall_mem_cons.mp distinct
    cases recorded with
    | cons shown later =>
      rw [List.filter_append, List.map_append, paths_of_shownRecords (about unit ▸ shown) own,
        ih later others, filesOf_cons unit rest, List.map_append]

theorem Loading.Steps.source_of_logged {sources : Sources} {loading : Loading}
    (steps : Steps sources opening loading) {record : LogRecord}
    (member : .logged record ∈ loading.events) : record.source = .compiler := by
  induction steps with
  | refl => cases List.mem_singleton.mp member
  | tail _ step ih =>
    cases step with
    | logged text =>
      rcases List.mem_append.mp member with earlier | own
      · exact ih earlier
      · cases List.mem_singleton.mp own
        rfl
    | linked queued => exact ih member
    | input queued absent loaded =>
      rcases List.mem_append.mp member with earlier | own
      · exact ih earlier
      · cases List.mem_singleton.mp own
    | imported asks located absent loaded named =>
      rcases List.mem_append.mp member with earlier | own
      · exact ih earlier
      · cases List.mem_singleton.mp own

/-- A compilation that gives a program writes into the log in its own name only, and its units stand in
different files. -/
theorem Compilation.apart_of_ofQueue {files : FileSystem} {options : Options} {queue : Queue}
    {program : Program} (compiled : (ofQueue files options queue).outcome = .ok program) :
    (∀ record, .logged record ∈ (ofQueue files options queue).events → record.source = .compiler) ∧
      (program.units.filterMap ProgramUnit.path).Nodup := by
  obtain ⟨loading, read, rfl, events⟩ := ofQueue_ok compiled
  obtain ⟨steps, _⟩ := Loading.readProgram_ok read
  refine ⟨fun record member => ?_, ?_⟩
  · rw [events] at member
    simp only [List.mem_append, List.mem_singleton, List.mem_map, reduceCtorEq, and_false,
      exists_false, or_false, CompileEvent.logged.injEq] at member
    rcases member with reading | rfl
    · exact steps.source_of_logged reading
    · rfl
  · have unitPaths : (Resolution.ofUnits loading.units).units.filterMap ProgramUnit.path =
        loading.paths := by
      change (loading.units.map _).filterMap ProgramUnit.path = loading.paths
      rw [List.filterMap_map]
      rfl
    rw [unitPaths]
    exact (Loading.Steps.filed steps).unique

/-! ## What the log says of collisions -/

/-- A coordinator writes nothing into the log in the registry's name. -/
structure Coordinator.WritesApart {γ : Type} (coordinator : Coordinator γ) : Prop where
  load : ∀ files path glue, ∀ record ∈ (coordinator.load files path glue).log,
    record.source ≠ .registry
  announce : ∀ moduleId path glue, ∀ record ∈ (coordinator.announce moduleId path glue).log,
    record.source ≠ .registry
  compile : ∀ registry glue, ∀ record ∈ (coordinator.compile registry glue).log,
    record.source ≠ .registry

namespace Session

variable {γ : Type} {environment : Environment γ} {before after session : Session γ}

/-- The warnings of the registry in the log. -/
def collisionWarnings (session : Session γ) : List LogRecord :=
  session.log.filter LogRecord.isCollisionWarning

/-- From one session to another the log warns of each collision that comes up, and of nothing else. -/
def Warns (before after : Session γ) : Prop :=
  ∃ added, after.log = before.log ++ added ∧
    Registry.Accounts before.registry after.registry added

namespace Warns

theorem trans {between : Session γ} (first : Warns before between) (second : Warns between after) :
    Warns before after := by
  obtain ⟨added, logged, accounts⟩ := first
  obtain ⟨addedLater, loggedLater, accountsLater⟩ := second
  refine ⟨added ++ addedLater, ?_, accounts.trans accountsLater⟩
  rw [loggedLater, logged, List.append_assoc]

/-- The registry has no collision that it had not, and nothing is said in its name. -/
theorem of_apart {added : List Signal} (traced : after.trace = before.trace ++ added)
    (collisions : after.registry.collisions = before.registry.collisions)
    (apart : ∀ record, .logged record ∈ added → record.source ≠ .registry) : Warns before after := by
  refine ⟨{ before with trace := added }.log, ?_, .of_same collisions ?_⟩
  · rw [log, traced, List.filterMap_append]
    rfl
  · rw [List.filter_eq_nil_iff]
    intro record member
    have other := apart record (mem_log.mp member)
    simp [LogRecord.isCollisionWarning, other]

theorem of_same (traced : after.trace = before.trace) (registry : after.registry = before.registry) :
    Warns before after :=
  .of_apart (traced.trans (List.append_nil _).symm) (by rw [registry]) (by simp)

theorem consulted {α : Type} {request : GlueRequest} {answered : Bool} {reply : Reply γ α}
    (apart : ∀ record ∈ reply.log, record.source ≠ .registry) :
    Warns session (session.consulted reply (.asked request answered)) := by
  refine .of_apart (List.append_assoc ..) rfl ?_
  intro record member
  simp only [List.mem_append, List.mem_map, Signal.logged.injEq, exists_eq_right, List.mem_singleton,
    reduceCtorEq, or_false] at member
  exact apart record member

end Warns

/-- An action has the log warn of each collision, wherever it begins. -/
abbrev Warning {α : Type} (action : Action (Session γ) α) : Prop :=
  Action.Reaches Warns action

theorem Warning.bind {α β : Type} {action : Action (Session γ) α} {next : α → Action (Session γ) β}
    (first : Warning action) (later : ∀ value, Warning (next value)) : Warning (action >>= next) :=
  Action.Reaches.bind (fun _ _ _ own others => own.trans others) first later

theorem warning_emit {record : LogRecord} (apart : record.source ≠ .registry) :
    Warning (emit (.logged record) : Action (Session γ) _) := by
  refine fun session => .of_apart rfl rfl ?_
  intro other member
  cases List.mem_singleton.mp member
  exact apart

theorem warning_say (text : String) : Warning (say text : Action (Session γ) _) :=
  warning_emit (by simp [ownRecord])

theorem warning_ask {α : Type} {request : GlueRequest} {consult : γ → Reply γ α} {granted : α → Bool}
    (apart : ∀ glue, ∀ record ∈ (consult glue).log, record.source ≠ .registry) :
    Warning (ask request consult granted) := by
  intro session
  obtain ⟨answered, ended⟩ := finalState_ask request consult granted session
  rw [ended]
  exact .consulted (apart session.glue)

theorem warning_tell (calm : environment.host.IsCalm) (event : HostEvent) :
    Warning (tell environment event) := by
  intro session
  rw [finalState_tell calm]
  exact .of_apart rfl rfl (by simp)

/-- Where a type is recorded, the log takes over what the registry says of it. -/
theorem warning_record (info : TypeRecord) :
    Warning (record info : Action (Session γ) _) := by
  intro session
  rw [Action.finalState, run_record]
  cases recorded : session.registry.record info with
  | error reason => exact .of_same rfl rfl
  | ok recording =>
    refine ⟨recording.log, ?_, (Registry.reports_of_record recorded).2⟩
    change (session.trace ++ recording.log.map Signal.logged).filterMap _ = _
    rw [List.filterMap_append, List.filterMap_map]
    exact congrArg (session.log ++ ·) (List.filterMap_some ..)

theorem warning_noteWritten (calm : environment.host.IsCalm) (info : TypeRecord) :
    Warning (noteWritten environment info) := by
  refine .bind (warning_say _) fun _ => .bind (warning_record info) fun _ => ?_
  extract_lets tells
  have told : ∀ done, Warning (tells done) := fun _ => warning_tell calm _
  split
  · refine .bind (warning_say _) fun _ => .bind (fun session => ?_) told
    exact .of_apart (List.append_nil _).symm (Registry.collisions_listEnum ..) (by simp)
  · exact told ⟨⟩

theorem warning_noteResolved (calm : environment.host.IsCalm) (info : TypeRecord) :
    Warning (noteResolved environment info) := by
  refine .bind (warning_say _) fun _ => .bind (warning_record info) fun _ => ?_
  refine .bind (warning_tell calm _) fun _ => ?_
  split
  · exact warning_tell calm _
  · exact fun _ => .of_same rfl rfl

theorem warning_programFinished (apart : environment.coordinator.WritesApart) :
    Warning (programFinished environment) := by
  refine .bind (fun _ => .of_same rfl rfl) fun session => ?_
  split
  · exact fun _ => .of_same rfl rfl
  refine .bind (fun _ => .of_same rfl rfl) fun _ => .bind (warning_say _) fun _ => ?_
  refine .bind (warning_ask (apart.compile session.registry)) fun granted => ?_
  split
  · exact fun _ => .of_same rfl rfl
  · exact fun _ => .of_same rfl rfl

theorem compileSteps_warns (calm : environment.host.IsCalm)
    (apart : environment.coordinator.WritesApart) : CompileSteps environment Warns where
  refl _ := .of_same rfl rfl
  trans _ _ _ own others := own.trans others
  written := warning_noteWritten calm
  resolved := warning_noteResolved calm
  announced moduleId path := warning_ask (apart.announce moduleId path)
  finished := warning_programFinished apart
  begun session := warning_say "Running weft compiler" session
  settled session := warning_say "Done with weft compiler" session
  failed _ := .of_same rfl rfl

theorem loadSteps_warns (apart : environment.coordinator.WritesApart) :
    LoadSteps environment Warns where
  refl _ := .of_same rfl rfl
  trans _ _ _ own others := own.trans others
  say session text := warning_say text session
  ask session files path _ := .consulted (apart.load files path session.glue)
  queue _ _ := .of_same rfl rfl

/-- All collisions that the registry knows are warned of in the log, in order, and nothing else is. -/
def Accounted (session : Session γ) : Prop :=
  session.collisionWarnings = session.registry.collisions.map Collision.warning

theorem Warns.accounted (warns : Warns before after) (accounted : before.Accounted) :
    after.Accounted := by
  obtain ⟨added, logged, fresh, collisions, warnings⟩ := warns
  rw [Accounted, collisionWarnings] at accounted ⊢
  rw [logged, List.filter_append, accounted, warnings, collisions, List.map_append]

theorem accounted_start (options : Options) (glue : γ) :
    (start environment options glue).Accounted := by
  rw [Accounted, collisionWarnings]
  refine List.filter_eq_nil_iff.mpr fun record member => ?_
  have own : record.source = .session := by
    have told := mem_log.mp member
    simp only [start, List.mem_map, Signal.logged.injEq, exists_eq_right, List.mem_cons] at told
    rcases told with rfl | ⟨_, _, rfl⟩
    · rfl
    · rfl
  simp [LogRecord.isCollisionWarning, own]

/-! ## The first compilation -/

/-- A session that has compiled nothing yet: whenever it was asked to, nothing was queued. -/
inductive Uncompiled (environment : Environment γ) : Session γ → Prop where
  | start (options : Options) (glue : γ) : Uncompiled environment (start environment options glue)
  | load {session : Session γ} (files : FileSystem) (requested : Path) (base : Option Path) :
      Uncompiled environment session →
      Uncompiled environment ((load environment files requested base).finalState session)
  | compile {session : Session γ} (files : FileSystem) : session.queue.isEmpty = true →
      Uncompiled environment session →
      Uncompiled environment ((compile environment files).finalState session)

theorem finalState_compile_of_isEmpty {files : FileSystem} (empty : session.queue.isEmpty = true) :
    (compile environment files).finalState session = session := by
  rw [Action.finalState, run_compile, if_pos empty]
  by_cases closed : session.closed = true
  · rw [if_pos closed]
  · rw [if_neg closed]
    by_cases failed : session.stage = .failed
    · rw [if_pos failed]
    · rw [if_neg failed]

/-- Such a session knows no type and no collision, and has warned of none. -/
theorem Uncompiled.blank (apart : environment.coordinator.WritesApart)
    (uncompiled : Uncompiled environment session) :
    session.registry = { strict := session.options.strictTypeNames } ∧ session.Accounted := by
  induction uncompiled with
  | start options glue => exact ⟨rfl, accounted_start options glue⟩
  | @load session files requested base _ ih =>
    obtain ⟨registry, accounted⟩ := ih
    have tracks : Tracks [] session
        ((Session.load environment files requested base).finalState session) :=
      tracks_load files requested base session
    have same : ((Session.load environment files requested base).finalState session).registry =
        session.registry :=
      congrArg Prod.fst (keeps_registry_load files requested base session)
    refine ⟨?_, ?_⟩
    · rw [same, tracks.options]
      exact registry
    · obtain ⟨begun, rfl | ⟨_, rfl⟩, warns⟩ := (loadSteps_warns apart).load files requested base session
      · exact warns.accounted accounted
      · exact warns.accounted accounted
  | compile files empty _ ih =>
    rw [finalState_compile_of_isEmpty empty]
    exact ih

/-- The first compilation warns of the files of a type as they follow one another in the program, and of
the last and the first if there are three or more. So it warns of each file and the one before it, and of
nothing else, exactly if there are two files at most. The type is recorded as the last file has it. -/
theorem collisionWarnings_of_compile (standard : environment.frontEnd = .standard)
    (calm : environment.host.IsCalm) (apart : environment.coordinator.WritesApart)
    {files : FileSystem} {program : Program} (uncompiled : Uncompiled environment before)
    (ran : (compile environment files).run before = .ok (some program) after) :
    after.collisionWarnings = after.registry.collisions.map Collision.warning ∧
      ∀ id,
        let paths := ProgramUnit.filesOf program.units id
        let collisions := after.registry.collisions.filter fun collision => collision.id = id
        collisions = Collision.successive id paths ++ Collision.around id paths ∧
          (collisions = Collision.successive id paths ↔ paths.length ≤ 2) ∧
          ∀ last, paths.getLast? = some last → ∃ info, after.registry.find? id = some info ∧
            info.isResolved = true ∧ info.modulePath = some last := by
  obtain ⟨blank, accounted⟩ := uncompiled.blank apart
  obtain ⟨infos, tracks, given⟩ := tracks_compile calm files before
  rw [Action.finalState, ran] at tracks
  obtain ⟨_, _, compiled, recorded⟩ := given program after ran
  rw [compilation, standard] at compiled recorded
  obtain ⟨units, written, resolved, parsed, sameUnits, rfl, writtenRecorded, resolvedRecorded⟩ :=
    Compilation.records_of_ofQueue compiled recorded
  obtain ⟨silent, distinct⟩ := Compilation.apart_of_ofQueue compiled
  refine ⟨?_, fun id => ?_⟩
  · have warns : Warns before ((compile environment files).finalState before) := by
      refine (compileSteps_warns calm apart).compile fun record member => warning_emit ?_
      rw [compilation, standard] at member
      rw [silent record member]
      decide
    rw [Action.finalState, ran] at warns
    exact warns.accounted accounted
  · intro paths collisions
    obtain ⟨_, _, _, _, replays, _⟩ := tracks.signals
    rw [blank] at replays
    have writtenPaths : (written.filter fun info => info.id = id).map TypeRecord.modulePath =
        paths.map some := by
      have names : ∀ unit ∈ units, (unit.module.declaredTypes.map TypeDecl.name).Nodup :=
        fun unit member => (parsed unit member).parsed.nodup_names
      rw [writtenRecorded.paths (fun _ => rfl) names, ← ProgramUnit.filesOf_resolution, ← sameUnits]
    have resolvedPaths : (resolved.filter fun info => info.id = id).map TypeRecord.modulePath =
        paths.map some := by
      refine resolvedRecorded.paths (fun _ => rfl) (fun unit member => ?_) id
      rw [sameUnits] at member
      exact ProgramUnit.nodup_names_of_mem_resolution parsed member
    have resolvedPhase := resolvedRecorded.phases fun _ => rfl
    have reported : collisions = Collision.successive id paths ++ Collision.around id paths :=
      replays.collisions_of_passes (writtenRecorded.phases fun _ => rfl) resolvedPhase writtenPaths
        resolvedPaths (ProgramUnit.nodup_filesOf distinct)
    refine ⟨reported, ?_, fun last => replays.find?_of_passes resolvedPhase resolvedPaths⟩
    rw [reported, List.append_right_eq_self]
    exact Collision.around_eq_nil_iff

end Session

/-- A directory with three files of one module, which declare one type each in their own way. -/
def tripletDirectory : FileSystem :=
  let file (target : String) : FileTree :=
    .directory [("x.weft", .file ("module x;\ntype T = " ++ target ++ ";\n").toUTF8.toList)]
  .ofEntries [("one", file "bool"), ("two", file "int8"), ("three", file "real")]

namespace Session

/-- The binder of glue files writes into the log in its own name only. -/
theorem writesApart_coordinator : GlueBinder.coordinator.WritesApart := by
  have own : ∀ text, (GlueBinder.record text).source ≠ .registry := by
    intro text
    simp [GlueBinder.record]
  constructor
  · intro files path binder record member
    change record ∈ (GlueBinder.load files path binder).log at member
    rw [GlueBinder.load] at member
    split at member
    · cases member
    split at member
    · cases member
    split at member
    · cases List.mem_singleton.mp member
      exact own _
    · rw [GlueBinder.accept] at member
      split at member
      · cases member
      · cases List.mem_singleton.mp member
        exact own _
      · cases List.mem_singleton.mp member
        exact own _
  · intro moduleId path binder record member
    cases List.mem_singleton.mp member
    exact own _
  · intro registry binder record member
    change record ∈ (GlueBinder.compile registry binder).log at member
    rw [GlueBinder.compile] at member
    split at member
    · cases member
    split at member
    · cases List.mem_singleton.mp member
      exact own _
    · obtain ⟨diagnostic, _, rfl⟩ := List.mem_map.mp member
      exact own _

/-- A session that has loaded the three files. -/
def tripletsLoaded : Session GlueBinder :=
  let first := (load .standard tripletDirectory (.ofString "one/x.weft") none).finalState
    (start .standard .plain {})
  let second := (load .standard tripletDirectory (.ofString "two/x.weft") none).finalState first
  (load .standard tripletDirectory (.ofString "three/x.weft") none).finalState second

theorem uncompiled_tripletsLoaded : Uncompiled .standard tripletsLoaded := by
  unfold tripletsLoaded
  exact .load _ _ _ (.load _ _ _ (.load _ _ _ (.start _ _)))

theorem run_compile_triplets : ∃ program,
    (compile .standard tripletDirectory).run tripletsLoaded =
      .ok (some program) ((compile .standard tripletDirectory).finalState tripletsLoaded) ∧
    ProgramUnit.filesOf program.units "x::T" =
      [.ofString "one/x.weft", .ofString "two/x.weft", .ofString "three/x.weft"] := by
  have given : ∃ program ∈ ((compile .standard tripletDirectory).outcome? tripletsLoaded).join,
      ProgramUnit.filesOf program.units "x::T" =
        [.ofString "one/x.weft", .ofString "two/x.weft", .ofString "three/x.weft"] := by
    decide +kernel
  obtain ⟨program, given, files⟩ := given
  exact ⟨program, Action.run_eq_ok_of_outcome? (Option.join_eq_some_iff.mp given), files⟩

/-- The third file collides with the first one, and the log says that the first is the later. -/
theorem collisionWarnings_of_compile_triplets : ∃ program after,
    Uncompiled .standard tripletsLoaded ∧
    (compile .standard tripletDirectory).run tripletsLoaded = .ok (some program) after ∧
    after.collisionWarnings = after.registry.collisions.map Collision.warning ∧
    after.registry.collisions.filter (fun collision => collision.id = "x::T") =
      [⟨"x::T", some (.ofString "one/x.weft"), some (.ofString "two/x.weft")⟩,
        ⟨"x::T", some (.ofString "two/x.weft"), some (.ofString "three/x.weft")⟩,
        ⟨"x::T", some (.ofString "three/x.weft"), some (.ofString "one/x.weft")⟩] ∧
    ∃ info, after.registry.find? "x::T" = some info ∧
      info.modulePath = some (.ofString "three/x.weft") := by
  obtain ⟨program, ran, files⟩ := run_compile_triplets
  obtain ⟨warned, each⟩ := collisionWarnings_of_compile rfl isCalm_silent writesApart_coordinator
    uncompiled_tripletsLoaded ran
  obtain ⟨reported, _, recorded⟩ := each "x::T"
  rw [files] at reported recorded
  obtain ⟨info, found, _, placed⟩ := recorded (.ofString "three/x.weft") rfl
  exact ⟨program, _, uncompiled_tripletsLoaded, ran, warned, reported, info, found, placed⟩

/-- So the log does not only warn of each file and the one before it. -/
theorem collisionWarnings_not_successive :
    ¬ ∀ (before after : Session GlueBinder) (files : FileSystem) (program : Program),
      Uncompiled .standard before → before.options.strictTypeNames = false →
      (compile .standard files).run before = .ok (some program) after →
      after.collisionWarnings = after.registry.collisions.map Collision.warning ∧
        ∀ id, after.registry.collisions.filter (fun collision => collision.id = id) =
          Collision.successive id (ProgramUnit.filesOf program.units id) := by
  intro always
  obtain ⟨program, ran, files⟩ := run_compile_triplets
  obtain ⟨_, each⟩ := always _ _ _ _ uncompiled_tripletsLoaded (by decide +kernel) ran
  have claimed := congrArg List.length (each "x::T")
  rw [files] at claimed
  have logged :
      (((compile .standard tripletDirectory).finalState tripletsLoaded).registry.collisions.filter
        fun collision => collision.id = "x::T").length = 3 := by
    decide +kernel
  exact absurd (logged.symm.trans claimed) (by decide)

end Session

end WireModules
