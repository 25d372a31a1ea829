import WireModules.Proofs.SessionHistory

/-!
# When the glue code is compiled

The glue code is compiled when all types of a program are recorded, at the last event of a
compilation. Whatever the session did before in that compilation, the registry it has then is the
one that it ends with.
-/

set_option autoImplicit false

namespace WireModules

def CompileEvent.isFinished : CompileEvent → Bool
  | .finished _ => true
  | _ => false

theorem Loading.Steps.unfinished {sources : Sources} {loading : Loading}
    (steps : Steps sources opening loading) : ∀ event ∈ loading.events, event.isFinished = false := by
  induction steps with
  | refl =>
    intro event member
    cases List.mem_singleton.mp member
    rfl
  | tail _ step ih =>
    cases step with
    | linked queued => exact ih
    | logged text => exact List.forall_mem_append.mpr ⟨ih, List.forall_mem_singleton.mpr rfl⟩
    | input queued absent loaded =>
      exact List.forall_mem_append.mpr ⟨ih, List.forall_mem_singleton.mpr rfl⟩
    | imported asks located absent loaded named =>
      exact List.forall_mem_append.mpr ⟨ih, List.forall_mem_singleton.mpr rfl⟩

/-- Only the last event of a compilation says that it is finished. -/
theorem Compilation.finished_last {files : FileSystem} {options : Options} {queue : Queue}
    {program : Program} (compiled : (ofQueue files options queue).outcome = .ok program) :
    ∃ earlier, (ofQueue files options queue).events = earlier ++ [.finished program] ∧
      ∀ event ∈ earlier, event.isFinished = false := by
  obtain ⟨loading, read, _, events⟩ := ofQueue_ok compiled
  obtain ⟨steps, _⟩ := Loading.readProgram_ok read
  refine ⟨_, events, ?_⟩
  intro event member
  rcases List.mem_append.mp member with reading | resolved
  · rcases List.mem_append.mp reading with loaded | logged
    · exact steps.unfinished event loaded
    · cases List.mem_singleton.mp logged
      rfl
  · obtain ⟨unit, _, rfl⟩ := List.mem_map.mp resolved
    rfl

/-- Whether the coordinator is asked to compile the glue code. -/
def Signal.isGlueCompilation : Signal → Bool
  | .asked .compile _ => true
  | _ => false

namespace Session

variable {γ : Type} {environment : Environment γ} {before after : Session γ}

/-! ## What events of modules leave as it is -/

/-- A view of a session that takes in nothing of the registry, of whether the session is closed and of
what is told and logged, and that stays the same when a module is announced. -/
structure Steady {ν : Type} (environment : Environment γ) (view : Session γ → ν) : Prop where
  emit : ∀ session signal, signal.isGlueCompilation = false →
    view { session with trace := session.trace ++ [signal] } = view session
  registry : ∀ session registry closed, view { session with registry, closed } = view session
  announce : ∀ session moduleId path, view { session with
    glue := (environment.coordinator.announce moduleId path session.glue).state } = view session

namespace Steady

variable {ν : Type} {view : Session γ → ν} (steady : Steady environment view)
include steady

theorem keeps_emitLog (log : List LogRecord) :
    Action.Keeps view (emitLog log : Action (Session γ) _) :=
  .forM fun record session => steady.emit session (.logged record) rfl

theorem logged (session : Session γ) (log : List LogRecord) :
    view { session with trace := session.trace ++ log.map .logged } = view session := by
  have kept := steady.keeps_emitLog log session
  rw [Action.finalState, run_emitLog] at kept
  exact kept

theorem keeps_say (text : String) : Action.Keeps view (say text : Action (Session γ) _) :=
  fun session => steady.emit session (.logged (ownRecord text)) rfl

theorem keeps_tell (event : HostEvent) : Action.Keeps view (tell environment event) := by
  refine .bind .get fun session => ?_
  refine .bind (fun session => steady.emit session (.told event) rfl) fun _ => ?_
  split
  · exact .pure _
  · exact fun session => steady.registry session session.registry.clear true
  · exact .throw _

theorem keeps_record (info : TypeRecord) :
    Action.Keeps view (record info : Action (Session γ) _) := by
  refine .bind .get fun session => .bind ?_ fun recording =>
    .bind (fun session => steady.registry session recording.registry session.closed) fun _ =>
      steady.keeps_emitLog _
  cases session.registry.record info with
  | ok recording => exact .pure _
  | error reason => exact .throw _

theorem keeps_noteWritten (info : TypeRecord) :
    Action.Keeps view (noteWritten environment info) := by
  refine .bind (steady.keeps_say _) fun _ => .bind (steady.keeps_record info) fun _ => ?_
  extract_lets tells
  have told : ∀ done, Action.Keeps view (tells done) := fun _ => steady.keeps_tell _
  split
  · refine .bind (steady.keeps_say _) fun _ => .bind (fun session => ?_) told
    exact steady.registry session (session.registry.listEnum info) session.closed
  · exact told ⟨⟩

theorem keeps_noteResolved (info : TypeRecord) :
    Action.Keeps view (noteResolved environment info) := by
  refine .bind (steady.keeps_say _) fun _ => .bind (steady.keeps_record info) fun _ => ?_
  refine .bind (steady.keeps_tell _) fun _ => ?_
  split
  · exact steady.keeps_tell _
  · exact .pure _

theorem keeps_announcement (moduleId : String) (path : Path) :
    Action.Keeps view (ask (.announce moduleId path)
      (environment.coordinator.announce moduleId path) fun _ => true) := by
  intro before
  obtain ⟨answered, ended⟩ := finalState_ask (.announce moduleId path)
    (environment.coordinator.announce moduleId path) (fun _ => true) before
  rw [ended]
  exact (steady.emit _ _ rfl).trans ((steady.logged _ _).trans (steady.announce _ _ _))

end Steady

theorem keeps_wantedRecords {ν : Type} {view : Session γ → ν} (unit : ProgramUnit)
    (resolved : Bool) :
    Action.Keeps view (wantedRecords unit resolved : Action (Session γ) _) := by
  refine .bind .get fun session => ?_
  split
  · exact .pure _
  · split
    · exact .pure _
    · exact .throw _

namespace Steady

variable {ν : Type} {view : Session γ → ν} (steady : Steady environment view)
include steady

theorem keeps_unitParsed (unit : ProgramUnit) : Action.Keeps view (unitParsed environment unit) := by
  refine .bind (keeps_wantedRecords unit false) fun wanted => ?_
  split
  · exact .pure _
  · exact .forM fun info => steady.keeps_noteWritten info

theorem keeps_unitResolved (unit : ProgramUnit) :
    Action.Keeps view (unitResolved environment unit) := by
  refine .bind (keeps_wantedRecords unit true) fun wanted => ?_
  split
  · exact .bind (.forM fun info => steady.keeps_noteResolved info) fun _ =>
      steady.keeps_announcement _ _
  · exact .pure _

/-- Only the end of a compilation makes a difference to a steady view. -/
theorem keeps_react {event : CompileEvent} (unfinished : event.isFinished = false) :
    Action.Keeps view (react environment event) := by
  cases event with
  | logged record => exact fun session => steady.emit session (.logged record) rfl
  | parsed unit => exact steady.keeps_unitParsed unit
  | resolved unit => exact steady.keeps_unitResolved unit
  | finished program => cases unfinished

theorem of_events {events : List CompileEvent}
    (unfinished : ∀ event ∈ events, event.isFinished = false)
    (ran : (events.forM (react environment)).run before = .ok ⟨⟩ after) :
    view after = view before := by
  induction events generalizing before with
  | nil =>
    cases ran
    rfl
  | cons event rest ih =>
    obtain ⟨between, ranFirst, ranRest⟩ := Action.exists_of_run_forM_cons_eq_ok ran
    obtain ⟨own, others⟩ := List.forall_mem_cons.mp unfinished
    exact (ih others ranRest).trans ((steady.keeps_react own).of_run_eq_ok ranFirst)

end Steady

/-! ## The end of a compilation -/

/-- A session that is about to ask for the glue code to be compiled. -/
def beginGlue (session : Session γ) : Session γ :=
  { session with
    needsGlue := false
    trace := session.trace ++ [.logged (ownRecord "Compiling glue code")] }

/-- The coordinator is asked once, whatever it answers. -/
theorem run_programFinished (before : Session γ) :
    (programFinished environment).run before =
      if before.isFailed || !before.needsGlue then .ok ⟨⟩ before
      else
        let reply := environment.coordinator.compile before.registry before.glue
        match reply.answer with
        | .ok true => .ok ⟨⟩ (before.beginGlue.consulted reply (.asked .compile true))
        | .ok false =>
          .error (.failure .glueFailure) (before.beginGlue.consulted reply (.asked .compile false))
        | .error fault => .error fault (before.beginGlue.consulted reply (.asked .compile false)) := by
  have got : (get : Action (Session γ) _).run before = .ok before before := rfl
  rw [programFinished, EStateM.run_bind, got, isFailed]
  dsimp only
  split
  · rfl
  · have asked := run_ask .compile (environment.coordinator.compile before.registry) id
      before.beginGlue
    have sameGlue : before.beginGlue.glue = before.glue := rfl
    rw [sameGlue] at asked
    change (ask .compile (environment.coordinator.compile before.registry) id >>= _).run
      before.beginGlue = _
    rw [EStateM.run_bind, asked]
    cases (environment.coordinator.compile before.registry before.glue).answer with
    | error fault => rfl
    | ok granted => cases granted <;> rfl

/-- What the coordinator is asked at the end of a compilation, and what becomes of its answer. -/
theorem programFinished_ok (running : before.isFailed = false) (pending : before.needsGlue = true)
    (ran : (programFinished environment).run before = .ok ⟨⟩ after) :
    (environment.coordinator.compile before.registry before.glue).answer = .ok true ∧
      after.registry = before.registry ∧
      after.glue = (environment.coordinator.compile before.registry before.glue).state := by
  rw [run_programFinished, if_neg (by simp [running, pending])] at ran
  dsimp only at ran
  split at ran
  · next granted =>
    cases ran
    exact ⟨granted, rfl, rfl⟩
  · cases ran
  · cases ran

/-- A compilation that gives a program while the glue code is still to be compiled has compiled it,
against the registry with which it ends. What announcing modules leaves of the coordinator's state is
then as it was at the beginning. -/
theorem glue_compiled_of_keeps {ν : Type} (view : γ → ν)
    (kept : ∀ moduleId path glue,
      view (environment.coordinator.announce moduleId path glue).state = view glue)
    (standard : environment.frontEnd = .standard) {files : FileSystem} {program : Program}
    (pending : before.needsGlue = true)
    (ran : (compile environment files).run before = .ok (some program) after) :
    ∃ glue, view glue = view before.glue ∧
      (environment.coordinator.compile after.registry glue).answer = .ok true ∧
      after.glue = (environment.coordinator.compile after.registry glue).state := by
  rcases compile_refused_or_delivered environment files before with ⟨_, refused⟩ | ⟨_, runs⟩
  · exact absurd ran (refused program after)
  rw [ran] at runs
  split at runs
  · next delivered taken ranDeliver =>
    cases runs
    obtain ⟨compiled, ranEvents⟩ := deliver_ok ranDeliver
    rw [compilation, standard] at compiled ranEvents
    obtain ⟨earlier, events, unfinished⟩ := Compilation.finished_last compiled
    have split : (FrontEnd.standard.compile files before.options before.queue).events =
        earlier ++ [.finished program] := events
    rw [split] at ranEvents
    obtain ⟨between, ranEarlier, ranLast⟩ := Action.exists_of_run_forM_append_eq_ok ranEvents
    obtain ⟨finished, ranFinished, ended⟩ := Action.exists_of_run_forM_cons_eq_ok ranLast
    cases ended
    -- Up to the last event nothing has failed and the glue code still waits.
    have steady : Steady environment fun session : Session γ =>
        (session.isFailed, session.needsGlue, view session.glue) :=
      ⟨fun _ _ _ => rfl, fun _ _ _ => rfl, fun session moduleId path => by
        simp only [isFailed, kept moduleId path session.glue]⟩
    have same := steady.of_events unfinished ranEarlier
    simp only [Prod.mk.injEq] at same
    obtain ⟨running, stillPending, sameView⟩ := same
    obtain ⟨answer, registry, glue⟩ :=
      programFinished_ok running (stillPending.trans pending) ranFinished
    refine ⟨between.glue, sameView, ?_, ?_⟩
    · rw [show taken.settle.registry = between.registry from registry]
      exact answer
    · rw [show taken.settle.registry = between.registry from registry]
      exact glue
  · cases runs

theorem glue_compiled (standard : environment.frontEnd = .standard) {files : FileSystem}
    {program : Program} (pending : before.needsGlue = true)
    (ran : (compile environment files).run before = .ok (some program) after) :
    ∃ glue, (environment.coordinator.compile after.registry glue).answer = .ok true ∧
      after.glue = (environment.coordinator.compile after.registry glue).state := by
  obtain ⟨glue, _, compiled⟩ :=
    glue_compiled_of_keeps (fun _ => ()) (fun _ _ _ => rfl) standard pending ran
  exact ⟨glue, compiled⟩

end Session

end WireModules
