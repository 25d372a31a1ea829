import WireModules.Proofs.Grounding
import WireModules.Proofs.LoadOutcome
import WireModules.Proofs.LocatedPaths

/-!
# Sound sessions

What the work of a session rests on is kept by every call, also by one that fails, as long as the host
does not: there is something to search in every place, the coordinator knows the session, and what is
queued has a kind and can be opened. The faults of a call are those that users are told of, except for
the one of the compilation that is delivered and for the one of looking up again what was found.
-/

set_option autoImplicit false

namespace WireModules

/-- What users are told of: failures about inputs, and integer literals that are too long. -/
def Fault.IsReported : Fault → Prop
  | .failure _ | .tooLong _ => True
  | _ => False

/-! ## Guarded actions -/

namespace Action

variable {σ α β : Type} {kept : σ → Prop} {permitted : Fault → Prop}

/-- An action that has ended keeps what it should, and its fault is permitted if it has one. -/
def Ends (kept : σ → Prop) (permitted : Fault → Prop) : EStateM.Result Fault σ α → Prop
  | .ok _ after => kept after
  | .error fault after => permitted fault ∧ kept after

/-- Wherever an action begins, it keeps what it should, and its faults are permitted. -/
def Guarded (kept : σ → Prop) (permitted : Fault → Prop) (action : Action σ α) : Prop :=
  ∀ before, kept before → Ends kept permitted (action.run before)

theorem Ends.finalState {action : Action σ α} {before : σ}
    (ends : Ends kept permitted (action.run before)) : kept (action.finalState before) := by
  rw [Action.finalState]
  cases ran : action.run before with
  | ok value after =>
    rw [ran] at ends
    exact ends
  | error fault after =>
    rw [ran] at ends
    exact ends.2

theorem Ends.mono {others : Fault → Prop} {result : EStateM.Result Fault σ α}
    (ends : Ends kept permitted result) (permits : ∀ fault, permitted fault → others fault) :
    Ends kept others result := by
  cases result with
  | ok value after => exact ends
  | error fault after => exact ends.imp_left (permits fault)

namespace Guarded

theorem mono {others : Fault → Prop} {action : Action σ α}
    (guarded : Guarded kept permitted action) (permits : ∀ fault, permitted fault → others fault) :
    Guarded kept others action :=
  fun before holds => (guarded before holds).mono permits

theorem pure (value : α) : Guarded kept permitted (Pure.pure value : Action σ α) :=
  fun _ holds => holds

theorem throw {fault : Fault} (permits : permitted fault) :
    Guarded kept permitted (MonadExcept.throw fault : Action σ α) :=
  fun _ holds => ⟨permits, holds⟩

theorem get : Guarded kept permitted (MonadState.get : Action σ σ) := fun _ holds => holds

theorem modify {change : σ → σ} (keeps : ∀ state, kept state → kept (change state)) :
    Guarded kept permitted (modify change : Action σ PUnit) := keeps

theorem bind {first : Action σ α} {next : α → Action σ β} (guarded : Guarded kept permitted first)
    (later : ∀ value, Guarded kept permitted (next value)) :
    Guarded kept permitted (first >>= next) := by
  intro before holds
  have own := guarded before holds
  rw [EStateM.run_bind]
  cases ran : first.run before with
  | error fault after =>
    rw [ran] at own
    exact own
  | ok value between =>
    rw [ran] at own
    exact later value between own

theorem forM {items : List α} {step : α → Action σ PUnit}
    (each : ∀ item ∈ items, Guarded kept permitted (step item)) :
    Guarded kept permitted (items.forM step) := by
  induction items with
  | nil => exact fun _ holds => holds
  | cons item rest ih =>
    obtain ⟨own, others⟩ := List.forall_mem_cons.mp each
    exact bind own fun _ => ih others

end Guarded

end Action

/-! ## Places to search -/

/-- Every place to search is a path. -/
def Options.IsSearchable (options : Options) : Prop :=
  ∀ place ∈ options.searchOrder, ∃ directory, place = .path directory ∧ directory.IsClean

/-- The directories to search, in order. -/
def Options.directories (options : Options) : List Path :=
  options.searchOrder.filterMap Place.path?

theorem Options.IsSearchable.searchOrder_eq {options : Options} (searchable : options.IsSearchable) :
    options.searchOrder = options.directories.map .path := by
  rw [directories]
  have all : ∀ places : List Place, (∀ place ∈ places, ∃ directory : Path, place = .path directory ∧
      directory.IsClean) → places = (places.filterMap Place.path?).map .path := by
    intro places each
    induction places with
    | nil => rfl
    | cons place rest ih =>
      obtain ⟨⟨directory, isPath, _⟩, others⟩ := List.forall_mem_cons.mp each
      subst isPath
      exact congrArg (List.cons _) (ih others)
  exact all _ searchable

/-! ## What a session keeps -/

namespace Session

/-- What the work of a session rests on: there is something to search in every place, the coordinator
knows the session, and what is queued has a kind and can be opened. -/
structure Sound (session : Session GlueBinder) : Prop where
  searchable : session.options.IsSearchable
  attached : session.glue.attached = true
  queued : ∀ path ∈ session.queue.paths, path.inputKind?.isSome = true ∧ path.hasNull = false

/-- An action keeps a session sound, and has no fault but those that users are told of. -/
abbrev Safe {α : Type} (action : Action (Session GlueBinder) α) : Prop :=
  Action.Guarded Sound Fault.IsReported action

theorem safe_emit (signal : Signal) : Safe (emit signal) :=
  fun _ sound => { sound with }

theorem safe_demand {α : Type} (check : Except Failure α) : Safe (Fault.demand check) := by
  cases check with
  | ok value => exact .pure value
  | error reason => exact .throw trivial

theorem safe_emitLog (log : List LogRecord) : Safe (emitLog log) :=
  .forM fun record _ => safe_emit (.logged record)

/-- A question to the coordinator is safe if it stays attached and answers with no other fault. -/
theorem Sound.ask {α : Type} {session : Session GlueBinder} (sound : session.Sound)
    {request : GlueRequest} {consult : GlueBinder → Reply GlueBinder α} {granted : α → Bool}
    (attached : (consult session.glue).state.attached = true)
    (reported : ∀ fault, (consult session.glue).answer = .error fault → fault.IsReported) :
    Action.Ends Sound Fault.IsReported ((Session.ask request consult granted).run session) := by
  rw [run_ask]
  cases answered : (consult session.glue).answer with
  | ok answer => exact { sound with attached }
  | error fault => exact ⟨reported fault answered, { sound with attached }⟩

end Session

/-! ## The coordinator -/

namespace GlueBinder

variable {binder : GlueBinder}

theorem attached_load (files : FileSystem) (path : Path) (binder : GlueBinder) :
    (load files path binder).state.attached = binder.attached := by
  rw [load]
  split
  · rfl
  split
  · rfl
  split
  · rfl
  rw [accept]
  split <;> rfl

theorem load_reported {files : FileSystem} {path : Path} (openable : path.normalize.hasNull = false)
    {fault : Fault} (failed : (load files path binder).answer = .error fault) : fault.IsReported := by
  rw [load] at failed
  split at failed
  · cases failed
  split at failed
  · next null => cases null.symm.trans openable
  split at failed
  · cases failed
  rw [accept] at failed
  split at failed
  · cases failed
    trivial
  · cases failed
  · cases failed

/-- A coordinator that is attached has an answer when it is asked to compile, and stays attached. -/
theorem compile_attached (registry : Registry) (attached : binder.attached = true) :
    (compile registry binder).state.attached = true ∧
      ∀ fault, (compile registry binder).answer ≠ .error fault := by
  have known : ¬(!binder.attached) = true := by simp [attached]
  rw [compile, if_neg known]
  split
  · refine ⟨attached, fun fault failed => ?_⟩
    cases failed
  · refine ⟨attached, fun fault failed => ?_⟩
    cases failed

end GlueBinder

/-- A host that never fails. -/
def Host.Answers (host : Host) : Prop :=
  ∀ earlier event kind text, host earlier event ≠ .fail kind text

/-- What is found can be opened. -/
theorem FileSystem.hasNull_of_resolveInput {files : FileSystem} {requested path : Path}
    {base : Option Path} {libraries : List Place}
    (found : files.resolveInput requested base libraries = .ok path) : path.hasNull = false := by
  obtain ⟨_, _, _, present, rfl, _⟩ := exists_of_resolveInput found
  exact Path.hasNull_normalize (hasNull_of_contains present)

namespace Session

/-! ## Compiling -/

section Host

variable {host : Host} (answers : host.Answers)
include answers

theorem safe_tell (event : HostEvent) : Safe (tell (.standard host) event) := by
  refine .bind .get fun session => .bind (safe_emit _) fun _ => ?_
  split
  · exact .pure _
  · exact .modify fun _ sound => { sound with }
  · next failed => exact absurd failed (answers _ _ _ _)

omit answers in
theorem safe_record (info : TypeRecord) : Safe (record info) := by
  refine .bind .get fun session => .bind (safe_demand _) fun recording => .bind ?_ fun _ =>
    safe_emitLog _
  exact .modify fun _ sound => { sound with }

theorem safe_noteWritten (info : TypeRecord) : Safe (noteWritten (.standard host) info) := by
  refine .bind (safe_emit _) fun _ => .bind (safe_record info) fun _ => ?_
  extract_lets tells
  have told : ∀ done, Safe (tells done) := fun _ => safe_tell answers _
  split
  · refine .bind (safe_emit _) fun _ => .bind ?_ told
    exact .modify fun _ sound => { sound with }
  · exact told ⟨⟩

theorem safe_noteResolved (info : TypeRecord) : Safe (noteResolved (.standard host) info) := by
  refine .bind (safe_emit _) fun _ => .bind (safe_record info) fun _ => ?_
  refine .bind (safe_tell answers _) fun _ => ?_
  split
  · exact safe_tell answers _
  · exact .pure _

omit answers in
theorem safe_wantedRecords {unit : ProgramUnit} {resolved : Bool} {infos : List TypeRecord}
    (recorded : unit.records resolved = .ok infos) : Safe (wantedRecords unit resolved) := by
  refine .bind .get fun session => ?_
  split
  · exact .pure _
  · rw [recorded]
    exact .pure _

omit answers in
theorem safe_announce (moduleId : String) (path : Path) :
    Safe (ask (.announce moduleId path) (GlueBinder.coordinator.announce moduleId path)
      fun _ => true) :=
  fun _ sound => sound.ask sound.attached nofun

omit answers in
theorem safe_programFinished : Safe (programFinished (.standard host)) := by
  refine .bind .get fun session => ?_
  split
  · exact .pure _
  · refine .bind (.modify fun _ sound => { sound with }) fun _ => ?_
    refine .bind (safe_emit _) fun _ => .bind ?_ fun granted => ?_
    · intro begun sound
      obtain ⟨attached, answered⟩ := GlueBinder.compile_attached session.registry sound.attached
      exact sound.ask attached fun fault failed => absurd failed (answered fault)
    · split
      · exact .throw trivial
      · exact .pure _

theorem safe_react {event : CompileEvent} (extracts : event.Extracts) :
    Safe (react (.standard host) event) := by
  cases event with
  | logged record => exact safe_emit _
  | finished program => exact safe_programFinished
  | parsed unit =>
    obtain ⟨infos, recorded⟩ := extracts
    refine .bind (safe_wantedRecords recorded) fun wanted => ?_
    cases wanted with
    | none => exact .pure _
    | some records => exact .forM fun info _ => safe_noteWritten answers info
  | resolved unit =>
    obtain ⟨⟨infos, recorded⟩, _⟩ := extracts
    refine .bind (safe_wantedRecords recorded) fun wanted => ?_
    split
    · exact .bind (.forM fun info _ => safe_noteResolved answers info) fun _ => safe_announce _ _
    · exact .pure _

/-- What a compilation tells of is taken safely. -/
theorem safe_events {events : List CompileEvent} (extracts : ∀ event ∈ events, event.Extracts) :
    Safe (events.forM (react (.standard host))) :=
  .forM fun event member => safe_react answers (extracts event member)

/-- A compilation is delivered with no other unreported fault than its own. -/
theorem guarded_conclude {compilation : Compilation}
    (extracts : ∀ event ∈ compilation.events, event.Extracts) :
    Action.Guarded Sound (fun fault => fault.IsReported ∨ compilation.outcome = .error fault)
      (conclude (.standard host) compilation) := by
  have delivered : Action.Guarded Sound
      (fun fault => fault.IsReported ∨ compilation.outcome = .error fault)
      (compilation.deliver (react (.standard host))) := by
    refine .bind ((safe_events answers extracts).mono fun _ => .inl) fun _ => ?_
    split
    · exact .pure _
    · next failed => exact .throw (.inr failed)
  refine .bind delivered fun program => .bind ?_ fun _ => .bind ?_ fun _ => .pure _
  · exact .modify fun _ sound => { sound with }
  · exact (safe_emit _).mono fun _ => .inl

end Host

variable {host : Host} {before : Session GlueBinder} {files : FileSystem} {fault : Fault}

theorem Sound.beginCompiling (sound : before.Sound) : before.beginCompiling.Sound :=
  ⟨sound.searchable, sound.attached, nofun⟩

theorem Sound.after_compile (answers : host.Answers) (sound : before.Sound) (files : FileSystem) :
    ((compile (.standard host) files).finalState before).Sound := by
  have ends : Action.Ends Sound (fun _ => True) ((compile (.standard host) files).run before) := by
    rw [run_compile]
    split
    · exact ⟨trivial, sound⟩
    split
    · exact ⟨trivial, sound⟩
    split
    · exact sound
    have concluded : Action.Ends Sound _
        ((conclude (.standard host) (before.compilation (.standard host) files)).run
          before.beginCompiling) :=
      guarded_conclude answers (fun _ member => Compilation.extracts_of_mem_events member) _
        sound.beginCompiling
    split
    · next ran =>
      rw [ran] at concluded
      exact concluded
    · next ran =>
      rw [ran] at concluded
      exact ⟨trivial, { concluded.2 with }⟩
  exact ends.finalState

/-! ## Loading -/

theorem Sound.beginLoading (sound : before.Sound) : before.beginLoading.Sound := by
  rw [Session.beginLoading]
  split
  · exact { sound with }
  · exact sound

theorem Sound.queue {queue : Queue} {path : Path} (sound : before.Sound)
    (openable : path.normalize.hasNull = false) (text : String)
    (added : before.queue.add files path = .ok queue) :
    ({ before.saying text with queue } : Session GlueBinder).Sound := by
  refine ⟨sound.searchable, sound.attached, ?_⟩
  obtain ⟨⟨kind, _, known⟩, _, ⟨_, rfl⟩ | ⟨_, longer⟩⟩ := Queue.add_ok added
  · exact sound.queued
  · intro other member
    rw [longer] at member
    rcases List.mem_append.mp member with earlier | own
    · exact sound.queued other earlier
    · cases List.mem_singleton.mp own
      exact ⟨Option.isSome_iff_exists.mpr ⟨kind, known⟩, openable⟩

/-- What is found is scheduled with no other unreported fault than that of looking it up again. -/
theorem Sound.scheduled {path : Path} (sound : before.Sound) (host : Host) (files : FileSystem)
    (openable : path.normalize.hasNull = false) :
    Action.Ends Sound
      (fun fault => fault.IsReported ∨ files.isFile path.normalize = .error fault)
      (before.scheduled (.standard host) files path) := by
  have attached : (GlueBinder.load files path before.glue).state.attached = true :=
    (GlueBinder.attached_load files path before.glue).trans sound.attached
  rw [Session.scheduled]
  split
  · exact ⟨.inl trivial, sound⟩
  · dsimp only [GlueBinder.coordinator]
    split
    · exact { sound with attached }
    · exact ⟨.inl trivial, { sound with attached }⟩
    · next failed =>
      exact ⟨.inl (GlueBinder.load_reported openable failed), { sound with attached }⟩
  · dsimp only [FrontEnd.standard]
    split
    · next added => exact sound.queue openable _ added
    · next refused =>
      refine ⟨?_, { sound with }⟩
      rcases Queue.add_error refused with ⟨_, rfl⟩ | failed
      · exact .inl trivial
      · exact .inr failed

theorem Sound.after_load (sound : before.Sound) (host : Host) (files : FileSystem)
    (requested : Path) (base : Option Path) :
    ((load (.standard host) files requested base).finalState before).Sound := by
  have ends : Action.Ends Sound (fun _ => True)
      ((load (.standard host) files requested base).run before) := by
    rw [run_load]
    split
    · exact ⟨trivial, sound⟩
    cases resolved : files.resolveInput requested base before.options.searchOrder with
    | error fault => exact ⟨trivial, sound.beginLoading⟩
    | ok path =>
      have openable := Path.hasNull_normalize (FileSystem.hasNull_of_resolveInput resolved)
      exact (sound.beginLoading.scheduled host files openable).mono fun _ _ => trivial
  exact ends.finalState

/-! ## Histories -/

theorem sound_start (host : Host) {options : Options} (searchable : options.IsSearchable)
    (glue : GlueBinder) : (start (.standard host) options glue).Sound :=
  ⟨searchable, rfl, nofun⟩

theorem LeadsTo.sound (answers : host.Answers)
    {first : Session GlueBinder} (sound : first.Sound)
    (leads : LeadsTo (.standard host) first before) : before.Sound := by
  induction leads with
  | refl => exact sound
  | load files requested base _ ih => exact ih.after_load _ files requested base
  | compile files _ ih => exact ih.after_compile answers files

end Session

end WireModules
