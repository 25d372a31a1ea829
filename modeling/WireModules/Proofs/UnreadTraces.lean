import WireModules.CommandLine.Run
import WireModules.Proofs.SessionHistory

/-!
# Traces that are not read

The trace of a session is for its users. Only the host can tell by it what came before, and with a host
that does not look back, a session ends a step in the same way whatever its trace is.
-/

set_option autoImplicit false

namespace WireModules

/-- A host that replies to an event as to any other event of its kind, whatever came before. -/
def Host.IsForgetful (host : Host) : Prop :=
  ∀ earlier event, host earlier event = host [] event

namespace Session

variable {γ : Type} {environment : Environment γ}

/-- The session without its trace. -/
def untraced (session : Session γ) : Session γ :=
  { session with trace := [] }

/-- What is seen of a session without its trace is the same of sessions that differ in nothing else. -/
theorem eq_of_untraced {ν : Type} {view : Session γ → ν}
    (unread : ∀ session, view session = view session.untraced) {first second : Session γ}
    (same : first.untraced = second.untraced) : view first = view second := by
  rw [unread first, unread second, same]

/-- Two ends of an action differ in the trace at most. -/
inductive EndAlike {α : Type} :
    EStateM.Result Fault (Session γ) α → EStateM.Result Fault (Session γ) α → Prop where
  | ok {value : α} {first second : Session γ} : first.untraced = second.untraced →
      EndAlike (.ok value first) (.ok value second)
  | error {fault : Fault} {first second : Session γ} : first.untraced = second.untraced →
      EndAlike (.error fault first) (.error fault second)

/-- Whatever traces there were, an action ends alike. -/
def Blind {α : Type} (action : Action (Session γ) α) : Prop :=
  ∀ first second, first.untraced = second.untraced →
    EndAlike (action.run first) (action.run second)

/-! ## Blind actions -/

namespace Blind

variable {α β : Type} {action : Action (Session γ) α} {next : α → Action (Session γ) β}

theorem pure (value : α) : Blind (Pure.pure value : Action (Session γ) α) := fun _ _ same => .ok same

theorem throw (fault : Fault) : Blind (MonadExcept.throw fault : Action (Session γ) α) :=
  fun _ _ same => .error same

theorem modify {change : Session γ → Session γ}
    (keeps : ∀ session, (change session).untraced = (change session.untraced).untraced) :
    Blind (modify change : Action (Session γ) PUnit) := by
  intro first second same
  have changed : (change first).untraced = (change second).untraced := eq_of_untraced keeps same
  exact .ok changed

/-- What an action looks at in a session may not be the trace. -/
theorem read {look : Session γ → Action (Session γ) β}
    (unread : ∀ session, look session = look session.untraced)
    (later : ∀ session, Blind (look session)) : Blind (get >>= look) := by
  intro first second same
  have seen : look first = look second := eq_of_untraced unread same
  change EndAlike ((look first).run first) ((look second).run second)
  rw [seen]
  exact later second first second same

theorem bind (blind : Blind action) (later : ∀ value, Blind (next value)) :
    Blind (action >>= next) := by
  intro first second same
  have own := blind first second same
  rw [EStateM.run_bind, EStateM.run_bind]
  generalize action.run first = ended, action.run second = endedToo at own
  cases own with
  | ok between => exact later _ _ _ between
  | error after => exact .error after

theorem forM {items : List α} {step : α → Action (Session γ) PUnit}
    (each : ∀ item, Blind (step item)) : Blind (items.forM step) := by
  induction items with
  | nil => exact .pure _
  | cons item rest ih => exact bind (each item) fun _ => ih

/-- What a blind action gives is the same whatever the trace is. -/
theorem outcome? (blind : Blind action) {first second : Session γ}
    (same : first.untraced = second.untraced) :
    action.outcome? first = action.outcome? second := by
  have own := blind first second same
  rw [Action.outcome?, Action.outcome?]
  generalize action.run first = ended, action.run second = endedToo at own
  cases own <;> rfl

end Blind

/-! ## The steps of a session -/

theorem blind_emit (signal : Signal) : Blind (emit signal : Action (Session γ) _) :=
  .modify fun _ => rfl

theorem blind_emitLog (log : List LogRecord) : Blind (emitLog log : Action (Session γ) _) :=
  .forM fun _ => blind_emit _

theorem blind_demand {α : Type} (check : Except Failure α) :
    Blind (Fault.demand check : Action (Session γ) α) := by
  cases check with
  | ok value => exact .pure value
  | error reason => exact .throw _

theorem blind_ask {α : Type} (request : GlueRequest) (consult : γ → Reply γ α)
    (granted : α → Bool) : Blind (ask request consult granted) := by
  refine .read (fun _ => rfl) fun session => ?_
  refine .bind (.modify fun _ => rfl) fun _ => .bind (blind_emitLog _) fun _ => ?_
  split
  · exact .bind (blind_emit _) fun _ => .pure _
  · exact .bind (blind_emit _) fun _ => .throw _

theorem blind_record (info : TypeRecord) : Blind (record info : Action (Session γ) _) := by
  refine .read (fun _ => rfl) fun session => .bind (blind_demand _) fun recording => ?_
  exact .bind (.modify fun _ => rfl) fun _ => blind_emitLog _

theorem blind_wantedRecords (unit : ProgramUnit) (resolved : Bool) :
    Blind (wantedRecords unit resolved : Action (Session γ) _) := by
  refine .read (fun _ => rfl) fun session => ?_
  split
  · exact .pure _
  · split
    · exact .pure _
    · exact .throw _

theorem blind_programFinished : Blind (programFinished environment) := by
  refine .read (fun _ => rfl) fun session => ?_
  split
  · exact .pure _
  refine .bind (.modify fun _ => rfl) fun _ => .bind (blind_emit _) fun _ => ?_
  refine .bind (blind_ask _ _ _) fun granted => ?_
  split
  · exact .throw _
  · exact .pure _

section Host

variable (forgetful : environment.host.IsForgetful)
include forgetful

theorem blind_tell (event : HostEvent) : Blind (tell environment event) := by
  refine .read (fun session => ?_) fun session => .bind (blind_emit _) fun _ => ?_
  · dsimp only
    rw [forgetful session.hostEvents]
    rfl
  · split
    · exact .pure _
    · exact .modify fun _ => rfl
    · exact .throw _

theorem blind_noteWritten (info : TypeRecord) : Blind (noteWritten environment info) := by
  refine .bind (blind_emit _) fun _ => .bind (blind_record info) fun _ => ?_
  extract_lets tells
  have told : ∀ done, Blind (tells done) := fun _ => blind_tell forgetful _
  split
  · exact .bind (blind_emit _) fun _ => .bind (.modify fun _ => rfl) told
  · exact told ⟨⟩

theorem blind_noteResolved (info : TypeRecord) : Blind (noteResolved environment info) := by
  refine .bind (blind_emit _) fun _ => .bind (blind_record info) fun _ => ?_
  refine .bind (blind_tell forgetful _) fun _ => ?_
  split
  · exact blind_tell forgetful _
  · exact .pure _

theorem blind_react (event : CompileEvent) : Blind (react environment event) := by
  cases event with
  | logged record => exact blind_emit _
  | finished program => exact blind_programFinished
  | parsed unit =>
    refine .bind (blind_wantedRecords unit false) fun wanted => ?_
    split
    · exact .pure _
    · exact .forM (blind_noteWritten forgetful)
  | resolved unit =>
    refine .bind (blind_wantedRecords unit true) fun wanted => ?_
    split
    · exact .bind (.forM (blind_noteResolved forgetful)) fun _ => blind_ask _ _ _
    · exact .pure _

theorem blind_conclude (compilation : Compilation) : Blind (conclude environment compilation) := by
  have delivered : Blind (compilation.deliver (react environment)) := by
    refine .bind (.forM (blind_react forgetful)) fun _ => ?_
    split
    · exact .pure _
    · exact .throw _
  exact .bind delivered fun _ => .bind (.modify fun _ => rfl) fun _ => .bind (blind_emit _) fun _ =>
    .pure _

theorem blind_compile (files : FileSystem) : Blind (compile environment files) := by
  intro first second same
  have opened : first.closed = second.closed := eq_of_untraced (fun _ => rfl) same
  have stage : first.stage = second.stage := eq_of_untraced (fun _ => rfl) same
  have queue : first.queue = second.queue := eq_of_untraced (fun _ => rfl) same
  have options : first.options = second.options := eq_of_untraced (fun _ => rfl) same
  have begun : first.beginCompiling.untraced = second.beginCompiling.untraced :=
    congrArg (fun session => session.beginCompiling.untraced) same
  have concluded : EndAlike _ _ :=
    blind_conclude forgetful (environment.frontEnd.compile files second.options second.queue) _ _
      begun
  rw [run_compile, run_compile, compilation, compilation, opened, stage, queue, options]
  split
  · exact .error same
  split
  · exact .error same
  split
  · exact .ok same
  revert concluded
  generalize (conclude environment _).run first.beginCompiling = ended
  generalize (conclude environment _).run second.beginCompiling = endedToo
  intro concluded
  cases concluded with
  | ok after => exact .ok after
  | error after =>
    exact .error (congrArg (fun session => { session with stage := Stage.failed }) after)

omit forgetful in
theorem blind_reportExports : Blind (reportExports environment) :=
  .read (fun _ => rfl) fun _ => .bind (blind_emitLog _) fun _ => .pure _

end Host

end Session

end WireModules
