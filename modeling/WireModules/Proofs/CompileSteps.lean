import WireModules.Proofs.GlueCompilation

/-!
# The steps of compiling

Compiling a program takes a session through the same few steps again and again: types are noted as
written and as resolved, modules are announced, and at the end the glue code is compiled. A relation
between sessions that holds along each of these steps holds from the beginning of a compilation to its
end, whether it succeeds or fails.
-/

set_option autoImplicit false

namespace WireModules

namespace Session

variable {γ : Type} {environment : Environment γ} {reaches : Session γ → Session γ → Prop}

/-- A relation between sessions that holds along the steps of compiling, lines of the log apart that the
compilation itself writes. -/
structure CompileSteps (environment : Environment γ) (reaches : Session γ → Session γ → Prop) :
    Prop where
  refl : ∀ session, reaches session session
  trans : ∀ first second third, reaches first second → reaches second third → reaches first third
  written : ∀ info, Action.Reaches reaches (noteWritten environment info)
  resolved : ∀ info, Action.Reaches reaches (noteResolved environment info)
  announced : ∀ moduleId path, Action.Reaches reaches
    (ask (.announce moduleId path) (environment.coordinator.announce moduleId path) fun _ => true)
  finished : Action.Reaches reaches (programFinished environment)
  begun : ∀ session : Session γ, reaches session session.beginCompiling
  settled : ∀ session : Session γ, reaches session session.settle
  failed : ∀ session : Session γ, reaches session { session with stage := .failed }

namespace CompileSteps

variable (steps : CompileSteps environment reaches)
include steps

theorem reaches_wantedRecords (unit : ProgramUnit) (phase : Bool) :
    Action.Reaches reaches (wantedRecords unit phase : Action (Session γ) _) := by
  intro before
  have keeps : Action.Keeps id (wantedRecords unit phase : Action (Session γ) _) :=
    keeps_wantedRecords unit phase
  have same : (wantedRecords unit phase).finalState before = before := keeps before
  rw [same]
  exact steps.refl before

theorem unitParsed (unit : ProgramUnit) :
    Action.Reaches reaches (Session.unitParsed environment unit) := by
  refine .bind steps.trans (steps.reaches_wantedRecords unit false) fun wanted => ?_
  split
  · exact steps.refl
  · exact .forM steps.refl steps.trans steps.written

theorem unitResolved (unit : ProgramUnit) :
    Action.Reaches reaches (Session.unitResolved environment unit) := by
  refine .bind steps.trans (steps.reaches_wantedRecords unit true) fun wanted => ?_
  split
  · refine .bind steps.trans (.forM steps.refl steps.trans steps.resolved) fun _ => ?_
    exact steps.announced _ _
  · exact steps.refl

/-- Lines of the log are left to the caller, who may know what a compilation writes. -/
theorem react {event : CompileEvent}
    (logged : ∀ record, event = .logged record →
      Action.Reaches reaches (emit (.logged record) : Action (Session γ) _)) :
    Action.Reaches reaches (Session.react environment event) := by
  cases event with
  | logged record => exact logged record rfl
  | parsed unit => exact steps.unitParsed unit
  | resolved unit => exact steps.unitResolved unit
  | finished program => exact steps.finished

theorem events {events : List CompileEvent}
    (logged : ∀ record, .logged record ∈ events →
      Action.Reaches reaches (emit (.logged record) : Action (Session γ) _)) :
    Action.Reaches reaches (events.forM (Session.react environment)) := by
  induction events with
  | nil => exact steps.refl
  | cons event rest ih =>
    refine .bind steps.trans (steps.react fun record isEvent => ?_) fun _ => ?_
    · exact logged record (isEvent ▸ .head _)
    · exact ih fun record member => logged record (.tail _ member)

theorem compile {files : FileSystem} {before : Session γ}
    (logged : ∀ record, .logged record ∈ (before.compilation environment files).events →
      Action.Reaches reaches (emit (.logged record) : Action (Session γ) _)) :
    reaches before ((Session.compile environment files).finalState before) := by
  have delivers : Action.Reaches reaches
      ((before.compilation environment files).deliver (Session.react environment)) := by
    refine .bind steps.trans (steps.events logged) fun _ => ?_
    split
    · exact steps.refl
    · exact steps.refl
  have ended := steps.trans _ _ _ (steps.begun before) (delivers before.beginCompiling)
  rcases compile_refused_or_delivered environment files before with ⟨same, _⟩ | ⟨_, ran⟩
  · rw [same]
    exact steps.refl before
  rw [Action.finalState] at ended ⊢
  rw [ran]
  cases delivered : ((before.compilation environment files).deliver (Session.react environment)).run
      before.beginCompiling with
  | ok program taken =>
    rw [delivered] at ended
    exact steps.trans _ _ _ ended (steps.settled taken)
  | error fault taken =>
    rw [delivered] at ended
    exact steps.trans _ _ _ ended (steps.failed taken)

end CompileSteps

end Session

end WireModules
