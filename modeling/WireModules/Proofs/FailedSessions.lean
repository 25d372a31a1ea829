import WireModules.Proofs.GlueCompilation
import WireModules.Proofs.RecordedTypes

/-!
# Sessions under any operations

The operations of a session may come in any order, and its hooks may be called without a compilation.
However this goes, the coordinator is asked once at most to compile the glue code; and from a failure on
a session does nothing but load files, and forget its types when it is closed.
-/

set_option autoImplicit false

namespace WireModules

/-- What may be done with a session. The hooks for units and programs are called by compilations, but
may be called directly too. -/
inductive Operation where
  | load (files : FileSystem) (requested : Path) (base : Option Path)
  | compile (files : FileSystem)
  | parsed (unit : ProgramUnit)
  | resolved (unit : ProgramUnit)
  | finished (program : Program)
  | close

namespace Session

variable {γ : Type} {environment : Environment γ} {before after : Session γ}

/-- The session after an operation, whether it succeeds or fails. -/
def perform (environment : Environment γ) (session : Session γ) : Operation → Session γ
  | .load files requested base => (load environment files requested base).finalState session
  | .compile files => (compile environment files).finalState session
  | .parsed unit => (unitParsed environment unit).finalState session
  | .resolved unit => (unitResolved environment unit).finalState session
  | .finished _ => (programFinished environment).finalState session
  | .close => Action.finalState Session.close session

def performAll (environment : Environment γ) (session : Session γ) (operations : List Operation) :
    Session γ :=
  operations.foldl (perform environment) session

/-! ## Compiling the glue code -/

/-- How often the coordinator was asked to compile the glue code. -/
def glueCompilations (session : Session γ) : Nat :=
  session.trace.countP Signal.isGlueCompilation

/-- How often the glue code was compiled or is still to be. -/
def glueBudget (session : Session γ) : Nat :=
  session.glueCompilations + session.needsGlue.toNat

theorem steady_glueBudget : Steady environment glueBudget where
  emit session signal other := by
    simp [glueBudget, glueCompilations, List.countP_append, other]
  registry _ _ _ := rfl
  announce _ _ _ := rfl

theorem keeps_glueBudget_programFinished :
    Action.Keeps glueBudget (programFinished environment) := by
  intro session
  -- The request is counted as the need for it ends, whatever the coordinator replies.
  have consulted : ∀ (reply : Reply γ Bool) answered, session.needsGlue = true →
      (session.beginGlue.consulted reply (.asked .compile answered)).glueBudget =
        session.glueBudget := by
    intro reply answered pending
    have logged : (reply.log.map Signal.logged).countP Signal.isGlueCompilation = 0 := by
      simp [List.countP_eq_zero, Signal.isGlueCompilation]
    simp [glueBudget, glueCompilations, Session.consulted, beginGlue, List.countP_append, logged,
      pending, Signal.isGlueCompilation]
  rw [Action.finalState, run_programFinished]
  by_cases rests : (session.isFailed || !session.needsGlue) = true
  · rw [if_pos rests]
  · have pending : session.needsGlue = true := by
      simp only [Bool.or_eq_true, not_or, Bool.not_eq_true', Bool.not_eq_false] at rests
      exact rests.2
    rw [if_neg rests]
    dsimp only
    cases (environment.coordinator.compile session.registry session.glue).answer with
    | error fault => exact consulted _ _ pending
    | ok granted => cases granted <;> exact consulted _ _ pending

theorem keeps_glueBudget_react (event : CompileEvent) :
    Action.Keeps glueBudget (react environment event) := by
  cases event with
  | finished program => exact keeps_glueBudget_programFinished
  | _ => exact steady_glueBudget.keeps_react rfl

theorem keeps_glueBudget_compile (files : FileSystem) :
    Action.Keeps glueBudget (compile environment files) := by
  intro session
  have steady : Steady environment glueBudget := steady_glueBudget
  have delivers : ∀ compilation : Compilation,
      Action.Keeps glueBudget (compilation.deliver (react environment)) := by
    intro compilation
    refine .bind (.forM keeps_glueBudget_react) fun _ => ?_
    split
    · exact .pure _
    · exact .throw _
  have begun : session.beginCompiling.glueBudget = session.glueBudget :=
    steady.emit session (.logged (ownRecord _)) rfl
  have ended := delivers (session.compilation environment files) session.beginCompiling
  rcases compile_refused_or_delivered environment files session with ⟨same, _⟩ | ⟨_, ran⟩
  · rw [same]
  rw [Action.finalState] at ended ⊢
  rw [ran]
  cases delivered : ((session.compilation environment files).deliver (react environment)).run
      session.beginCompiling with
  | ok program taken =>
    rw [delivered] at ended
    have settled : taken.settle.glueBudget = taken.glueBudget :=
      steady.emit taken (.logged (ownRecord _)) rfl
    exact settled.trans (ended.trans begun)
  | error fault taken =>
    rw [delivered] at ended
    exact ended.trans begun

/-! ## Loading -/

theorem Loads.glueBudget (loads : Loads before after) : after.glueBudget = before.glueBudget := by
  obtain ⟨added, traced, loading⟩ := loads.signals
  have silent : added.countP Signal.isGlueCompilation = 0 := by
    rw [List.countP_eq_zero]
    intro signal member compiles
    have loads := loading signal member
    unfold Signal.isGlueCompilation at compiles
    split at compiles
    · cases loads
    · cases compiles
  simp [Session.glueBudget, glueCompilations, traced, List.countP_append, silent, loads.needsGlue]

theorem keeps_glueBudget_load (files : FileSystem) (requested : Path) (base : Option Path) :
    Action.Keeps glueBudget (load environment files requested base) := by
  intro session
  obtain ⟨begun, rfl | ⟨_, rfl⟩, loads⟩ :=
    (loadSteps_loads environment).load files requested base session
  · exact loads.glueBudget
  · exact loads.glueBudget

/-! ## Operations -/

theorem glueBudget_perform (session : Session γ) (operation : Operation) :
    (perform environment session operation).glueBudget = session.glueBudget := by
  cases operation with
  | load files requested base => exact keeps_glueBudget_load files requested base session
  | compile files => exact keeps_glueBudget_compile files session
  | parsed unit => exact steady_glueBudget.keeps_unitParsed unit session
  | resolved unit => exact steady_glueBudget.keeps_unitResolved unit session
  | finished program => exact keeps_glueBudget_programFinished session
  | close => rfl

theorem glueBudget_performAll (session : Session γ) (operations : List Operation) :
    (performAll environment session operations).glueBudget = session.glueBudget := by
  induction operations generalizing session with
  | nil => rfl
  | cons operation rest ih => exact (ih _).trans (glueBudget_perform session operation)

theorem glueBudget_start (options : Options) (glue : γ) :
    (start environment options glue).glueBudget = 1 := by
  have silent : (start environment options glue).glueCompilations = 0 := by
    rw [glueCompilations, start, List.countP_eq_zero]
    intro signal member
    obtain ⟨record, _, rfl⟩ := List.mem_map.mp member
    simp [Signal.isGlueCompilation]
  rw [glueBudget, silent]
  rfl

/-! ## Failed sessions -/

theorem run_wantedRecords_of_failed (failed : before.stage = .failed) (unit : ProgramUnit)
    (resolved : Bool) :
    (wantedRecords unit resolved : Action (Session γ) _).run before = .ok none before := by
  have got : (get : Action (Session γ) _).run before = .ok before before := rfl
  rw [wantedRecords, EStateM.run_bind, got]
  simp [failed]

/-- What is done with a failed session has it load at most, or forget its types. -/
theorem perform_of_failed (environment : Environment γ) (failed : before.stage = .failed)
    (operation : Operation) :
    Quiet before (perform environment before operation) ∧
      (operation ≠ .close → (perform environment before operation).registry = before.registry) := by
  have unchanged : ∀ {session : Session γ}, session = before →
      Quiet before session ∧ (operation ≠ .close → session.registry = before.registry) := by
    rintro _ rfl
    exact ⟨.refl _, fun _ => rfl⟩
  cases operation with
  | load files requested base =>
    obtain ⟨begun, rfl | ⟨idle, _⟩, loads⟩ :=
      (loadSteps_loads environment).load files requested base before
    · exact ⟨loads.toQuiet, fun _ => loads.registry⟩
    · rw [failed] at idle
      cases idle
  | compile files =>
    apply unchanged
    rcases compile_refused_or_delivered environment files before with ⟨same, _⟩ | ⟨running, _⟩
    · exact same
    · simp [isFailed, failed] at running
  | parsed unit =>
    apply unchanged
    exact Action.finalState_bind_of_run_eq_ok (run_wantedRecords_of_failed failed unit false)
  | resolved unit =>
    apply unchanged
    exact Action.finalState_bind_of_run_eq_ok (run_wantedRecords_of_failed failed unit true)
  | finished program =>
    apply unchanged
    change (programFinished environment).finalState before = before
    rw [Action.finalState, run_programFinished, if_pos (by simp [isFailed, failed])]
  | close => exact ⟨⟨rfl, [], (List.append_nil _).symm, by simp⟩, fun other => absurd rfl other⟩

theorem performAll_of_failed (failed : before.stage = .failed) (operations : List Operation) :
    Quiet before (performAll environment before operations) := by
  induction operations generalizing before with
  | nil => exact .refl before
  | cons operation rest ih =>
    have own := (perform_of_failed environment failed operation).1
    exact own.trans (ih (own.stage.trans failed))

/-- Whatever is done with a session, in whatever order and with whatever host, coordinator and front
end: the coordinator is asked once at most to compile the glue code, and once the session has failed it
stays failed, tells the host of no more types, announces no more modules, asks for no glue code to be
compiled, and keeps its registry until it is closed. -/
theorem glueCompilations_le_one_and_failed_rests (environment : Environment γ) (options : Options)
    (glue : γ) (operations : List Operation) :
    let session := performAll environment (start environment options glue) operations
    session.glueCompilations ≤ 1 ∧
      (session.stage = .failed → ∀ later : List Operation,
        let after := performAll environment session later
        Quiet session after ∧ ∀ operation, operation ≠ .close →
          (perform environment after operation).registry = after.registry) := by
  intro session
  constructor
  · have budget : session.glueBudget = 1 :=
      (glueBudget_performAll _ operations).trans (glueBudget_start options glue)
    rw [glueBudget] at budget
    exact Nat.le.intro budget
  · intro failed later after
    have quiet : Quiet session after := performAll_of_failed failed later
    have stillFailed : after.stage = .failed := quiet.stage.trans failed
    exact ⟨quiet, fun operation => (perform_of_failed environment stillFailed operation).2⟩

def brokenEdition : FileSystem :=
  moduleDirectory "module m;\ntype A = ;\n"

/-- A module is compiled, and compiled again after an edit that breaks it. -/
def breaking : List Operation :=
  [.load firstEdition (.ofString "m.weft") none, .compile firstEdition,
    .load brokenEdition (.ofString "m.weft") none, .compile brokenEdition]

def broken : Session GlueBinder :=
  performAll .standard (start .standard .plain {})
    breaking

/-- The types of the first compilation are all that the failed session has, also when it is told of a
module with others. -/
theorem broken_rests :
    broken.stage = .failed ∧ broken.glueCompilations = 1 ∧
      broken.types.map TypeRecord.id = ["m::A", "m::B"] ∧
      Quiet broken (performAll .standard broken [.compile firstEdition, .finished {}]) ∧
      (perform .standard broken (.parsed tangledUnit)).registry = broken.registry := by
  have state : broken.stage = .failed ∧ broken.glueCompilations = 1 ∧
      broken.types.map TypeRecord.id = ["m::A", "m::B"] := by
    decide +kernel
  obtain ⟨failed, once, ids⟩ := state
  obtain ⟨_, rests⟩ := glueCompilations_le_one_and_failed_rests .standard
    .plain {} breaking
  exact ⟨failed, once, ids, (rests failed _).1, (rests failed []).2 _ nofun⟩

end Session

end WireModules
