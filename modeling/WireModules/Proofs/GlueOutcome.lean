import WireModules.Proofs.FailedSessions

/-!
# What becomes of the answer to a glue compilation

A session is to be at the stage at which the glue code is compiled only if the coordinator granted the
request, and to have failed if it did not. A compilation that is denied the glue code fails. The hook
for finished programs takes the need for glue away before it asks, and leaves the stage to the
compilation that called it; so the law holds of a session exactly if the hook was never denied outside
of one.
-/

set_option autoImplicit false

namespace WireModules.Session

variable {γ : Type} {environment : Environment γ} {before after : Session γ}

/-- How often the coordinator, asked to compile the glue code, granted it or did not. -/
def glueAnswers (granted : Bool) (session : Session γ) : Nat :=
  session.trace.count (.asked .compile granted)

theorem glueCompilations_eq (session : Session γ) :
    session.glueCompilations = session.glueAnswers true + session.glueAnswers false := by
  rw [glueCompilations, glueAnswers, glueAnswers]
  induction session.trace with
  | nil => rfl
  | cons signal rest ih =>
    rw [List.countP_cons, List.count_cons, List.count_cons, ih]
    cases signal with
    | asked request granted =>
      cases request <;> cases granted <;> simp [Signal.isGlueCompilation] <;> omega
    | _ => simp [Signal.isGlueCompilation]

/-- After an operation the coordinator has denied the glue code once more. -/
def Denies (environment : Environment γ) (before : Session γ) (operation : Operation) : Prop :=
  before.glueAnswers false < (perform environment before operation).glueAnswers false

/-- The stage after an operation is right about the glue code. -/
structure Lawful (environment : Environment γ) (before : Session γ) (operation : Operation) :
    Prop where
  granted : (perform environment before operation).stage = .glueCompiled →
    0 < (perform environment before operation).glueAnswers true
  denied : Denies environment before operation →
    (perform environment before operation).stage = .failed

/-! ## What each step leaves of it -/

/-- All that a session has of its glue code: the answers so far, whether it has yet to ask, and the
stage. -/
def glueStatus (session : Session γ) : Nat × Nat × Bool × Stage :=
  (session.glueAnswers true, session.glueAnswers false, session.needsGlue, session.stage)

theorem glueAnswers_append {added : List Signal} (session : Session γ) (granted : Bool)
    (other : ∀ signal ∈ added, signal.isGlueCompilation = false) :
    { session with trace := session.trace ++ added }.glueAnswers granted =
      session.glueAnswers granted := by
  have none : added.count (.asked .compile granted) = 0 := by
    rw [List.count_eq_zero]
    exact fun member => Bool.noConfusion (other _ member)
  rw [glueAnswers, List.count_append, none]
  rfl

theorem steady_glueStatus : Steady environment glueStatus where
  emit session signal other := by
    have same := fun granted =>
      glueAnswers_append session granted (List.forall_mem_singleton.mpr other)
    rw [glueStatus, same, same]
    rfl
  registry _ _ _ := rfl
  announce _ _ _ := rfl

/-- The hook for finished programs leaves the stage as it is. If it succeeds, the glue code was not
denied. -/
theorem keeps_stage_programFinished :
    Action.Keeps (fun session : Session γ => session.stage) (programFinished environment) := by
  intro session
  rw [Action.finalState, run_programFinished]
  by_cases rests : (session.isFailed || !session.needsGlue) = true
  · rw [if_pos rests]
  · rw [if_neg rests]
    dsimp only
    cases (environment.coordinator.compile session.registry session.glue).answer with
    | error fault => rfl
    | ok granted => cases granted <;> rfl

theorem denials_programFinished_ok (ran : (programFinished environment).run before = .ok ⟨⟩ after) :
    after.glueAnswers false = before.glueAnswers false := by
  rw [run_programFinished] at ran
  split at ran
  · cases ran
    rfl
  · dsimp only at ran
    split at ran
    · cases ran
      simp [glueAnswers, consulted, beginGlue, List.count_append, List.count_eq_zero]
    · cases ran
    · cases ran

/-- No step of a compilation goes on after the glue code was denied. -/
theorem denials_react_ok {event : CompileEvent}
    (ran : (react environment event).run before = .ok ⟨⟩ after) :
    after.glueAnswers false = before.glueAnswers false := by
  cases finishes : event.isFinished with
  | false =>
    have same := (steady_glueStatus.keeps_react finishes).of_run_eq_ok ran
    exact congrArg (fun status => status.2.1) same
  | true =>
    cases event with
    | finished program => exact denials_programFinished_ok ran
    | _ => cases finishes

/-- A compilation that succeeds was not denied the glue code, and it has asked for it by then if the
stage says that the glue code is compiled. -/
theorem glueStatus_compile_ok {files : FileSystem} {program : Program}
    (ran : (compile environment files).run before = .ok (some program) after) :
    after.glueAnswers false = before.glueAnswers false ∧
      (after.stage = .glueCompiled → after.needsGlue = false) := by
  rcases compile_refused_or_delivered environment files before with ⟨_, refused⟩ | ⟨_, runs⟩
  · exact absurd ran (refused program after)
  rw [ran] at runs
  split at runs
  · next delivered taken ranDeliver =>
    cases runs
    obtain ⟨_, events⟩ := deliver_ok ranDeliver
    have begun : before.beginCompiling.glueAnswers false = before.glueAnswers false :=
      glueAnswers_append before false (List.forall_mem_singleton.mpr rfl)
    have settled : taken.settle.glueAnswers false = taken.glueAnswers false :=
      glueAnswers_append taken false (List.forall_mem_singleton.mpr rfl)
    have passed := @Action.forM_reaches _ _ (react environment) _
      (fun first second => second.glueAnswers false = first.glueAnswers false) (fun _ => rfl)
      (fun first second => second.trans first) (fun _ _ _ _ => denials_react_ok) _ _ events
    refine ⟨settled.trans (passed.trans begun), fun compiled => ?_⟩
    change (if taken.needsGlue then Stage.loading else .glueCompiled) = .glueCompiled at compiled
    split at compiled
    · cases compiled
    · next done => exact Bool.eq_false_iff.mpr done
  · cases runs

theorem Loads.glueAnswers (loads : Loads before after) (granted : Bool) :
    after.glueAnswers granted = before.glueAnswers granted := by
  obtain ⟨added, traced, loading⟩ := loads.signals
  rw [Session.glueAnswers, traced]
  refine glueAnswers_append before granted fun signal member => ?_
  have loads := loading signal member
  cases signal with
  | asked request answer => cases request <;> trivial
  | _ => rfl

/-! ## What a whole session leaves of it -/

/-- The stage of a session is right about the glue code, and no denial has been overlooked. -/
structure Heeds (session : Session γ) : Prop where
  compiled : session.stage = .glueCompiled → session.needsGlue = false
  denied : session.glueAnswers false = 0 ∨ session.stage = .failed

theorem heeds_start (options : Options) (glue : γ) : (start environment options glue).Heeds where
  compiled := nofun
  denied := by
    refine .inl (List.count_eq_zero.mpr fun member => ?_)
    obtain ⟨_, _, logged⟩ := List.mem_map.mp member
    cases logged

theorem Heeds.of_failed (failed : before.stage = .failed) : before.Heeds :=
  ⟨fun compiled => (by cases failed.symm.trans compiled), .inr failed⟩

theorem Heeds.of_denials (heeds : before.Heeds)
    (denials : after.glueAnswers false = before.glueAnswers false)
    (stage : after.stage = before.stage ∨ before.stage ≠ .failed)
    (compiled : after.stage = .glueCompiled → after.needsGlue = false) : after.Heeds := by
  refine ⟨compiled, ?_⟩
  rw [denials]
  rcases heeds.denied with none | failed
  · exact .inl none
  · exact .inr ((stage.resolve_right fun running => running failed).trans failed)

theorem heeds_compile (files : FileSystem) (heeds : before.Heeds) :
    ((compile environment files).finalState before).Heeds := by
  rcases compile_refused_or_delivered environment files before with ⟨same, _⟩ | ⟨running, runs⟩
  · rwa [same]
  have notFailed : before.stage ≠ .failed := by simpa [isFailed] using running
  cases ran : (compile environment files).run before with
  | ok given after =>
    rw [Action.finalState, ran]
    rw [ran] at runs
    split at runs <;> cases runs
    obtain ⟨denials, compiled⟩ := glueStatus_compile_ok ran
    exact heeds.of_denials denials (.inr notFailed) compiled
  | error fault after =>
    rw [Action.finalState, ran]
    rw [ran] at runs
    split at runs <;> cases runs
    exact .of_failed rfl

theorem heeds_load (files : FileSystem) (requested : Path) (base : Option Path)
    (heeds : before.Heeds) : ((load environment files requested base).finalState before).Heeds := by
  obtain ⟨begun, rfl | ⟨idle, rfl⟩, loads⟩ :=
    (loadSteps_loads environment).load files requested base before
  · refine heeds.of_denials (loads.glueAnswers false) (.inl loads.stage) ?_
    rw [loads.stage, loads.needsGlue]
    exact heeds.compiled
  · refine heeds.of_denials (loads.glueAnswers false) (.inr fun failed => ?_) fun compiled => ?_
    · cases idle.symm.trans failed
    · cases loads.stage.symm.trans compiled

/-- The hook may be denied the glue code without failing the session, but does not say that the glue
code is compiled. -/
theorem heeds_programFinished (heeds : before.Heeds)
    (heeded : ((programFinished environment).finalState before).glueAnswers false ≤
      before.glueAnswers false) : ((programFinished environment).finalState before).Heeds := by
  have stage : ((programFinished environment).finalState before).stage = before.stage :=
    keeps_stage_programFinished before
  refine ⟨fun compiled => ?_, ?_⟩
  · have asked : before.needsGlue = false := heeds.compiled (stage.symm.trans compiled)
    rw [Action.finalState, run_programFinished, if_pos (by simp [asked])]
    exact asked
  · rw [stage]
    exact heeds.denied.imp_left fun none => Nat.le_zero.mp (Nat.le_trans heeded (Nat.le_of_eq none))

/-- Only the hook, called directly, can have a denial overlooked. -/
theorem heeds_perform {operation : Operation} (heeds : before.Heeds)
    (heeded : ∀ program, operation = .finished program → ¬ Denies environment before operation) :
    (perform environment before operation).Heeds := by
  have unasked : ∀ {after : Session γ}, after.glueStatus = before.glueStatus → after.Heeds := by
    intro after same
    simp only [glueStatus, Prod.mk.injEq] at same
    obtain ⟨_, denials, needs, stage⟩ := same
    exact heeds.of_denials denials (.inl stage) (by rw [stage, needs]; exact heeds.compiled)
  cases operation with
  | load files requested base => exact heeds_load files requested base heeds
  | compile files => exact heeds_compile files heeds
  | parsed unit => exact unasked (steady_glueStatus.keeps_unitParsed unit before)
  | resolved unit => exact unasked (steady_glueStatus.keeps_unitResolved unit before)
  | finished program => exact heeds_programFinished heeds (Nat.not_lt.mp (heeded program rfl))
  | close => exact unasked rfl

/-- If the hook is not denied when it is called directly, no denial is ever overlooked. -/
theorem heeds_performAll (heeds : before.Heeds) {operations : List Operation}
    (heeded : ∀ earlier program later, operations = earlier ++ .finished program :: later →
      ¬ Denies environment (performAll environment before earlier) (.finished program)) :
    (performAll environment before operations).Heeds := by
  induction operations generalizing before with
  | nil => exact heeds
  | cons operation rest ih =>
    refine ih (heeds_perform heeds ?_) ?_
    · rintro program rfl
      exact heeded [] program rest rfl
    · rintro earlier program later rfl
      exact heeded (operation :: earlier) program later rfl

/-- The need for glue is counted once, so that a stage that has the glue code compiled and no denial
comes of a grant. -/
theorem lawful_of_heeds {operation : Operation} (budget : before.glueBudget = 1)
    (heeds : (perform environment before operation).Heeds) :
    Lawful environment before operation where
  granted compiled := by
    have running : (perform environment before operation).stage ≠ .failed := by
      rw [compiled]
      nofun
    have undenied := heeds.denied.resolve_right running
    have asked := heeds.compiled compiled
    have once := (@glueBudget_perform _ environment before operation).trans budget
    rw [glueBudget, glueCompilations_eq, undenied, asked] at once
    exact Nat.lt_of_lt_of_eq Nat.one_pos once.symm
  denied denies := heeds.denied.resolve_left (Nat.ne_of_gt (Nat.zero_lt_of_lt denies))

/-- Whatever is done with a session, in whatever order and with whatever host, coordinator and front
end: the stage says that the glue code is compiled only if the coordinator granted it, and every
operation in which it was denied leaves a failed session, exactly if the hook for finished programs is
never denied the glue code where it is called directly. In a compilation it may be. -/
theorem lawful_iff_heeded (environment : Environment γ) (options : Options) (glue : γ)
    (operations : List Operation) :
    (∀ earlier operation later, operations = earlier ++ operation :: later →
        Lawful environment (performAll environment (start environment options glue) earlier)
          operation) ↔
      ∀ earlier program later, operations = earlier ++ .finished program :: later →
        ¬ Denies environment (performAll environment (start environment options glue) earlier)
          (.finished program) := by
  constructor
  · intro lawful earlier program later split denies
    let session := performAll environment (start environment options glue) earlier
    have failed := (lawful earlier _ later split).denied denies
    have stage : (perform environment session (.finished program)).stage = session.stage :=
      keeps_stage_programFinished session
    -- A session that has failed is not asked for its glue code.
    have rests : perform environment session (.finished program) = session := by
      change (programFinished environment).finalState session = session
      rw [Action.finalState, run_programFinished,
        if_pos (by simp [isFailed, stage.symm.trans failed])]
    rw [Denies, rests] at denies
    exact Nat.lt_irrefl _ denies
  · rintro heeded earlier operation later rfl
    have heeds : (performAll environment (start environment options glue) earlier).Heeds := by
      refine heeds_performAll (heeds_start options glue) ?_
      rintro first program rest rfl
      exact heeded first program (rest ++ operation :: later) (by simp)
    refine lawful_of_heeds ((glueBudget_performAll _ earlier).trans (glueBudget_start options glue)) ?_
    refine heeds_perform heeds ?_
    rintro program rfl
    exact heeded earlier program later rfl

/-! ## A denial that is overlooked -/

/-- A coordinator that takes every glue file and never compiles the glue code. -/
def denying : Environment Unit where
  coordinator :=
    { attach := id
      load := fun _ _ _ => ⟨(), [], .ok true⟩
      announce := fun _ _ _ => ⟨(), [], .ok ()⟩
      compile := fun _ _ => ⟨(), [], .ok false⟩
      exports := fun _ => [] }

/-- The hook is called before anything is compiled. -/
def overlooking : List Operation :=
  [.finished {}, .load firstEdition (.ofString "m.weft") none, .compile firstEdition]

/-- The hook that is denied the glue code leaves the session idle, and the compilation after it has the
stage say that the glue code is compiled. -/
theorem overlooking_not_lawful :
    let first := start denying .plain ()
    let last := performAll denying first overlooking
    (¬ ∀ earlier operation later, overlooking = earlier ++ operation :: later →
        Lawful denying (performAll denying first earlier) operation) ∧
      (perform denying first (.finished {})).stage = .idle ∧
      last.stage = .glueCompiled ∧ last.glueAnswers true = 0 ∧ last.glueAnswers false = 1 := by
  intro first last
  have ends : (perform denying first (.finished {})).stage = .idle ∧
      last.stage = .glueCompiled ∧ last.glueAnswers true = 0 ∧ last.glueAnswers false = 1 := by
    decide +kernel
  refine ⟨fun lawful => ?_, ends⟩
  obtain ⟨_, compiled, ungranted, _⟩ := ends
  have granted := (lawful [.finished {}, .load firstEdition (.ofString "m.weft") none]
    (.compile firstEdition) [] rfl).granted compiled
  exact Nat.ne_of_gt granted ungranted

end WireModules.Session
