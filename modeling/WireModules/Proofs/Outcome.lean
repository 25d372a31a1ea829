import WireModules.Fault

/-!
# Steps of actions

A sequence of steps succeeds only if each of them does, and fails at one of them. Part of the state
may be left as it is by all steps, also by one that fails.
-/

set_option autoImplicit false

namespace WireModules

theorem exists_of_bind_eq_ok {ε α β : Type} {first : Except ε α} {next : α → Except ε β}
    {result : β} (success : first >>= next = .ok result) :
    ∃ value, first = .ok value ∧ next value = .ok result := by
  cases first with
  | error reason => cases success
  | ok value => exact ⟨value, rfl, success⟩

theorem error_of_bind_eq_error {ε α β : Type} {first : Except ε α} {next : α → Except ε β}
    {reason : ε} (failed : first >>= next = .error reason) :
    first = .error reason ∨ ∃ value, first = .ok value ∧ next value = .error reason := by
  cases first with
  | error own =>
    cases failed
    exact .inl rfl
  | ok value => exact .inr ⟨value, rfl, failed⟩

theorem eq_ok_of_toOption {ε α : Type} {result : Except ε α} {value : α}
    (gives : result.toOption = some value) : result = .ok value := by
  cases result with
  | error reason => cases gives
  | ok other =>
    cases gives
    rfl

/-- What goes wrong, if anything does. -/
def errorOf? {ε α : Type} : Except ε α → Option ε
  | .ok _ => none
  | .error reason => some reason

theorem eq_error_of_errorOf? {ε α : Type} {result : Except ε α} {reason : ε}
    (failed : errorOf? result = some reason) : result = .error reason := by
  cases result with
  | ok value => cases failed
  | error own =>
    cases failed
    rfl

theorem exists_of_errorOf?_eq_none {ε α : Type} {result : Except ε α}
    (passed : errorOf? result = none) : ∃ value, result = .ok value := by
  cases result with
  | ok value => exact ⟨value, rfl⟩
  | error reason => cases passed

theorem Fault.demand_ok {σ α : Type} {check : Except Failure α} {value : α} {before after : σ}
    (ran : (Fault.demand check : Action σ α).run before = .ok value after) :
    check = .ok value ∧ after = before := by
  cases check with
  | ok given =>
    cases ran
    exact ⟨rfl, rfl⟩
  | error reason => cases ran

namespace Action

variable {σ α β : Type}

theorem exists_of_run_bind_eq_ok {first : Action σ α} {next : α → Action σ β} {result : β}
    {before after : σ} (success : (first >>= next).run before = .ok result after) :
    ∃ value between, first.run before = .ok value between ∧
      (next value).run between = .ok result after := by
  rw [EStateM.run_bind] at success
  split at success
  · next value between ran => exact ⟨value, between, ran, success⟩
  · cases success

theorem ofExcept_ok {check : Except Fault α} {value : α} {before after : σ}
    (ran : (ofExcept check : Action σ α).run before = .ok value after) :
    check = .ok value ∧ after = before := by
  cases check with
  | ok given =>
    cases ran
    exact ⟨rfl, rfl⟩
  | error fault => cases ran

theorem exists_of_run_forM_cons_eq_ok {step : α → Action σ PUnit} {first : α} {rest : List α}
    {before after : σ} (success : ((first :: rest).forM step).run before = .ok ⟨⟩ after) :
    ∃ between, (step first).run before = .ok ⟨⟩ between ∧
      (rest.forM step).run between = .ok ⟨⟩ after := by
  obtain ⟨_, between, ranFirst, ranRest⟩ := exists_of_run_bind_eq_ok success
  exact ⟨between, ranFirst, ranRest⟩

theorem run_forM_cons {step : α → Action σ PUnit} {first : α} {rest : List α}
    {before between : σ} (ran : (step first).run before = .ok ⟨⟩ between) :
    ((first :: rest).forM step).run before = (rest.forM step).run between := by
  change (step first >>= fun _ => rest.forM step).run before = _
  rw [EStateM.run_bind, ran]

theorem run_forM_append {step : α → Action σ PUnit} {first second : List α}
    {before between : σ} (ran : (first.forM step).run before = .ok ⟨⟩ between) :
    ((first ++ second).forM step).run before = (second.forM step).run between := by
  induction first generalizing before with
  | nil =>
    cases ran
    rfl
  | cons item rest ih =>
    obtain ⟨started, ranItem, ranRest⟩ := exists_of_run_forM_cons_eq_ok ran
    exact (run_forM_cons ranItem).trans (ih ranRest)

theorem run_forM_cons_error {step : α → Action σ PUnit} {first : α} {rest : List α}
    {fault : Fault} {before after : σ} (failed : (step first).run before = .error fault after) :
    ((first :: rest).forM step).run before = .error fault after := by
  change (step first >>= fun _ => rest.forM step).run before = _
  rw [EStateM.run_bind, failed]

theorem exists_of_run_forM_append_eq_ok {step : α → Action σ PUnit} {first second : List α}
    {before after : σ} (success : ((first ++ second).forM step).run before = .ok ⟨⟩ after) :
    ∃ between, (first.forM step).run before = .ok ⟨⟩ between ∧
      (second.forM step).run between = .ok ⟨⟩ after := by
  induction first generalizing before with
  | nil => exact ⟨before, rfl, success⟩
  | cons item rest ih =>
    obtain ⟨started, ranItem, ranOthers⟩ := exists_of_run_forM_cons_eq_ok success
    obtain ⟨between, ranRest, ranSecond⟩ := ih ranOthers
    exact ⟨between, (run_forM_cons ranItem).trans ranRest, ranSecond⟩

theorem error_of_run_bind {first : Action σ α} {next : α → Action σ β} {fault : Fault}
    {before after : σ} (failed : (first >>= next).run before = .error fault after) :
    first.run before = .error fault after ∨
      ∃ value between, first.run before = .ok value between ∧
        (next value).run between = .error fault after := by
  rw [EStateM.run_bind] at failed
  split at failed
  · next value between ran => exact .inr ⟨value, between, ran, failed⟩
  · next ran =>
    cases failed
    exact .inl ran

theorem run_bind_of_run_eq_ok {first : Action σ α} {next : α → Action σ β} {value : α}
    {before between : σ} (ran : first.run before = .ok value between) :
    (first >>= next).run before = (next value).run between := by
  rw [EStateM.run_bind, ran]

/-- What fails after a step that does not. -/
theorem error_of_run_bind_of_ok {first : Action σ α} {next : α → Action σ β} {value : α}
    {fault : Fault} {before between after : σ}
    (failed : (first >>= next).run before = .error fault after)
    (ran : first.run before = .ok value between) : (next value).run between = .error fault after :=
  (run_bind_of_run_eq_ok ran).symm.trans failed

/-- A sequence that fails has failed at one of its steps, after the steps before. -/
theorem error_of_run_forM {step : α → Action σ PUnit} {items : List α} {fault : Fault}
    {before after : σ} (failed : (items.forM step).run before = .error fault after) :
    ∃ earlier item later between, items = earlier ++ item :: later ∧
      (earlier.forM step).run before = .ok ⟨⟩ between ∧
      (step item).run between = .error fault after := by
  induction items generalizing before with
  | nil => cases failed
  | cons first rest ih =>
    rcases error_of_run_bind failed with own | ⟨_, started, ranFirst, failedRest⟩
    · exact ⟨[], first, rest, before, rfl, rfl, own⟩
    · obtain ⟨earlier, item, later, between, rfl, ran, failedItem⟩ := ih failedRest
      exact ⟨first :: earlier, item, later, between, rfl, (run_forM_cons ranFirst).trans ran,
        failedItem⟩

/-- What is reached by steps that all are of one relation. -/
theorem forM_reaches {step : α → Action σ PUnit} {items : List α} {reaches : σ → σ → Prop}
    (stays : ∀ state, reaches state state)
    (goes : ∀ {first second third}, reaches first second → reaches second third →
      reaches first third)
    (each : ∀ item ∈ items, ∀ {before after}, (step item).run before = .ok ⟨⟩ after →
      reaches before after)
    {before after : σ} (success : (items.forM step).run before = .ok ⟨⟩ after) :
    reaches before after := by
  induction items generalizing before with
  | nil =>
    cases success
    exact stays _
  | cons item rest ih =>
    obtain ⟨between, ranFirst, ranRest⟩ := exists_of_run_forM_cons_eq_ok success
    have others := ih (fun other member => each other (.tail _ member)) ranRest
    exact goes (each item (.head _) ranFirst) others

theorem run_tryCatch (body : Action σ α) (handle : Fault → Action σ α) (before : σ) :
    (tryCatch body handle).run before =
      match body.run before with
      | .ok value after => .ok value after
      | .error fault after => (handle fault).run after := by
  change EStateM.tryCatch body handle before = _
  delta EStateM.tryCatch
  simp only [EStateM.run]
  cases body before <;> rfl

/-- The state in which an action ends, whether it succeeds or not. -/
def finalState (action : Action σ α) (before : σ) : σ :=
  match action.run before with
  | .ok _ after => after
  | .error _ after => after

theorem finalState_bind_of_run_eq_ok {first : Action σ α} {next : α → Action σ β} {value : α}
    {before between : σ} (ran : first.run before = .ok value between) :
    (first >>= next).finalState before = (next value).finalState between := by
  rw [finalState, EStateM.run_bind, ran]
  rfl

/-- What an action gives if it succeeds. -/
def outcome? (action : Action σ α) (before : σ) : Option α :=
  match action.run before with
  | .ok value _ => some value
  | .error _ _ => none

theorem exists_of_outcome?_eq_some {action : Action σ α} {value : α} {before : σ}
    (gives : action.outcome? before = some value) : ∃ after, action.run before = .ok value after := by
  rw [outcome?] at gives
  split at gives
  · next result after ran =>
    cases gives
    exact ⟨after, ran⟩
  · cases gives

theorem run_eq_ok_of_outcome? {action : Action σ α} {value : α} {before : σ}
    (gives : action.outcome? before = some value) :
    action.run before = .ok value (action.finalState before) := by
  obtain ⟨after, ran⟩ := exists_of_outcome?_eq_some gives
  rw [finalState, ran]

/-- The fault in which an action ends if it fails. -/
def fault? (action : Action σ α) (before : σ) : Option Fault :=
  match action.run before with
  | .ok _ _ => none
  | .error fault _ => some fault

theorem exists_of_fault?_eq_some {action : Action σ α} {fault : Fault} {before : σ}
    (ends : action.fault? before = some fault) : ∃ after, action.run before = .error fault after := by
  rw [fault?] at ends
  split at ends
  · cases ends
  · next reason after ran =>
    cases ends
    exact ⟨after, ran⟩

/-- Wherever an action begins, it ends in a state that is reached in a certain way. -/
def Reaches (reaches : σ → σ → Prop) (action : Action σ α) : Prop :=
  ∀ before, reaches before (action.finalState before)

namespace Reaches

variable {reaches : σ → σ → Prop}

theorem bind (goes : ∀ first second third, reaches first second → reaches second third →
      reaches first third) {first : Action σ α} {next : α → Action σ β}
    (begins : Reaches reaches first) (continues : ∀ value, Reaches reaches (next value)) :
    Reaches reaches (first >>= next) := by
  intro before
  have own := begins before
  rw [finalState] at own ⊢
  rw [EStateM.run_bind]
  cases ran : first.run before with
  | error fault after =>
    rw [ran] at own
    exact own
  | ok value between =>
    rw [ran] at own
    exact goes _ _ _ own (continues value between)

theorem forM (stays : ∀ state, reaches state state)
    (goes : ∀ first second third, reaches first second → reaches second third →
      reaches first third) {items : List α} {step : α → Action σ PUnit}
    (each : ∀ item, Reaches reaches (step item)) : Reaches reaches (items.forM step) := by
  induction items with
  | nil => exact stays
  | cons item rest ih => exact bind goes (each item) fun _ => ih

end Reaches

/-- An action leaves what is seen of the state as it is. -/
def Keeps {ν : Type} (view : σ → ν) (action : Action σ α) : Prop :=
  ∀ before, view (action.finalState before) = view before

namespace Keeps

variable {ν : Type} {view : σ → ν}

theorem of_run_eq_ok {action : Action σ α} {result : α} {before after : σ}
    (keeps : Keeps view action) (ran : action.run before = .ok result after) :
    view after = view before := by
  have same := keeps before
  rw [finalState, ran] at same
  exact same

theorem pure (value : α) : Keeps view (Pure.pure value : Action σ α) := fun _ => rfl

theorem throw (fault : Fault) : Keeps view (MonadExcept.throw fault : Action σ α) := fun _ => rfl

theorem get : Keeps view (MonadState.get : Action σ σ) := fun _ => rfl

theorem bind {first : Action σ α} {next : α → Action σ β} (keeps : Keeps view first)
    (later : ∀ value, Keeps view (next value)) : Keeps view (first >>= next) := by
  have composed : Reaches (fun before after => view after = view before) (first >>= next) :=
    .bind (fun _ _ _ same sameLater => sameLater.trans same) keeps later
  exact composed

theorem forM {items : List α} {step : α → Action σ PUnit} (each : ∀ item, Keeps view (step item)) :
    Keeps view (items.forM step) := by
  have composed : Reaches (fun before after => view after = view before) (items.forM step) :=
    .forM (fun state => Eq.refl (view state)) (fun _ _ _ same sameLater => sameLater.trans same)
      each
  exact composed

end Keeps

end Action

end WireModules
