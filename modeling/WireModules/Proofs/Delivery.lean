import WireModules.Proofs.CycleReports
import WireModules.Proofs.ImportClosure
import WireModules.Proofs.ReadingEnd

/-!
# What a listener is told

A listener is told of every unit when it has been read, then of every unit again once all are
resolved, and at last of the program. Reading, resolution or the listener itself may end this at any
point; what has been told by then is the beginning of the whole.
-/

set_option autoImplicit false

namespace WireModules

/-- Whether a hook of a listener is called for an event, which is not so for lines of the log. -/
def CompileEvent.isHook : CompileEvent → Bool
  | .logged _ => false
  | _ => true

/-! ## Delivery -/

/-- The state of a listener, with the events that it has been told. -/
structure Observed (σ : Type) where
  events : List CompileEvent
  state : σ

/-- The end of a delivery without what has been kept of it. -/
def Observed.forget {σ : Type} :
    EStateM.Result Fault (Observed σ) Program → EStateM.Result Fault σ Program
  | .ok program observed => .ok program observed.state
  | .error fault observed => .error fault observed.state

section Delivery

variable {σ : Type} (react : CompileEvent → Action σ Unit)

/-- A listener that keeps the events that it is told, also one that it refuses. -/
def observing (event : CompileEvent) : Action (Observed σ) Unit := fun observed =>
  match (react event).run observed.state with
  | .ok _ state => .ok () ⟨observed.events ++ [event], state⟩
  | .error fault state => .error fault ⟨observed.events ++ [event], state⟩

/-- How a delivery can end: all events have been taken, and the compilation ends as it does without
a listener; or an event has been refused, with which it ends at once. -/
inductive Delivered (compilation : Compilation) (state : σ) :
    EStateM.Result Fault (Observed σ) Program → Prop where
  | finished {program : Program} {after : σ} : compilation.outcome = .ok program →
      (compilation.events.forM react).run state = .ok ⟨⟩ after →
      Delivered compilation state (.ok program ⟨compilation.events, after⟩)
  | failed {fault : Fault} {after : σ} : compilation.outcome = .error fault →
      (compilation.events.forM react).run state = .ok ⟨⟩ after →
      Delivered compilation state (.error fault ⟨compilation.events, after⟩)
  | refused {earlier : List CompileEvent} {event : CompileEvent} {between after : σ}
      {fault : Fault} : earlier ++ [event] <+: compilation.events →
      (earlier.forM react).run state = .ok ⟨⟩ between →
      (react event).run between = .error fault after →
      Delivered compilation state (.error fault ⟨earlier ++ [event], after⟩)

variable {react}

theorem run_forM_observing {events seen : List CompileEvent} {before after : σ}
    (taken : (events.forM react).run before = .ok ⟨⟩ after) :
    (events.forM (observing react)).run ⟨seen, before⟩ = .ok ⟨⟩ ⟨seen ++ events, after⟩ := by
  induction events generalizing seen before with
  | nil =>
    cases taken
    rw [List.append_nil]
    rfl
  | cons event rest ih =>
    obtain ⟨between, first, others⟩ := Action.exists_of_run_forM_cons_eq_ok taken
    have observed : (observing react event).run ⟨seen, before⟩ =
        .ok ⟨⟩ ⟨seen ++ [event], between⟩ := by
      rw [EStateM.run, observing, first]
    rw [Action.run_forM_cons observed, ih others, List.append_assoc, List.singleton_append]

theorem error_of_run_forM_observing {events : List CompileEvent} {before after : σ} {fault : Fault}
    (failed : (events.forM react).run before = .error fault after) :
    ∃ earlier event between, earlier ++ [event] <+: events ∧
      (earlier.forM react).run before = .ok ⟨⟩ between ∧
      (react event).run between = .error fault after ∧
      (events.forM (observing react)).run ⟨[], before⟩ =
        .error fault ⟨earlier ++ [event], after⟩ := by
  obtain ⟨earlier, event, later, between, rfl, taken, refused⟩ := Action.error_of_run_forM failed
  have observed : (observing react event).run ⟨earlier, between⟩ =
      .error fault ⟨earlier ++ [event], after⟩ := by
    rw [EStateM.run, observing, refused]
  refine ⟨earlier, event, between, ⟨later, by simp⟩, taken, refused, ?_⟩
  rw [Action.run_forM_append (run_forM_observing taken), List.nil_append]
  exact Action.run_forM_cons_error observed

theorem delivered (compilation : Compilation) (state : σ) :
    Delivered react compilation state ((compilation.deliver (observing react)).run ⟨[], state⟩) := by
  rw [Compilation.deliver, EStateM.run_bind]
  cases ran : (compilation.events.forM react).run state with
  | ok _ after =>
    rw [run_forM_observing ran]
    cases ends : compilation.outcome with
    | ok program => exact .finished ends ran
    | error fault => exact .failed ends ran
  | error fault after =>
    obtain ⟨earlier, event, between, begun, taken, refused, stopped⟩ :=
      error_of_run_forM_observing ran
    rw [stopped]
    exact .refused begun taken refused

/-- Observing a listener changes nothing about how a delivery ends. -/
theorem forget_run_observing (compilation : Compilation) (state : σ) :
    Observed.forget ((compilation.deliver (observing react)).run ⟨[], state⟩) =
      (compilation.deliver react).run state := by
  rw [Compilation.deliver, Compilation.deliver, EStateM.run_bind, EStateM.run_bind]
  cases ran : (compilation.events.forM react).run state with
  | ok _ after =>
    rw [run_forM_observing ran]
    cases compilation.outcome <;> rfl
  | error fault after =>
    obtain ⟨_, _, _, _, _, _, stopped⟩ := error_of_run_forM_observing ran
    rw [stopped]
    rfl

theorem Delivered.events_prefix {compilation : Compilation} {state : σ}
    {delivery : Action (Observed σ) Program}
    (delivered : Delivered react compilation state (delivery.run ⟨[], state⟩)) :
    (delivery.finalState ⟨[], state⟩).events <+: compilation.events := by
  rw [Action.finalState]
  generalize delivery.run ⟨[], state⟩ = result at delivered
  cases delivered with
  | finished _ taken => exact List.prefix_rfl
  | failed _ taken => exact List.prefix_rfl
  | refused begun _ _ => exact begun

end Delivery

/-! ## The events of a compilation -/

/-- Whatever resolution reports is an error. -/
theorem Resolve.isError_of_mem_diagnostics {units : List ProgramUnit} :
    ∀ diagnostic ∈ (Resolution.ofUnits units).diagnostics, diagnostic.isError = true := by
  intro diagnostic member
  rcases List.mem_append.mp member with named | cyclic
  · simp only [nameDiagnostics, List.mem_flatMap, List.mem_map] at named
    obtain ⟨unit, _, decl, _, ⟨error, position⟩, _, rfl⟩ := named
    rfl
  · obtain ⟨id, _, reported⟩ := List.mem_filterMap.mp cyclic
    obtain ⟨declared, _, rfl⟩ := Option.map_eq_some_iff.mp reported
    rfl

namespace Loading

variable {sources : Sources} {before after loading : Loading}

/-- The units have been told of in order. -/
def Told (loading : Loading) : Prop :=
  loading.events.filter CompileEvent.isHook = loading.units.map .parsed

theorem Told.withLog (told : loading.Told) (text : String) : (loading.withLog text).Told := by
  rw [Told, Loading.withLog, List.filter_append, told]
  exact List.append_nil _

theorem Told.withUnit (told : loading.Told) (unit : ProgramUnit) : (loading.withUnit unit).Told := by
  rw [Told, Loading.withUnit, List.filter_append, told, List.map_append]
  rfl

theorem Told.of_step (told : before.Told) (step : Step sources before after) : after.Told := by
  cases step with
  | logged text => exact told.withLog text
  | linked queued => exact told
  | input queued absent loaded => exact told.withUnit _
  | imported asks located absent loaded named => exact told.withUnit _

theorem Told.of_steps (told : before.Told) (steps : Steps sources before after) : after.Told := by
  induction steps with
  | refl => exact told
  | tail _ step ih => exact ih.of_step step

theorem Ended.told (ended : Ended sources opening loading) : loading.Told := by
  have start : opening.Told := rfl
  cases ended with
  | steps steps => exact start.of_steps steps
  | misplaced steps loaded => exact (start.of_steps steps).withUnit _

theorem Ended.isParsed (ended : Ended sources opening loading) :
    ∀ unit ∈ loading.units, unit.IsParsed := by
  cases ended with
  | steps steps => exact Steps.isParsed steps
  | misplaced steps loaded => exact isParsed_withUnit (Steps.isParsed steps) loaded

/-- How reading leaves a program, also if it fails. -/
def ofQueue (files : FileSystem) (options : Options) (queue : Queue) : Loading :=
  (readProgram files options queue).finalState {}

theorem ended_ofQueue (files : FileSystem) (options : Options) (queue : Queue) :
    Ended (.ofQueue files options queue) opening (ofQueue files options queue) := by
  rw [ofQueue, Action.finalState]
  cases ran : (readProgram files options queue).run {} with
  | ok _ loading => exact .steps (readProgram_ok ran).1
  | error fault loading => exact (readProgram_error ran).1

/-- The program that is read, resolved. -/
def program (loading : Loading) : Program :=
  ⟨(Resolution.ofUnits loading.units).units, loading.linkInputs⟩

/-- What a listener is told of a program if nothing fails. -/
def hooks (loading : Loading) : List CompileEvent :=
  loading.units.map .parsed ++ loading.program.units.map .resolved ++ [.finished loading.program]

/-- All that the units import has been found, and resolved without reports. -/
structure Complete (sources : Sources) (loading : Loading) : Prop where
  imports : ∀ unit ∈ loading.units, ∀ imported ∈ unit.module.imports,
    Answered sources loading (requestOf unit imported)
  silent : (Resolution.ofUnits loading.units).diagnostics = []

end Loading

theorem Compilation.hooks_ofQueue (files : FileSystem) (options : Options) (queue : Queue) :
    ((∃ fault, (ofQueue files options queue).outcome = .error fault) ∧
      (ofQueue files options queue).events.filter CompileEvent.isHook =
        (Loading.ofQueue files options queue).units.map .parsed) ∨
    (Loading.Complete (.ofQueue files options queue) (.ofQueue files options queue) ∧
      (ofQueue files options queue).outcome = .ok (Loading.ofQueue files options queue).program ∧
      (ofQueue files options queue).events.filter CompileEvent.isHook =
        (Loading.ofQueue files options queue).hooks) := by
  have told := (Loading.ended_ofQueue files options queue).told
  revert told
  rw [ofQueue, Loading.ofQueue, Action.finalState]
  cases ran : (Loading.readProgram files options queue).run {} with
  | error fault loading =>
    intro told
    exact .inl ⟨⟨fault, rfl⟩, told⟩
  | ok _ loading =>
    intro told
    dsimp only at told ⊢
    rw [ofLoading]
    dsimp only
    split
    -- What resolution reports are errors, so that there are none if it ends here.
    · refine .inl ⟨⟨_, rfl⟩, ?_⟩
      rw [List.filter_append, told]
      exact List.append_nil _
    · next silent =>
      refine .inr ⟨⟨(Loading.readProgram_ok ran).2, ?_⟩, rfl, ?_⟩
      · apply List.eq_nil_iff_forall_not_mem.mpr
        intro diagnostic member
        apply silent
        exact List.any_eq_true.mpr
          ⟨diagnostic, member, Resolve.isError_of_mem_diagnostics diagnostic member⟩
      · have resolved : ∀ units : List ProgramUnit,
            (units.map CompileEvent.resolved).filter CompileEvent.isHook = units.map .resolved := by
          intro units
          apply List.filter_eq_self.mpr
          simp [CompileEvent.isHook]
        have hooks : loading.events.filter CompileEvent.isHook = loading.units.map .parsed := told
        simp only [List.filter_append, hooks, resolved]
        simp [CompileEvent.isHook, Loading.hooks, Loading.program]

/-- A listener is told of the units in order, then of the resolved units in order and then of the
program, or of the beginning of this. It is told of unresolved units first, and of resolved ones
only once all are; an event that it refuses is the last, and its fault ends the compilation. If it
refuses none, it is told of all units that have been read, and of the rest if none of this failed. -/
theorem hooks_in_order {σ : Type} (files : FileSystem) (options : Options) (queue : Queue)
    (react : CompileEvent → Action σ Unit) (state : σ) :
    let loading := Loading.ofQueue files options queue
    let compilation := Compilation.ofQueue files options queue
    let delivery := compilation.deliver (observing react)
    let told := (delivery.finalState ⟨[], state⟩).events.filter CompileEvent.isHook
    told <+: loading.hooks ∧
      (∀ unit, .parsed unit ∈ told → ∀ decl ∈ unit.module.declaredTypes, decl.resolved = none) ∧
      (∀ unit, .resolved unit ∈ told → loading.Complete (.ofQueue files options queue) ∧
        ∀ other ∈ loading.program.units, ∀ decl ∈ other.module.declaredTypes,
          ∃ definition, decl.resolved = some definition ∧ ∀ ref ∈ definition.refs,
            ∀ node ∈ ref.nodes, node.resolved.isSome = true ∧ node.kind.isSome = true) ∧
      Delivered react compilation state (delivery.run ⟨[], state⟩) ∧
      Observed.forget (delivery.run ⟨[], state⟩) = (compilation.deliver react).run state ∧
      (∀ program after, delivery.run ⟨[], state⟩ = .ok program after →
        told = loading.hooks ∧ program = loading.program) ∧
      (((∃ fault, compilation.outcome = .error fault) ∧
          compilation.events.filter CompileEvent.isHook = loading.units.map .parsed) ∨
        (loading.Complete (.ofQueue files options queue) ∧
          compilation.outcome = .ok loading.program ∧
          compilation.events.filter CompileEvent.isHook = loading.hooks)) := by
  intro loading compilation delivery told
  have delivered : Delivered react compilation state (delivery.run ⟨[], state⟩) :=
    WireModules.delivered compilation state
  have toldPrefix : told <+: compilation.events.filter CompileEvent.isHook :=
    delivered.events_prefix.filter _
  have parsed := (Loading.ended_ofQueue files options queue).isParsed
  have onlyParsed : loading.units.map .parsed <+: loading.hooks :=
    ⟨_, (List.append_assoc ..).symm⟩
  have whole := Compilation.hooks_ofQueue files options queue
  have ordered : told <+: loading.hooks := by
    rcases whole with ⟨_, hooks⟩ | ⟨_, _, hooks⟩
    · exact (hooks ▸ toldPrefix).trans onlyParsed
    · exact hooks ▸ toldPrefix
  refine ⟨ordered, ?_, ?_, delivered, forget_run_observing compilation state, ?_, whole⟩
  · intro unit member decl inside
    have listed := ordered.subset member
    simp only [Loading.hooks, List.mem_append, List.mem_map, List.mem_singleton,
      CompileEvent.parsed.injEq, reduceCtorEq, and_false, exists_false, or_false,
      exists_eq_right] at listed
    exact (parsed unit listed).parsed.unresolved inside
  · intro unit member
    rcases whole with ⟨_, hooks⟩ | ⟨complete, _, _⟩
    · have listed := toldPrefix.subset member
      rw [hooks] at listed
      obtain ⟨_, _, same⟩ := List.mem_map.mp listed
      cases same
    · exact ⟨complete,
        ((Resolve.diagnostics_eq_nil_iff_allKnown parsed).mp complete.silent).nodes_resolved⟩
  · intro program after ran
    rw [ran] at delivered
    cases delivered with
    | finished ends _ =>
      have all : told = compilation.events.filter CompileEvent.isHook := by
        simp only [told, Action.finalState, ran]
      rcases whole with ⟨⟨fault, fails⟩, _⟩ | ⟨_, succeeds, hooks⟩
      · cases fails.symm.trans ends
      · cases succeeds.symm.trans ends
        exact ⟨all.trans hooks, rfl⟩

def chainedFiles : FileSystem :=
  .ofEntries
    [("a.weft", .file "module a;\nimport b;\n".toUTF8.toList),
      ("b.weft", .file "module b;\ntype Own = Port;\n".toUTF8.toList)]

/-- A listener that counts what it is told and refuses to be told that a module is resolved. -/
def refusing (moduleId : String) : CompileEvent → Action Nat Unit
  | .resolved unit => do
    if unit.moduleId = moduleId then throw (.host "RuntimeError" "refused")
    modify (· + 1)
  | _ => modify (· + 1)

/-- The module at which an event stands, and whether it has been resolved. -/
def CompileEvent.mark : CompileEvent → String × Bool
  | .logged record => (record.text, false)
  | .parsed unit => (unit.moduleId, false)
  | .resolved unit => (unit.moduleId, true)
  | .finished _ => ("", true)

/-- Of the modules `a` and `b`, of which one imports the other, the second is refused once it has
been resolved, and nothing is told of the program. -/
theorem hooks_in_order_refusing :
    let loading := Loading.ofQueue chainedFiles .plain ⟨[.ofString "a.weft"]⟩
    let compilation := Compilation.ofQueue chainedFiles .plain ⟨[.ofString "a.weft"]⟩
    let delivery := compilation.deliver (observing (refusing "b"))
    let told := (delivery.finalState ⟨[], 0⟩).events.filter CompileEvent.isHook
    told <+: loading.hooks ∧
      told.map CompileEvent.mark =
        [("weft", false), ("a", false), ("b", false), ("weft", true), ("a", true), ("b", true)] ∧
      Observed.forget (delivery.run ⟨[], 0⟩) = (compilation.deliver (refusing "b")).run 0 := by
  intro loading compilation delivery told
  have marks : told.map CompileEvent.mark =
      [("weft", false), ("a", false), ("b", false), ("weft", true), ("a", true), ("b", true)] := by
    decide +kernel
  have ordered := hooks_in_order chainedFiles .plain ⟨[.ofString "a.weft"]⟩ (refusing "b") 0
  exact ⟨ordered.1, marks, ordered.2.2.2.2.1⟩

end WireModules
