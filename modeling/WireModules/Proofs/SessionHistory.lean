import WireModules.Proofs.Loading
import WireModules.Proofs.SessionSteps

/-!
# Histories of a session

Which records a session has after any loads and compilations, whether they succeed or fail.
-/

set_option autoImplicit false

namespace WireModules

/-- A request for a glue file, or a line of the log. -/
def Signal.isLoading : Signal → Bool
  | .logged _ => true
  | .asked (.load _) _ => true
  | _ => false

namespace Session

variable {γ : Type} {environment : Environment γ} {before after : Session γ}

/-! ## Loading -/

/-- A relation between sessions that holds along the steps of loading. -/
structure LoadSteps (environment : Environment γ) (reaches : Session γ → Session γ → Prop) :
    Prop where
  refl : ∀ session, reaches session session
  trans : ∀ first second third, reaches first second → reaches second third → reaches first third
  say : ∀ session text,
    reaches session { session with trace := session.trace ++ [.logged (ownRecord text)] }
  ask : ∀ session files path answered, reaches session
    (session.consulted (environment.coordinator.load files path session.glue)
      (.asked (.load path) answered))
  queue : ∀ session queue, reaches session { session with queue }

/-- What loading does to a session it does after it has begun, in an idle session, to load. -/
theorem LoadSteps.load {reaches : Session γ → Session γ → Prop}
    (steps : LoadSteps environment reaches) (files : FileSystem) (requested : Path)
    (base : Option Path) (before : Session γ) :
    ∃ begun, (begun = before ∨ before.stage = .idle ∧ begun = { before with stage := .loading }) ∧
      reaches begun ((Session.load environment files requested base).finalState before) := by
  have demanded : ∀ {α : Type} (check : Except Failure α),
      Action.Reaches reaches (Fault.demand check : Action (Session γ) α) := by
    intro α check
    cases check with
    | ok value => exact steps.refl
    | error reason => exact steps.refl
  have tried : ∀ {α : Type} (check : Except Fault α),
      Action.Reaches reaches (ofExcept check : Action (Session γ) α) := by
    intro α check
    cases check with
    | ok value => exact steps.refl
    | error fault => exact steps.refl
  unfold Session.load
  by_cases closed : before.closed = true
  · have stopped : requireOpen.run before = .error (.misuse .sessionClosed) before := by
      simp [requireOpen, closed]
    refine ⟨before, .inl rfl, ?_⟩
    rw [Action.finalState, EStateM.run_bind, stopped]
    exact steps.refl before
  · have opened : requireOpen.run before = .ok ⟨⟩ before := by
      simp [requireOpen, closed]
    have got : (get : Action (Session γ) _).run before = .ok before before := rfl
    rw [Action.finalState_bind_of_run_eq_ok opened, Action.finalState_bind_of_run_eq_ok got]
    extract_lets next
    have later : ∀ done, Action.Reaches reaches (next done) := by
      intro done
      refine .bind steps.trans (steps.refl : Action.Reaches reaches get) fun session => ?_
      refine .bind steps.trans (tried _) fun path => ?_
      refine .bind steps.trans (demanded _) fun kind => ?_
      split
      · refine .bind steps.trans (fun session => steps.say session _) fun _ => ?_
        refine .bind steps.trans ?_ fun granted => ?_
        · intro session
          obtain ⟨answered, ended⟩ := finalState_ask (.load path)
            (environment.coordinator.load files path) id session
          rw [ended]
          exact steps.ask session files path answered
        · split
          · exact steps.refl
          · exact steps.refl
      · refine .bind steps.trans (fun session => steps.say session _) fun _ => ?_
        refine .bind steps.trans (steps.refl : Action.Reaches reaches get) fun session => ?_
        refine .bind steps.trans (tried _) fun queue => ?_
        exact .bind steps.trans (fun session => steps.queue session queue) fun _ => steps.refl
    split
    · next idle => exact ⟨{ before with stage := .loading }, .inr ⟨idle, rfl⟩, later ⟨⟩ _⟩
    · exact ⟨before, .inl rfl, later ⟨⟩ before⟩

theorem loadSteps_notes : LoadSteps environment (Notes []) where
  refl := .refl
  trans _ _ _ own others := own.trans others
  say _ _ := .of_signals rfl
  ask session files path answered := notes_consulted session _ rfl
  queue _ _ := ⟨⟨rfl, [], [], (List.append_nil _).symm, rfl, .nil, by simp⟩, rfl⟩

/-- From one session to another the stage stays as it is, the host is told nothing, and nothing is asked
but to load glue files. -/
structure Quiet (before after : Session γ) : Prop where
  stage : after.stage = before.stage
  signals : ∃ added, after.trace = before.trace ++ added ∧ ∀ signal ∈ added, signal.isLoading = true

theorem Quiet.refl (session : Session γ) : Quiet session session :=
  ⟨rfl, [], (List.append_nil _).symm, by simp⟩

theorem Quiet.trans {between : Session γ} (first : Quiet before between)
    (second : Quiet between after) : Quiet before after := by
  obtain ⟨added, traced, loading⟩ := first.signals
  obtain ⟨addedLater, tracedLater, loadingLater⟩ := second.signals
  refine ⟨second.stage.trans first.stage, added ++ addedLater, ?_, ?_⟩
  · rw [tracedLater, traced, List.append_assoc]
  · exact List.forall_mem_append.mpr ⟨loading, loadingLater⟩

/-- From one session to another nothing is done but to load. -/
structure Loads (before after : Session γ) : Prop extends Quiet before after where
  registry : after.registry = before.registry
  needsGlue : after.needsGlue = before.needsGlue

theorem loadSteps_loads (environment : Environment γ) : LoadSteps environment Loads where
  refl session := ⟨.refl session, rfl, rfl⟩
  trans _ _ _ first second :=
    ⟨first.toQuiet.trans second.toQuiet, second.registry.trans first.registry,
      second.needsGlue.trans first.needsGlue⟩
  say _ _ := ⟨⟨rfl, _, rfl, List.forall_mem_singleton.mpr rfl⟩, rfl, rfl⟩
  ask _ _ _ _ :=
    ⟨⟨rfl, _, List.append_assoc .., List.forall_mem_append.mpr
      ⟨List.forall_mem_map.mpr fun _ _ => rfl, List.forall_mem_singleton.mpr rfl⟩⟩, rfl, rfl⟩
  queue session _ := ⟨⟨rfl, [], (List.append_nil session.trace).symm, by simp⟩, rfl, rfl⟩

theorem keeps_registry_load (files : FileSystem) (requested : Path) (base : Option Path) :
    Action.Keeps (fun session : Session γ => (session.registry, session.needsGlue))
      (load environment files requested base) := by
  intro before
  obtain ⟨begun, rfl | ⟨_, rfl⟩, loads⟩ := (loadSteps_loads environment).load files requested base before
  · exact Prod.ext loads.registry loads.needsGlue
  · exact Prod.ext loads.registry loads.needsGlue

theorem tracks_load (files : FileSystem) (requested : Path) (base : Option Path)
    (before : Session γ) :
    Tracks [] before ((load environment files requested base).finalState before) := by
  obtain ⟨begun, rfl | ⟨_, rfl⟩, notes⟩ := loadSteps_notes.load files requested base before
  · exact notes.toTracks
  · exact ⟨notes.options, notes.signals⟩

/-- The records of a session, and whether it has failed. -/
def holdings (session : Session γ) : List TypeRecord × Bool :=
  (session.registry.types, session.isFailed)

theorem keeps_load (files : FileSystem) (requested : Path) (base : Option Path) :
    Action.Keeps holdings (load environment files requested base) := by
  intro before
  obtain ⟨begun, rfl | ⟨idle, rfl⟩, notes⟩ := loadSteps_notes.load files requested base before
  · rw [holdings, isFailed, notes.types, notes.stage]
    rfl
  · rw [holdings, isFailed, notes.types, notes.stage]
    simp [holdings, isFailed, idle]

theorem ask_ok {α : Type} {request : GlueRequest} {consult : γ → Reply γ α} {granted : α → Bool}
    {answer : α} (ran : (ask request consult granted).run before = .ok answer after) :
    (consult before.glue).answer = .ok answer ∧
      after = before.consulted (consult before.glue) (.asked request (granted answer)) := by
  rw [run_ask] at ran
  split at ran
  · next given =>
    cases ran
    exact ⟨given, rfl⟩
  · cases ran

/-- What has become of an input that was loaded: a glue file was accepted by the coordinator, and any
other input waits in the queue. -/
inductive LoadedAs (environment : Environment γ) (files : FileSystem) (path : Path)
    (before after : Session γ) : Prop where
  | glue : path.inputKind? = some .glue →
      (environment.coordinator.load files path before.glue).answer = .ok true →
      after.glue = (environment.coordinator.load files path before.glue).state →
      after.queue = before.queue → LoadedAs environment files path before after
  | queued {kind : InputKind} : path.inputKind? = some kind → kind ≠ .glue →
      environment.frontEnd.enqueue before.queue files path = .ok after.queue →
      after.glue = before.glue → LoadedAs environment files path before after

theorem load_ok {files : FileSystem} {requested path : Path} {base : Option Path}
    (loaded : (load environment files requested base).run before = .ok path after) :
    files.resolveInput requested base before.options.searchOrder = .ok path ∧
      LoadedAs environment files path before after := by
  unfold load at loaded
  obtain ⟨_, opened, ranOpen, ran⟩ := Action.exists_of_run_bind_eq_ok loaded
  have same : opened = before := by
    by_cases closed : before.closed = true
    · simp [requireOpen, closed] at ranOpen
    · simpa [requireOpen, closed] using ranOpen.symm
  rw [same] at ran
  obtain ⟨_, _, got, ran⟩ := Action.exists_of_run_bind_eq_ok ran
  cases got
  extract_lets next at ran
  -- The stage that an idle session is given makes no difference to what follows.
  have begun : ∀ begun : Session γ, begun.options = before.options → begun.glue = before.glue →
      begun.queue = before.queue → (next ⟨⟩).run begun = .ok path after →
      files.resolveInput requested base before.options.searchOrder = .ok path ∧
        LoadedAs environment files path before after := by
    intro begun sameOptions sameGlue sameQueue ran
    rw [← sameOptions]
    obtain ⟨_, _, got, ran⟩ := Action.exists_of_run_bind_eq_ok ran
    cases got
    obtain ⟨found, _, ranResolve, ran⟩ := Action.exists_of_run_bind_eq_ok ran
    obtain ⟨resolved, sameBegun⟩ := Action.ofExcept_ok ranResolve
    rw [sameBegun] at ran
    obtain ⟨kind, _, ranClassify, ran⟩ := Action.exists_of_run_bind_eq_ok ran
    obtain ⟨classified, sameFound⟩ := Fault.demand_ok ranClassify
    rw [sameFound] at ran
    have isKind : found.inputKind? = some kind := by
      rw [Path.classify] at classified
      split at classified
      · next known =>
        cases classified
        exact known
      · cases classified
    split at ran
    · obtain ⟨_, _, said, ran⟩ := Action.exists_of_run_bind_eq_ok ran
      cases said
      obtain ⟨granted, _, ranAsk, ran⟩ := Action.exists_of_run_bind_eq_ok ran
      obtain ⟨answered, asked⟩ := ask_ok ranAsk
      rw [asked] at ran
      cases granted with
      | false => cases ran
      | true =>
        cases ran
        exact ⟨resolved, .glue isKind (sameGlue ▸ answered) (sameGlue ▸ rfl) sameQueue⟩
    · next notGlue =>
      obtain ⟨_, _, said, ran⟩ := Action.exists_of_run_bind_eq_ok ran
      cases said
      obtain ⟨_, _, got, ran⟩ := Action.exists_of_run_bind_eq_ok ran
      cases got
      obtain ⟨queue, _, ranQueue, ran⟩ := Action.exists_of_run_bind_eq_ok ran
      obtain ⟨queued, sameQueued⟩ := Action.ofExcept_ok ranQueue
      rw [sameQueued] at ran
      obtain ⟨_, _, changed, ran⟩ := Action.exists_of_run_bind_eq_ok ran
      cases changed
      cases ran
      exact ⟨resolved, .queued isKind notGlue (sameQueue ▸ queued) sameGlue⟩
  split at ran
  · exact begun { before with stage := .loading } rfl rfl rfl ran
  · exact begun before rfl rfl rfl ran

/-! ## Compiling -/

/-- The session has recorded some types, and has failed if it had. -/
def Took (infos : List TypeRecord) (before after : Session γ) : Prop :=
  after.holdings = (infos.foldl Registry.recordIn before.registry.types, before.isFailed)

/-- A session in which a compilation begins. -/
def beginCompiling (session : Session γ) : Session γ :=
  { session with
    trace := session.trace ++ [.logged (ownRecord "Running weft compiler")]
    stage := .compiling
    queue := {} }

def compilation (environment : Environment γ) (files : FileSystem) (session : Session γ) :
    Compilation :=
  environment.frontEnd.compile files session.options session.queue

theorem run_compile (files : FileSystem) (before : Session γ) :
    (compile environment files).run before =
      if before.closed then .error (.misuse .sessionClosed) before
      else if before.stage = .failed then .error (.failure .alreadyFailed) before
      else if before.queue.isEmpty then .ok none before
      else
        match (conclude environment (before.compilation environment files)).run
          before.beginCompiling with
        | .ok program after => .ok (some program) after
        | .error fault after => .error fault { after with stage := .failed } := by
  unfold compile requireOpen
  rw [EStateM.run_bind, EStateM.run_bind]
  by_cases closed : before.closed = true
  · simp [closed]
  · simp only [closed, EStateM.run_get, EStateM.run_pure, EStateM.run_bind, Bool.false_eq_true,
      if_false, bind_pure_comp]
    split
    · rfl
    · split
      · rfl
      · change (some <$> tryCatch (conclude environment _) _).run before.beginCompiling = _
        rw [← bind_pure_comp, EStateM.run_bind, Action.run_tryCatch, compilation]
        cases (conclude environment (environment.frontEnd.compile files before.options
          before.queue)).run before.beginCompiling <;> rfl

/-- A compilation that succeeds gives a program exactly if something was queued. -/
theorem isEmpty_queue_of_compile {files : FileSystem} {program : Option Program}
    (ran : (compile environment files).run before = .ok program after) :
    before.queue.isEmpty = program.isNone ∧ (program = none → after = before) := by
  rw [run_compile] at ran
  split at ran
  · cases ran
  split at ran
  · cases ran
  split at ran
  · next empty =>
    cases ran
    exact ⟨empty, fun _ => rfl⟩
  · next waiting =>
    split at ran
    · cases ran
      exact ⟨by simpa using waiting, nofun⟩
    · cases ran

/-- Delivering a compilation notes the records of its events. -/
theorem noting_deliver (calm : environment.host.IsCalm) (compilation : Compilation)
    (before : Session γ) :
    Noting (fun infos => before.isFailed = false → CompileEvent.Records compilation.events infos)
      (compilation.deliver (react environment)) before := by
  refine (noting_events calm compilation.events before).bind_silent fun _ => ?_
  split
  · exact .pure _
  · exact .throw _

theorem deliver_ok {compilation : Compilation} {react : CompileEvent → Action (Session γ) Unit}
    {program : Program} (ran : (compilation.deliver react).run before = .ok program after) :
    compilation.outcome = .ok program ∧
      (compilation.events.forM react).run before = .ok ⟨⟩ after := by
  obtain ⟨_, taken, ranEvents, ended⟩ := Action.exists_of_run_bind_eq_ok ran
  cases outcome : compilation.outcome with
  | error fault =>
    rw [outcome] at ended
    cases ended
  | ok other =>
    rw [outcome] at ended
    cases ended
    exact ⟨rfl, ranEvents⟩

/-- A delivery fails at an event, or with the compilation itself once all its events are taken. -/
theorem deliver_error_iff {compilation : Compilation}
    {react : CompileEvent → Action (Session γ) Unit} {fault : Fault} :
    (compilation.deliver react).run before = .error fault after ↔
      (compilation.events.forM react).run before = .error fault after ∨
        (compilation.events.forM react).run before = .ok ⟨⟩ after ∧
          compilation.outcome = .error fault := by
  rw [Compilation.deliver, EStateM.run_bind]
  cases (compilation.events.forM react).run before with
  | error own ended => simp
  | ok taken ended =>
    cases compilation.outcome with
    | ok program => simp [EStateM.run_pure]
    | error own =>
      change EStateM.Result.error own ended = _ ↔ _
      simp [and_comm]

/-- How a session ends that has taken a compilation. -/
def settle (session : Session γ) : Session γ :=
  { session with
    stage := if session.needsGlue then .loading else .glueCompiled
    trace := session.trace ++ [.logged (ownRecord "Done with weft compiler")] }

theorem run_conclude (compilation : Compilation) (before : Session γ) :
    (conclude environment compilation).run before =
      match (compilation.deliver (react environment)).run before with
      | .ok program after => .ok program after.settle
      | .error fault after => .error fault after := by
  rw [conclude, EStateM.run_bind]
  cases (compilation.deliver (react environment)).run before <;> rfl

theorem isFailed_settle (session : Session γ) : session.settle.isFailed = false := by
  cases pending : session.needsGlue <;> simp [settle, isFailed, pending]

/-- A compilation is refused or has nothing to do, or it is delivered from the beginning. -/
theorem compile_refused_or_delivered (environment : Environment γ) (files : FileSystem)
    (before : Session γ) :
    ((compile environment files).finalState before = before ∧
        ∀ program after, (compile environment files).run before ≠ .ok (some program) after) ∨
      (before.isFailed = false ∧ (compile environment files).run before =
        match ((before.compilation environment files).deliver (react environment)).run
          before.beginCompiling with
        | .ok program after => .ok (some program) after.settle
        | .error fault after => .error fault { after with stage := .failed }) := by
  have ran : (compile environment files).run before = _ := run_compile files before
  have refused : ∀ {result : EStateM.Result Fault (Session γ) (Option Program)},
      (compile environment files).run before = result → (result = .ok none before ∨
        ∃ fault, result = .error fault before) →
      (compile environment files).finalState before = before ∧
        ∀ program after, (compile environment files).run before ≠ .ok (some program) after := by
    rintro result ends (rfl | ⟨fault, rfl⟩)
    · refine ⟨by rw [Action.finalState, ends], fun program after given => ?_⟩
      cases ends.symm.trans given
    · refine ⟨by rw [Action.finalState, ends], fun program after given => ?_⟩
      cases ends.symm.trans given
  by_cases closed : before.closed = true
  · rw [if_pos closed] at ran
    exact .inl (refused ran (.inr ⟨_, rfl⟩))
  rw [if_neg closed] at ran
  by_cases failed : before.stage = .failed
  · rw [if_pos failed] at ran
    exact .inl (refused ran (.inr ⟨_, rfl⟩))
  rw [if_neg failed] at ran
  by_cases empty : before.queue.isEmpty = true
  · rw [if_pos empty] at ran
    exact .inl (refused ran (.inl rfl))
  rw [if_neg empty, run_conclude] at ran
  refine .inr ⟨by simpa [isFailed] using failed, ran.trans ?_⟩
  cases ((before.compilation environment files).deliver (react environment)).run
    before.beginCompiling <;> rfl

/-- What a compilation has noted when it ends. If it gives a program, these are the records of all
its events. -/
theorem tracks_compile (calm : environment.host.IsCalm) (files : FileSystem)
    (before : Session γ) :
    ∃ infos, Tracks infos before ((compile environment files).finalState before) ∧
      ∀ program after, (compile environment files).run before = .ok (some program) after →
        before.isFailed = false ∧ after.isFailed = false ∧
          (before.compilation environment files).outcome = .ok program ∧
          CompileEvent.Records (before.compilation environment files).events infos := by
  rcases compile_refused_or_delivered environment files before with
    ⟨same, refused⟩ | ⟨running, ran⟩
  · rw [same]
    exact ⟨[], .refl before, fun program after ran => absurd ran (refused program after)⟩
  · have begun : Tracks [] before before.beginCompiling :=
      ⟨rfl, [.logged (ownRecord "Running weft compiler")], [], rfl, rfl, .nil, by simp⟩
    obtain ⟨infos, notes, holds⟩ := noting_deliver calm (before.compilation environment files)
      before.beginCompiling
    rw [Action.finalState] at notes ⊢
    rw [ran]
    refine ⟨infos, ?_, ?_⟩
    · cases delivered : ((before.compilation environment files).deliver (react environment)).run
        before.beginCompiling with
      | error fault after =>
        rw [delivered] at notes
        exact begun.trans ⟨notes.options, notes.signals⟩
      | ok program after =>
        rw [delivered] at notes
        have settled : Tracks [] after after.settle :=
          ⟨rfl, [.logged (ownRecord "Done with weft compiler")], [], rfl, rfl, .nil, by simp⟩
        rw [← List.append_nil infos]
        exact (begun.trans notes.toTracks).trans settled
    · intro program after given
      split at given
      · next delivered =>
        cases given
        exact ⟨running, isFailed_settle _, (deliver_ok delivered).1, holds _ _ delivered rfl⟩
      · cases given

/-- What a compilation that gives a program has recorded. -/
theorem compile_ok (calm : environment.host.IsCalm) {files : FileSystem} {program : Program}
    (ran : (compile environment files).run before = .ok (some program) after) :
    ∃ infos, (before.compilation environment files).outcome = .ok program ∧
      CompileEvent.Records (before.compilation environment files).events infos ∧
      before.isFailed = false ∧ Took infos before after := by
  obtain ⟨infos, tracks, holds⟩ := tracks_compile calm files before
  obtain ⟨running, runningAfter, outcome, recorded⟩ := holds program after ran
  rw [Action.finalState, ran] at tracks
  refine ⟨infos, outcome, recorded, running, ?_⟩
  rw [Took, holdings, tracks.types, running, runningAfter]

/-- A compilation gives a program, or leaves the records as they are, or fails for good. -/
theorem compile_cases (files : FileSystem) (before : Session γ) :
    (∃ program after, (compile environment files).run before = .ok (some program) after ∧
        (compile environment files).finalState before = after) ∨
      ((compile environment files).finalState before).holdings = before.holdings ∨
      ((compile environment files).finalState before).isFailed = true := by
  rcases compile_refused_or_delivered environment files before with
    ⟨same, _⟩ | ⟨_, ran⟩
  · exact .inr (.inl (by rw [same]))
  · rw [Action.finalState, ran]
    split
    · next program after _ => exact .inl ⟨program, after.settle, rfl, rfl⟩
    · exact .inr (.inr rfl)

/-- A session that comes of loads and compilations, each with the files of its time and each
either done or ended by a fault. -/
inductive Reached (environment : Environment γ) : Session γ → Prop where
  | start (options : Options) (glue : γ) : Reached environment (start environment options glue)
  | load {session : Session γ} (files : FileSystem) (requested : Path) (base : Option Path) :
      Reached environment session →
      Reached environment ((load environment files requested base).finalState session)
  | compile {session : Session γ} (files : FileSystem) : Reached environment session →
      Reached environment ((compile environment files).finalState session)

/-- A session that comes of another one by loads and compilations, each with the files of its time and
each either done or ended by a fault. -/
inductive LeadsTo (environment : Environment γ) (first : Session γ) : Session γ → Prop where
  | refl : LeadsTo environment first first
  | load {session : Session γ} (files : FileSystem) (requested : Path) (base : Option Path) :
      LeadsTo environment first session →
      LeadsTo environment first ((load environment files requested base).finalState session)
  | compile {session : Session γ} (files : FileSystem) : LeadsTo environment first session →
      LeadsTo environment first ((compile environment files).finalState session)

/-- A registry is what the types that the host was told of have made of an empty one, and every
warning on the way is in the log. -/
def Replayed (session : Session γ) : Prop :=
  ∃ log, Registry.Replays { strict := session.options.strictTypeNames } session.toldTypes log
    session.registry ∧ ∀ record ∈ log, record ∈ session.log

theorem Tracks.replayed {infos : List TypeRecord} (tracks : Tracks infos before after)
    (replayed : before.Replayed) : after.Replayed := by
  obtain ⟨earlier, replaysEarlier, loggedEarlier⟩ := replayed
  obtain ⟨added, log, traced, told, replays, logged⟩ := tracks.signals
  refine ⟨earlier ++ log, ?_, ?_⟩
  · rw [tracks.options, tracks.told]
    exact replaysEarlier.append replays
  · intro record member
    rw [mem_log, traced]
    rcases List.mem_append.mp member with old | new
    · exact List.mem_append_left _ (mem_log.mp (loggedEarlier record old))
    · exact List.mem_append_right _ (logged record new)

theorem replayed_start (options : Options) (glue : γ) :
    (start environment options glue).Replayed := by
  refine ⟨[], ?_, by simp⟩
  have silent : (start environment options glue).toldTypes = [] := newTypes_logged _
  rw [silent]
  exact .nil

theorem replayed_of_reached (calm : environment.host.IsCalm) {session : Session γ}
    (reached : Reached environment session) : session.Replayed := by
  induction reached with
  | start options glue => exact replayed_start options glue
  | load files requested base _ ih => exact (tracks_load files requested base _).replayed ih
  | compile files _ ih =>
    obtain ⟨infos, tracks, _⟩ := tracks_compile calm files _
    exact tracks.replayed ih

end Session

end WireModules
