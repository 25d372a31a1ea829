import WireModules.Proofs.Extraction
import WireModules.Proofs.Noting
import WireModules.Proofs.Outcome

/-!
# The steps of a session

What a session does to its registry it does by noting types, and the host is told of each. A step
that fails has noted some types, a step that succeeds those of its input.
-/

set_option autoImplicit false

namespace WireModules

/-- What a compilation's events have to be recorded, in order of delivery. -/
def CompileEvent.records : CompileEvent → Except ExtractError (List TypeRecord)
  | .parsed unit => unit.shownRecords false
  | .resolved unit => unit.shownRecords true
  | _ => .ok []

namespace CompileEvent

/-- Events have records, one event after the other. -/
inductive Records : List CompileEvent → List TypeRecord → Prop where
  | nil : Records [] []
  | cons {event : CompileEvent} {rest : List CompileEvent} {infos more : List TypeRecord} :
      event.records = .ok infos → Records rest more → Records (event :: rest) (infos ++ more)

theorem Records.append {first second : List CompileEvent} {before after : List TypeRecord}
    (recorded : Records first before) (more : Records second after) :
    Records (first ++ second) (before ++ after) := by
  induction recorded with
  | nil => exact more
  | cons own _ ih =>
    rw [List.append_assoc]
    exact .cons own ih

theorem Records.append_inv {first second : List CompileEvent} {infos : List TypeRecord}
    (recorded : Records (first ++ second) infos) :
    ∃ before after, infos = before ++ after ∧ Records first before ∧ Records second after := by
  induction first generalizing infos with
  | nil => exact ⟨[], infos, rfl, .nil, recorded⟩
  | cons event rest ih =>
    cases recorded with
    | cons own others =>
      obtain ⟨before, after, rfl, firstRecorded, secondRecorded⟩ := ih others
      exact ⟨_, after, (List.append_assoc ..).symm, .cons own firstRecorded, secondRecorded⟩

end CompileEvent

/-- A host that never closes the session. -/
def Host.IsCalm (host : Host) : Prop :=
  ∀ earlier event, host earlier event ≠ .close

namespace Session

variable {γ : Type} {environment : Environment γ}

def isFailed (session : Session γ) : Bool :=
  session.stage = .failed

/-- The types that the host is told of by some signals. -/
def newTypes (signals : List Signal) : List TypeRecord :=
  signals.filterMap fun
    | .told (.newType info) => some info
    | _ => none

/-- The types that the host has been told of. -/
def toldTypes (session : Session γ) : List TypeRecord :=
  newTypes session.trace

theorem newTypes_append (first second : List Signal) :
    newTypes (first ++ second) = newTypes first ++ newTypes second :=
  List.filterMap_append

theorem newTypes_logged (log : List LogRecord) : newTypes (log.map .logged) = [] := by
  rw [newTypes, List.filterMap_map]
  exact List.filterMap_eq_nil_iff.mpr fun _ _ => rfl

theorem mem_log {session : Session γ} {record : LogRecord} :
    record ∈ session.log ↔ Signal.logged record ∈ session.trace := by
  rw [log, List.mem_filterMap]
  constructor
  · rintro ⟨signal, member, same⟩
    cases signal <;> cases same
    exact member
  · exact fun member => ⟨_, member, rfl⟩

/-- From one session to another the registry changes by noting some types, and these are the types
that the host is told of. -/
structure Tracks (infos : List TypeRecord) (before after : Session γ) : Prop where
  options : after.options = before.options
  signals : ∃ added log, after.trace = before.trace ++ added ∧ newTypes added = infos ∧
    Registry.Replays before.registry infos log after.registry ∧
      ∀ record ∈ log, Signal.logged record ∈ added

structure Notes (infos : List TypeRecord) (before after : Session γ) : Prop
    extends Tracks infos before after where
  stage : after.stage = before.stage

section Relations

variable {infos more : List TypeRecord} {before between after : Session γ}

theorem Tracks.refl (session : Session γ) : Tracks [] session session :=
  ⟨rfl, [], [], (List.append_nil _).symm, rfl, .nil, by simp⟩

theorem Tracks.trans (first : Tracks infos before between) (second : Tracks more between after) :
    Tracks (infos ++ more) before after := by
  obtain ⟨added, log, traced, told, replays, logged⟩ := first.signals
  obtain ⟨addedLater, logLater, tracedLater, toldLater, replaysLater, loggedLater⟩ := second.signals
  refine ⟨second.options.trans first.options, added ++ addedLater, log ++ logLater, ?_, ?_,
    replays.append replaysLater, ?_⟩
  · rw [tracedLater, traced, List.append_assoc]
  · rw [newTypes_append, told, toldLater]
  · intro record member
    rcases List.mem_append.mp member with early | late
    · exact List.mem_append_left _ (logged record early)
    · exact List.mem_append_right _ (loggedLater record late)

theorem Tracks.told (tracks : Tracks infos before after) :
    after.toldTypes = before.toldTypes ++ infos := by
  obtain ⟨added, _, traced, told, _⟩ := tracks.signals
  rw [toldTypes, traced, newTypes_append, told]
  rfl

theorem Tracks.types (tracks : Tracks infos before after) :
    after.registry.types = infos.foldl Registry.recordIn before.registry.types := by
  obtain ⟨_, _, _, _, replays, _⟩ := tracks.signals
  exact replays.types

theorem Notes.refl (session : Session γ) : Notes [] session session :=
  ⟨.refl session, rfl⟩

theorem Notes.trans (first : Notes infos before between) (second : Notes more between after) :
    Notes (infos ++ more) before after :=
  ⟨first.toTracks.trans second.toTracks, second.stage.trans first.stage⟩

theorem Notes.of_signals {added : List Signal} (silent : newTypes added = []) :
    Notes [] before { before with trace := before.trace ++ added } :=
  ⟨⟨rfl, added, [], rfl, silent, .nil, by simp⟩, rfl⟩

end Relations

/-! ## Actions that note nothing -/

/-- An action notes no type, whether it succeeds or not. -/
def Silent {α : Type} (action : Action (Session γ) α) : Prop :=
  ∀ before, Notes [] before (action.finalState before)

namespace Silent

variable {α β : Type} {action : Action (Session γ) α} {next : α → Action (Session γ) β}

theorem pure (value : α) : Silent (Pure.pure value : Action (Session γ) α) := Notes.refl

theorem throw (fault : Fault) : Silent (MonadExcept.throw fault : Action (Session γ) α) :=
  Notes.refl

theorem get : Silent (MonadState.get : Action (Session γ) _) := Notes.refl

theorem bind (first : Silent action) (later : ∀ value, Silent (next value)) :
    Silent (action >>= next) := by
  have composed : Action.Reaches (Notes []) (action >>= next) :=
    .bind (fun _ _ _ own others => own.trans others) first later
  exact composed

end Silent

theorem run_emitLog (log : List LogRecord) (before : Session γ) :
    (emitLog log).run before =
      .ok ⟨⟩ { before with trace := before.trace ++ log.map .logged } := by
  induction log generalizing before with
  | nil => simp [emitLog, EStateM.run, pure, EStateM.pure]
  | cons record rest ih =>
    have first : (emit (.logged record)).run before =
        .ok ⟨⟩ { before with trace := before.trace ++ [.logged record] } := rfl
    change (emit (.logged record) >>= fun _ => emitLog rest).run before = _
    rw [EStateM.run_bind, first]
    dsimp only
    rw [ih, List.map_cons, List.append_assoc]
    rfl

/-- A session after an answer of the coordinator, with what it logged and the signal of the request. -/
def consulted {α : Type} (session : Session γ) (reply : Reply γ α) (signal : Signal) : Session γ :=
  { session with
    glue := reply.state
    trace := session.trace ++ reply.log.map .logged ++ [signal] }

theorem run_ask {α : Type} (request : GlueRequest) (consult : γ → Reply γ α) (granted : α → Bool)
    (before : Session γ) :
    (ask request consult granted).run before =
      match (consult before.glue).answer with
      | .ok answer =>
        .ok answer (before.consulted (consult before.glue) (.asked request (granted answer)))
      | .error fault =>
        .error fault (before.consulted (consult before.glue) (.asked request false)) := by
  have got : (get : Action (Session γ) _).run before = .ok before before := rfl
  have changed : (modify (fun session => { session with glue := (consult before.glue).state }) :
      Action (Session γ) PUnit).run before =
        .ok ⟨⟩ { before with glue := (consult before.glue).state } := rfl
  rw [ask, EStateM.run_bind, got]
  dsimp only
  rw [EStateM.run_bind, changed]
  dsimp only
  rw [EStateM.run_bind, run_emitLog]
  cases (consult before.glue).answer <;> rfl

/-- Whatever the coordinator answers, its state and its log are kept. -/
theorem finalState_ask {α : Type} (request : GlueRequest) (consult : γ → Reply γ α)
    (granted : α → Bool) (before : Session γ) :
    ∃ answered, (ask request consult granted).finalState before =
      before.consulted (consult before.glue) (.asked request answered) := by
  rw [Action.finalState, run_ask]
  cases (consult before.glue).answer with
  | ok answer => exact ⟨granted answer, rfl⟩
  | error fault => exact ⟨false, rfl⟩

theorem silent_emit {signal : Signal} (silent : newTypes [signal] = []) :
    Silent (emit signal : Action (Session γ) _) :=
  fun _ => .of_signals silent

theorem silent_say (text : String) : Silent (say text : Action (Session γ) _) :=
  silent_emit rfl

/-- What is neither registry nor trace, stage nor option may change. -/
theorem silent_modify {change : Session γ → Session γ}
    (options : ∀ session, (change session).options = session.options)
    (registry : ∀ session, (change session).registry = session.registry)
    (trace : ∀ session, (change session).trace = session.trace)
    (stage : ∀ session, (change session).stage = session.stage) :
    Silent (modify change : Action (Session γ) PUnit) := by
  intro before
  refine ⟨⟨options before, [], [], ?_, rfl, ?_, by simp⟩, stage before⟩
  · rw [List.append_nil]
    exact trace before
  · change Registry.Replays before.registry [] [] (change before).registry
    rw [registry]
    exact .nil

theorem notes_consulted {α : Type} (session : Session γ) (reply : Reply γ α) {signal : Signal}
    (silent : newTypes [signal] = []) : Notes [] session (session.consulted reply signal) := by
  have added : newTypes (reply.log.map .logged ++ [signal]) = [] := by
    rw [newTypes_append, newTypes_logged, silent]
    rfl
  exact ⟨⟨rfl, _, [], List.append_assoc .., added, .nil, by simp⟩, rfl⟩

theorem silent_ask {α : Type} (request : GlueRequest) (consult : γ → Reply γ α)
    (granted : α → Bool) : Silent (ask request consult granted) := by
  intro before
  obtain ⟨answered, ended⟩ := finalState_ask request consult granted before
  rw [ended]
  exact notes_consulted before _ rfl

/-- However a calm host replies, the session goes on from what it was. -/
theorem finalState_tell (calm : environment.host.IsCalm) (event : HostEvent)
    (before : Session γ) :
    (tell environment event).finalState before =
      { before with trace := before.trace ++ [.told event] } := by
  have got : (get : Action (Session γ) _).run before = .ok before before := rfl
  have told : (emit (.told event)).run before =
      .ok ⟨⟩ { before with trace := before.trace ++ [.told event] } := rfl
  unfold tell
  rw [Action.finalState_bind_of_run_eq_ok got, Action.finalState_bind_of_run_eq_ok told]
  split
  · rfl
  · next closes => exact absurd closes (calm _ _)
  · rfl

theorem silent_tellUnit (calm : environment.host.IsCalm) (info : TypeRecord) :
    Silent (tell environment (.newUnitType info)) := by
  intro before
  rw [finalState_tell calm]
  exact .of_signals rfl

/-- The records of a unit that a session wants; asking for them changes nothing. -/
theorem silent_wantedRecords (unit : ProgramUnit) (resolved : Bool) :
    Silent (wantedRecords unit resolved : Action (Session γ) _) := by
  refine .bind .get fun session => ?_
  split
  · exact .pure _
  · split
    · exact .pure _
    · exact .throw _

theorem silent_programFinished :
    Silent (programFinished environment : Action (Session γ) _) := by
  refine .bind .get fun session => ?_
  split
  · exact .pure _
  refine .bind (silent_modify (fun _ => rfl) (fun _ => rfl) (fun _ => rfl) fun _ => rfl) fun _ => ?_
  refine .bind (silent_say _) fun _ => .bind (silent_ask _ _ _) fun granted => ?_
  split
  · exact .throw _
  · exact .pure _

/-! ## Actions that note types -/

/-- An action has noted some types when it ends, and if it succeeds, they are as expected. -/
def Noting {α : Type} (expected : List TypeRecord → Prop) (action : Action (Session γ) α)
    (before : Session γ) : Prop :=
  ∃ infos, Notes infos before (action.finalState before) ∧
    ∀ value after, action.run before = .ok value after → expected infos

theorem Silent.noting {α : Type} {expected : List TypeRecord → Prop}
    {action : Action (Session γ) α} (silent : Silent action) (before : Session γ)
    (holds : expected []) : Noting expected action before :=
  ⟨[], silent before, fun _ _ _ => holds⟩

namespace Noting

variable {α β : Type} {expected own later : List TypeRecord → Prop} {before after : Session γ}
  {action : Action (Session γ) α} {next : α → Action (Session γ) β}

theorem of_run_eq_ok {value : α} (noting : Noting expected action before)
    (ran : action.run before = .ok value after) :
    ∃ infos, Notes infos before after ∧ expected infos := by
  obtain ⟨infos, notes, holds⟩ := noting
  rw [Action.finalState, ran] at notes
  exact ⟨infos, notes, holds value after ran⟩

theorem bind (first : Noting own action before)
    (second : ∀ value between, action.run before = .ok value between →
      Noting later (next value) between)
    (combine : ∀ infos more, own infos → later more → expected (infos ++ more)) :
    Noting expected (action >>= next) before := by
  obtain ⟨infos, notes, holds⟩ := first
  rw [Noting, Action.finalState, EStateM.run_bind]
  rw [Action.finalState] at notes
  cases ran : action.run before with
  | error fault after =>
    rw [ran] at notes
    refine ⟨infos, notes, ?_⟩
    intro value after impossible
    cases impossible
  | ok value between =>
    rw [ran] at notes
    obtain ⟨more, notesMore, holdsMore⟩ := second value between ran
    refine ⟨infos ++ more, notes.trans notesMore, fun result after ended => ?_⟩
    exact combine infos more (holds value between ran) (holdsMore result after ended)

theorem mono (noting : Noting own action before) (weaker : ∀ infos, own infos → expected infos) :
    Noting expected action before := by
  obtain ⟨infos, notes, holds⟩ := noting
  exact ⟨infos, notes, fun value after ran => weaker infos (holds value after ran)⟩

theorem silent_bind (first : Silent action)
    (second : ∀ value between, action.run before = .ok value between →
      Noting expected (next value) between) : Noting expected (action >>= next) before := by
  refine bind (first.noting before rfl) second ?_
  rintro _ more rfl holds
  exact holds

theorem bind_silent (first : Noting expected action before)
    (second : ∀ value, Silent (next value)) : Noting expected (action >>= next) before := by
  have later : ∀ value between, action.run before = .ok value between →
      Noting (· = []) (next value) between := fun value between _ =>
    (second value).noting between rfl
  refine first.bind later ?_
  rintro infos _ holds rfl
  rw [List.append_nil]
  exact holds

theorem forM {step : TypeRecord → Action (Session γ) PUnit} {infos : List TypeRecord}
    (each : ∀ info ∈ infos, ∀ before, Noting (· = [info]) (step info) before) :
    Noting (· = infos) (infos.forM step) before := by
  induction infos generalizing before with
  | nil => exact (Silent.pure _).noting before rfl
  | cons info rest ih =>
    refine .bind (each info (.head _) before)
      (fun _ _ _ => ih fun other member => each other (.tail _ member)) ?_
    rintro _ _ rfl rfl
    rfl

end Noting

/-! ## Notes of one type -/

section Note

variable {info : TypeRecord} {before : Session γ}

def withRecording (session : Session γ) (recording : Recording) : Session γ :=
  { session with
    registry := recording.registry
    trace := session.trace ++ recording.log.map .logged }

theorem run_record (info : TypeRecord) (before : Session γ) :
    (record info).run before =
      match before.registry.record info with
      | .ok recording => .ok ⟨⟩ (before.withRecording recording)
      | .error reason => .error (.failure reason) before := by
  have unfolded : (record info).run before = (Fault.demand (before.registry.record info) >>=
      fun recording => modify (fun session : Session γ =>
        { session with registry := recording.registry }) >>= fun _ => emitLog recording.log).run
          before := rfl
  rw [unfolded, EStateM.run_bind]
  cases before.registry.record info with
  | error reason => rfl
  | ok recording => exact run_emitLog recording.log { before with registry := recording.registry }

/-- A type that cannot be recorded is not noted. -/
theorem noting_of_record {rest : PUnit → Action (Session γ) PUnit}
    (goes : ∀ recording, before.registry.record info = .ok recording →
      Notes [info] before ((rest ⟨⟩).finalState (before.withRecording recording))) :
    Noting (· = [info]) (record info >>= rest) before := by
  have ran := run_record info before
  cases found : before.registry.record info with
  | ok recording =>
    rw [found] at ran
    refine ⟨[info], ?_, fun _ _ _ => rfl⟩
    rw [Action.finalState_bind_of_run_eq_ok ran]
    exact goes recording found
  | error reason =>
    have stopped : (record info >>= rest).run before = .error (.failure reason) before := by
      rw [EStateM.run_bind, ran, found]
    refine ⟨[], ?_, ?_⟩
    · rw [Action.finalState, stopped]
      exact .refl before
    · rw [stopped]
      intro value after impossible
      cases impossible

/-- What is left of a note once the type is recorded: it may be listed, and the host is told. -/
theorem notes_of_recording {recording : Recording} {registry : Registry} (own : List Signal)
    (noted : before.registry.note info = .ok (registry, recording.log))
    (silent : newTypes own = []) :
    Notes [info] before
      { before with
        registry := registry
        trace := before.trace ++ recording.log.map .logged ++ own ++ [.told (.newType info)] } := by
  refine ⟨⟨rfl, recording.log.map .logged ++ own ++ [.told (.newType info)], recording.log, ?_, ?_,
    ?_, ?_⟩, rfl⟩
  · simp
  · rw [newTypes_append, newTypes_append, newTypes_logged, silent]
    rfl
  · rw [← List.append_nil recording.log]
    exact .cons noted .nil
  · intro record member
    exact List.mem_append_left _ (List.mem_append_left _ (List.mem_map_of_mem member))

theorem noting_noteWritten (calm : environment.host.IsCalm) (unresolved : info.isResolved = false)
    (before : Session γ) : Noting (· = [info]) (noteWritten environment info) before := by
  refine .silent_bind (silent_say _) fun _ between _ => noting_of_record fun recording found => ?_
  by_cases isListed : isPublicEnum info = true
  · rw [if_pos isListed]
    let remark := ownRecord "    Automatically exporting public enum for backwards compatibility"
    let listed : Session γ :=
      { between with
        registry := recording.registry.listEnum info
        trace := between.trace ++ recording.log.map .logged ++ [.logged remark] }
    have noted : between.registry.note info =
        .ok (recording.registry.listEnum info, recording.log) := by
      simp [Registry.note, found, unresolved, isListed]
    -- The remark on the export comes between the warnings of the record and the call to the host.
    have told := notes_of_recording [.logged remark] noted rfl
    change Notes [info] between ((tell environment (.newType info)).finalState listed)
    rw [finalState_tell calm]
    exact told
  · rw [if_neg isListed, finalState_tell calm]
    have noted : between.registry.note info = .ok (recording.registry, recording.log) := by
      simp [Registry.note, found, isListed]
    have told := notes_of_recording [] noted rfl
    rw [List.append_nil] at told
    exact told

theorem noting_noteResolved (calm : environment.host.IsCalm) (resolved : info.isResolved = true)
    (before : Session γ) : Noting (· = [info]) (noteResolved environment info) before := by
  refine .silent_bind (silent_say _) fun _ between _ => ?_
  have recorded : Noting (· = [info])
      (record info >>= fun _ => tell environment (.newType info)) between := by
    refine noting_of_record fun recording found => ?_
    have noted : between.registry.note info = .ok (recording.registry, recording.log) := by
      simp [Registry.note, found, resolved]
    have told := notes_of_recording [] noted rfl
    rw [List.append_nil] at told
    rw [finalState_tell calm]
    exact told
  rw [← bind_assoc]
  have tellsUnit : Silent
      (if info.declKind = .unit then tell environment (.newUnitType info) else pure ⟨⟩) := by
    split
    · exact silent_tellUnit calm info
    · exact .pure _
  exact recorded.bind_silent fun _ => tellsUnit

end Note

/-! ## Events of a compilation -/

section Events

variable {before : Session γ}

theorem wantedRecords_ok {unit : ProgramUnit} {resolved : Bool} {wanted : Option (List TypeRecord)}
    {after : Session γ} (ran : (wantedRecords unit resolved).run before = .ok wanted after) :
    after = before ∧ (∀ records, wanted = some records →
      unit.isUserVisible = true ∧ unit.shownRecords resolved = .ok records) ∧
        (before.isFailed = false → unit.shownRecords resolved = .ok (wanted.getD [])) := by
  obtain ⟨_, _, got, ran⟩ := Action.exists_of_run_bind_eq_ok ran
  cases got
  rw [ProgramUnit.shownRecords]
  split at ran
  · next unwanted =>
    cases ran
    refine ⟨rfl, ?_, fun running => ?_⟩
    · intro records impossible
      cases impossible
    have hidden : unit.isUserVisible = false := by
      simp only [Bool.or_eq_true, Bool.not_eq_true'] at unwanted
      exact unwanted.resolve_left fun failed => by cases running.symm.trans failed
    simp [hidden]
  · next wants =>
    have visible : unit.isUserVisible = true := by
      simp only [Bool.or_eq_true, Bool.not_eq_true', not_or, Bool.not_eq_false] at wants
      exact wants.2
    rw [if_pos visible]
    split at ran
    · next records extracted =>
      cases ran
      rw [extracted]
      refine ⟨rfl, ?_, fun _ => rfl⟩
      rintro _ ⟨⟩
      exact ⟨visible, rfl⟩
    · cases ran

theorem noting_unitParsed (calm : environment.host.IsCalm) (unit : ProgramUnit)
    (before : Session γ) :
    Noting (fun infos => before.isFailed = false → unit.shownRecords false = .ok infos)
      (unitParsed environment unit) before := by
  refine .silent_bind (silent_wantedRecords unit false) fun wanted between ran => ?_
  obtain ⟨rfl, shown, complete⟩ := wantedRecords_ok ran
  cases wanted with
  | none => exact (Silent.pure _).noting between complete
  | some records =>
    have phases := ProgramUnit.phase_of_shownRecords (shown records rfl).2
    refine .mono (.forM fun info member => noting_noteWritten calm (phases info member)) ?_
    rintro _ rfl
    exact complete

theorem noting_unitResolved (calm : environment.host.IsCalm) (unit : ProgramUnit)
    (before : Session γ) :
    Noting (fun infos => before.isFailed = false → unit.shownRecords true = .ok infos)
      (unitResolved environment unit) before := by
  refine .silent_bind (silent_wantedRecords unit true) fun wanted between ran => ?_
  obtain ⟨rfl, shown, complete⟩ := wantedRecords_ok ran
  cases wanted with
  | none => exact (Silent.pure _).noting between complete
  | some records =>
    obtain ⟨visible, extracted⟩ := shown records rfl
    have phases := ProgramUnit.phase_of_shownRecords extracted
    cases placed : unit.path with
    | none => simp [ProgramUnit.isUserVisible, ProgramUnit.hasNoFile, placed] at visible
    | some path =>
      have notes : Noting (fun infos => between.isFailed = false → unit.shownRecords true = .ok infos)
          (records.forM (noteResolved environment)) between := by
        refine .mono (.forM fun info member => noting_noteResolved calm (phases info member)) ?_
        rintro _ rfl
        exact complete
      exact notes.bind_silent fun _ => silent_ask _ _ _

theorem noting_react (calm : environment.host.IsCalm) (event : CompileEvent)
    (before : Session γ) :
    Noting (fun infos => before.isFailed = false → event.records = .ok infos)
      (react environment event) before := by
  cases event with
  | logged record =>
    exact (silent_emit rfl).noting before fun _ => rfl
  | parsed unit => exact noting_unitParsed calm unit before
  | resolved unit => exact noting_unitResolved calm unit before
  | finished program =>
    exact silent_programFinished.noting before fun _ => rfl

theorem noting_events (calm : environment.host.IsCalm) (events : List CompileEvent)
    (before : Session γ) :
    Noting (fun infos => before.isFailed = false → CompileEvent.Records events infos)
      (events.forM (react environment)) before := by
  induction events generalizing before with
  | nil => exact (Silent.pure _).noting before fun _ => .nil
  | cons event rest ih =>
    have first := noting_react calm event before
    have others : ∀ value between, (react environment event).run before = .ok value between →
        Noting (fun infos => before.isFailed = false → CompileEvent.Records rest infos)
          (rest.forM (react environment)) between := by
      intro value between ran
      obtain ⟨_, notes, _⟩ := first.of_run_eq_ok ran
      refine .mono (ih between) fun infos holds running => holds ?_
      rw [isFailed, notes.stage]
      exact running
    exact first.bind others fun infos more own later running =>
      .cons (own running) (later running)

end Events

end Session

end WireModules
