import WireModules.Proofs.ExportedTypes
import WireModules.Session.Host

/-!
# Sessions that were closed

Closing a session makes it forget its types, and from then on it neither loads nor compiles. The hooks
for units do not ask whether it is closed: called directly, or by the compilation during which the
session was closed, they record types as before. Hence a session holds the types that were told to the
host since it was last closed, and it stays empty exactly if there are none.
-/

set_option autoImplicit false

namespace WireModules

/-- All that can be asked of a session: its operations, the hooks that pass events on to the host, the
start and the end of the host's runtime, and the exports. -/
inductive Call where
  | perform (operation : Operation)
  | tell (event : HostEvent)
  | startRuntime
  | endRuntime
  | reportExports

/-- Whether a call is of a hook for units. -/
def Call.isUnitHook : Call → Bool
  | .perform (.parsed _) | .perform (.resolved _) => true
  | _ => false

def HostEvent.newType? : HostEvent → Option TypeRecord
  | .newType info => some info
  | _ => none

def Signal.isTold : Signal → Bool
  | .told _ => true
  | _ => false

theorem Registry.foldl_recordIn_eq_nil_iff {infos : List TypeRecord} :
    infos.foldl recordIn [] = [] ↔ infos = [] := by
  rw [← List.map_eq_nil_iff (f := TypeRecord.id), ids_foldl_recordIn]
  cases infos <;> simp [List.eraseDups_cons]

namespace Host

/-- The types that are left after some events, if some were held before: the host is told of each new
one, and when it has the session closed, all are forgotten. -/
def retained (host : Host) (earlier : List HostEvent) (held : List TypeRecord) :
    List HostEvent → List TypeRecord
  | [] => held
  | event :: rest =>
    host.retained (earlier ++ [event])
      (if host earlier event = .close then [] else held ++ event.newType?.toList) rest

theorem retained_append (host : Host) (earlier : List HostEvent) (held : List TypeRecord)
    (first second : List HostEvent) :
    host.retained earlier held (first ++ second) =
      host.retained (earlier ++ first) (host.retained earlier held first) second := by
  induction first generalizing earlier held with
  | nil => rw [List.append_nil, List.nil_append, retained]
  | cons event rest ih =>
    rw [List.cons_append, retained, ih, List.append_assoc, List.singleton_append, retained]

/-- Events that are of no new types add nothing. -/
theorem retained_of_untyped (host : Host) (earlier : List HostEvent) (held : List TypeRecord)
    {events : List HostEvent} (untyped : ∀ event ∈ events, event.newType? = none) :
    host.retained earlier held events = held ∨ host.retained earlier held events = [] := by
  induction events generalizing earlier held with
  | nil => exact .inl rfl
  | cons event rest ih =>
    obtain ⟨own, others⟩ := List.forall_mem_cons.mp untyped
    rw [retained, own, Option.toList_none, List.append_nil]
    split
    · rcases ih (earlier ++ [event]) [] others with none | none
      · exact .inr none
      · exact .inr none
    · exact ih (earlier ++ [event]) held others

end Host

namespace Session

variable {γ : Type} {environment : Environment γ}

/-- The session after a call, whether it succeeds or fails. -/
def answer (environment : Environment γ) (session : Session γ) : Call → Session γ
  | .perform operation => perform environment session operation
  | .tell event => (tell environment event).finalState session
  | .startRuntime => (startRuntime environment).finalState session
  | .endRuntime => (endRuntime environment).finalState session
  | .reportExports => (reportExports environment).finalState session

def answerAll (environment : Environment γ) (session : Session γ) (calls : List Call) : Session γ :=
  calls.foldl (answer environment) session

/-- The types that a session has told the host of and not forgotten since, if `held` are those from
before a call. What the host is told of by a direct call, the session does not hold. -/
def retained (environment : Environment γ) (session : Session γ) (held : List TypeRecord) :
    Call → List TypeRecord
  | .perform .close => []
  | .tell event => if environment.host session.hostEvents event = .close then [] else held
  | call =>
    environment.host.retained session.hostEvents held
      ((answer environment session call).hostEvents.drop session.hostEvents.length)

def retainedAll (environment : Environment γ) (session : Session γ) (held : List TypeRecord) :
    List Call → List TypeRecord
  | [] => held
  | call :: rest =>
    retainedAll environment (answer environment session call)
      (retained environment session held call) rest

/-! ## What steps make of the types that are held -/

/-- From one session to another the host is told of some events, and the types that are held become
those that are left after the events; and what is closed stays so. -/
structure Follows (environment : Environment γ) (allowed : HostEvent → Prop)
    (before after : Session γ) : Prop where
  closed : before.closed = true → after.closed = true
  told : ∃ events, after.hostEvents = before.hostEvents ++ events ∧
    (∀ event ∈ events, allowed event) ∧
    ∀ held, before.types = held.foldl Registry.recordIn [] →
      after.types =
        (environment.host.retained before.hostEvents held events).foldl Registry.recordIn []

/-- Any event may be told. -/
abbrev AnyEvent (_ : HostEvent) : Prop := True

/-- No event is of a new type. -/
abbrev Untyped (event : HostEvent) : Prop := event.newType? = none

/-- What a session is for those who count its types: whether it is closed, its types, and what it has
told the host. -/
def standing (session : Session γ) : Bool × List TypeRecord × List HostEvent :=
  (session.closed, session.types, session.hostEvents)

section Relations

variable {allowed weaker : HostEvent → Prop} {before between after : Session γ}

theorem Follows.of_same (same : after.standing = before.standing) :
    Follows environment allowed before after := by
  rw [standing, standing, Prod.mk.injEq, Prod.mk.injEq] at same
  obtain ⟨closed, types, events⟩ := same
  exact ⟨closed.trans, [], by rw [events, List.append_nil], by simp, fun _ => types.trans⟩

theorem Follows.trans (first : Follows environment allowed before between)
    (second : Follows environment allowed between after) :
    Follows environment allowed before after := by
  obtain ⟨events, told, permitted, built⟩ := first.told
  obtain ⟨eventsLater, toldLater, permittedLater, builtLater⟩ := second.told
  refine ⟨fun isClosed => second.closed (first.closed isClosed), events ++ eventsLater, ?_,
    List.forall_mem_append.mpr ⟨permitted, permittedLater⟩, ?_⟩
  · rw [toldLater, told, List.append_assoc]
  · intro held same
    rw [builtLater _ (built held same), told, Host.retained_append]

theorem Follows.mono (follows : Follows environment allowed before after)
    (implies : ∀ event, allowed event → weaker event) :
    Follows environment weaker before after := by
  obtain ⟨events, told, permitted, built⟩ := follows.told
  exact ⟨follows.closed, events, told, fun event member => implies event (permitted event member),
    built⟩

end Relations

/-- An action follows what the host is told of, wherever it begins. -/
abbrev Following {α : Type} (environment : Environment γ) (allowed : HostEvent → Prop)
    (action : Action (Session γ) α) : Prop :=
  Action.Reaches (Follows environment allowed) action

namespace Following

variable {α β : Type} {allowed : HostEvent → Prop} {action : Action (Session γ) α}
  {next : α → Action (Session γ) β}

theorem of_keeps (keeps : Action.Keeps standing action) : Following environment allowed action :=
  fun before => .of_same (keeps before)

theorem bind (first : Following environment allowed action)
    (later : ∀ value, Following environment allowed (next value)) :
    Following environment allowed (action >>= next) :=
  Action.Reaches.bind (fun _ _ _ own others => own.trans others) first later

theorem forM {items : List α} {step : α → Action (Session γ) PUnit}
    (each : ∀ item, Following environment allowed (step item)) :
    Following environment allowed (items.forM step) :=
  Action.Reaches.forM (fun _ => .of_same rfl) (fun _ _ _ own others => own.trans others) each

end Following

/-! ## What is told -/

theorem hostEvents_append {session : Session γ} {added : List Signal}
    (untold : ∀ signal ∈ added, signal.isTold = false) :
    { session with trace := session.trace ++ added }.hostEvents = session.hostEvents := by
  rw [hostEvents, hostEvents, List.filterMap_append, List.append_right_eq_self,
    List.filterMap_eq_nil_iff]
  intro signal member
  have quiet := untold signal member
  cases signal with
  | told event => cases quiet
  | _ => rfl

theorem standing_append (session : Session γ) {added : List Signal}
    (untold : ∀ signal ∈ added, signal.isTold = false) :
    { session with trace := session.trace ++ added }.standing = session.standing := by
  rw [standing, hostEvents_append untold]
  rfl

theorem hostEvents_told (session : Session γ) (event : HostEvent) :
    { session with trace := session.trace ++ [Signal.told event] }.hostEvents =
      session.hostEvents ++ [event] :=
  List.filterMap_append

theorem isTold_of_mem_logged {log : List LogRecord} :
    ∀ signal ∈ log.map Signal.logged, signal.isTold = false :=
  List.forall_mem_map.mpr fun _ _ => rfl

/-- A session that has told the host of an event and done what the host replied. -/
def afterTelling (environment : Environment γ) (session : Session γ) (event : HostEvent) :
    Session γ :=
  let told := { session with trace := session.trace ++ [Signal.told event] }
  if environment.host session.hostEvents event = .close then
    { told with registry := told.registry.clear, closed := true }
  else told

theorem finalState_tell_eq (event : HostEvent) (before : Session γ) :
    (tell environment event).finalState before = before.afterTelling environment event := by
  have got : (get : Action (Session γ) _).run before = .ok before before := rfl
  have told : (emit (.told event)).run before =
      .ok ⟨⟩ { before with trace := before.trace ++ [Signal.told event] } := rfl
  unfold tell
  rw [Action.finalState_bind_of_run_eq_ok got, Action.finalState_bind_of_run_eq_ok told,
    afterTelling]
  cases environment.host before.hostEvents event <;> rfl

theorem hostEvents_afterTelling (event : HostEvent) (before : Session γ) :
    (before.afterTelling environment event).hostEvents = before.hostEvents ++ [event] := by
  rw [afterTelling]
  split
  · exact hostEvents_told before event
  · exact hostEvents_told before event

theorem types_afterTelling (event : HostEvent) (before : Session γ) :
    (before.afterTelling environment event).types =
      if environment.host before.hostEvents event = .close then [] else before.types := by
  rw [afterTelling]
  split <;> rfl

theorem closed_afterTelling (event : HostEvent) {before : Session γ} (closed : before.closed = true) :
    (before.afterTelling environment event).closed = true := by
  rw [afterTelling]
  split
  · rfl
  · exact closed

theorem following_tell {event : HostEvent} (untyped : event.newType? = none) :
    Following environment Untyped (tell environment event) := by
  intro before
  rw [finalState_tell_eq]
  refine ⟨closed_afterTelling event, [event], hostEvents_afterTelling event before,
    List.forall_mem_singleton.mpr untyped, ?_⟩
  intro held built
  rw [types_afterTelling, Host.retained, Host.retained, untyped, Option.toList_none, List.append_nil]
  split
  · rfl
  · exact built

/-- A type that is recorded and then told to the host is held, unless the host has the session
closed. -/
theorem follows_noted {info : TypeRecord} {before recorded : Session γ}
    (standing : recorded.standing =
      (before.closed, Registry.recordIn before.types info, before.hostEvents)) :
    Follows environment AnyEvent before ((tell environment (.newType info)).finalState recorded) := by
  rw [Session.standing, Prod.mk.injEq, Prod.mk.injEq] at standing
  obtain ⟨closed, types, events⟩ := standing
  rw [finalState_tell_eq]
  refine ⟨fun isClosed => closed_afterTelling _ (closed.trans isClosed), [.newType info], ?_, by simp,
    ?_⟩
  · rw [hostEvents_afterTelling, events]
  · intro held built
    rw [types_afterTelling, events, Host.retained, Host.retained]
    split
    · rfl
    · rw [types, built, HostEvent.newType?, Option.toList_some, List.foldl_append]
      rfl

/-! ## The steps of a session -/

variable {allowed : HostEvent → Prop}

theorem following_emit {signal : Signal} (untold : signal.isTold = false) :
    Following environment allowed (emit signal : Action (Session γ) _) :=
  .of_keeps fun _ => standing_append _ (List.forall_mem_singleton.mpr untold)

theorem following_say (text : String) :
    Following environment allowed (say text : Action (Session γ) _) :=
  following_emit rfl

theorem following_emitLog (log : List LogRecord) :
    Following environment allowed (emitLog log : Action (Session γ) _) :=
  .forM fun _ => following_emit rfl

theorem follows_consulted {α : Type} (session : Session γ) (reply : Reply γ α) {signal : Signal}
    (untold : signal.isTold = false) :
    Follows environment allowed session (session.consulted reply signal) := by
  refine .of_same ?_
  rw [consulted, List.append_assoc]
  exact standing_append _
    (List.forall_mem_append.mpr ⟨isTold_of_mem_logged, List.forall_mem_singleton.mpr untold⟩)

theorem following_ask {α : Type} (request : GlueRequest) (consult : γ → Reply γ α)
    (granted : α → Bool) : Following environment allowed (ask request consult granted) := by
  intro before
  obtain ⟨answered, ended⟩ := finalState_ask request consult granted before
  rw [ended]
  exact follows_consulted before _ rfl

/-- What is recorded is told to the host next, so that both are looked at together. -/
theorem following_record_bind {info : TypeRecord} {rest : PUnit → Action (Session γ) PUnit}
    (goes : ∀ before recorded : Session γ,
      recorded.standing = (before.closed, Registry.recordIn before.types info, before.hostEvents) →
      Follows environment AnyEvent before ((rest ⟨⟩).finalState recorded)) :
    Following environment AnyEvent (record info >>= rest) := by
  intro before
  rw [Action.finalState, EStateM.run_bind, run_record]
  cases found : before.registry.record info with
  | error reason => exact .of_same rfl
  | ok recording =>
    refine goes before (before.withRecording recording) ?_
    have types : recording.registry.types = Registry.recordIn before.types info :=
      Registry.types_of_record found
    let recorded : Session γ := { before with registry := recording.registry }
    have logged : (before.withRecording recording).standing = recorded.standing :=
      standing_append recorded isTold_of_mem_logged
    rw [logged, ← types]
    rfl

theorem following_noteWritten (info : TypeRecord) :
    Following environment AnyEvent (noteWritten environment info) := by
  refine .bind (following_say _) fun _ => following_record_bind fun before recorded standing => ?_
  by_cases isListed : isPublicEnum info = true
  · rw [if_pos isListed]
    let listed : Session γ := { recorded with registry := recorded.registry.listEnum info }
    have same : listed.standing = recorded.standing := by
      rw [Session.standing, types, Registry.types_listEnum]
      rfl
    let remark := ownRecord "    Automatically exporting public enum for backwards compatibility"
    have noted : { listed with trace := listed.trace ++ [Signal.logged remark] }.standing =
        listed.standing := standing_append _ (List.forall_mem_singleton.mpr rfl)
    exact follows_noted (noted.trans (same.trans standing))
  · rw [if_neg isListed]
    exact follows_noted standing

theorem following_noteResolved (info : TypeRecord) :
    Following environment AnyEvent (noteResolved environment info) := by
  refine .bind (following_say _) fun _ => ?_
  rw [← bind_assoc]
  refine .bind (following_record_bind fun _ _ => follows_noted) fun _ => ?_
  split
  · exact fun before => (following_tell rfl before).mono fun _ _ => trivial
  · exact .of_keeps (.pure _)

theorem following_programFinished : Following environment Untyped (programFinished environment) := by
  refine .bind (.of_keeps .get) fun session => ?_
  split
  · exact .of_keeps (.pure _)
  refine .bind (.of_keeps fun _ => rfl) fun _ => .bind (following_say _) fun _ => ?_
  refine .bind (following_ask _ _ _) fun granted => ?_
  split
  · exact .of_keeps (.throw _)
  · exact .of_keeps (.pure _)

theorem compileSteps_follows : CompileSteps environment (Follows environment AnyEvent) where
  refl _ := .of_same rfl
  trans _ _ _ first second := first.trans second
  written := following_noteWritten
  resolved := following_noteResolved
  announced _ _ := following_ask _ _ _
  finished before := (following_programFinished before).mono fun _ _ => trivial
  begun _ := .of_same (standing_append _ (List.forall_mem_singleton.mpr rfl))
  settled _ := .of_same (standing_append _ (List.forall_mem_singleton.mpr rfl))
  failed _ := .of_same rfl

theorem following_compile (files : FileSystem) :
    Following environment AnyEvent (compile environment files) :=
  fun _ => compileSteps_follows.compile fun _ _ => following_emit rfl

theorem loadSteps_follows : LoadSteps environment (Follows environment allowed) where
  refl _ := .of_same rfl
  trans _ _ _ first second := first.trans second
  say _ _ := .of_same (standing_append _ (List.forall_mem_singleton.mpr rfl))
  ask session _ _ _ := follows_consulted session _ rfl
  queue _ _ := .of_same rfl

theorem following_load (files : FileSystem) (requested : Path) (base : Option Path) :
    Following environment Untyped (load environment files requested base) := by
  intro before
  obtain ⟨begun, rfl | ⟨_, rfl⟩, loads⟩ := loadSteps_follows.load files requested base before
  · exact loads
  · have begun : Follows environment Untyped before { before with stage := .loading } :=
      .of_same rfl
    exact begun.trans loads

/-- A relation between sessions that holds along the steps in which the runtime starts and ends. -/
structure RuntimeSteps (environment : Environment γ) (reaches : Session γ → Session γ → Prop) :
    Prop where
  refl : ∀ session, reaches session session
  trans : ∀ first second third, reaches first second → reaches second third → reaches first third
  log : ∀ session record,
    reaches session { session with trace := session.trace ++ [Signal.logged record] }
  switch : ∀ session runtimeActive, reaches session { session with runtimeActive }
  tell : ∀ event, event.newType? = none → Action.Reaches reaches (tell environment event)

namespace RuntimeSteps

variable {reaches : Session γ → Session γ → Prop}

theorem start (steps : RuntimeSteps environment reaches) :
    Action.Reaches reaches (startRuntime environment) := by
  have starts : Action.Reaches reaches (do
      emit (.logged (runtimeRecord "initializing host runtime"))
      Session.tell environment .runtimeStarted
      modify fun session => { session with runtimeActive := true }) := by
    refine .bind steps.trans (fun session => steps.log session _) fun _ => ?_
    refine .bind steps.trans (steps.tell _ rfl) fun _ => ?_
    exact fun session => steps.switch session true
  refine .bind steps.trans (fun session => steps.refl session) fun session => ?_
  split
  · exact .bind steps.trans (fun session => steps.refl session) fun _ => starts
  · exact starts

theorem finish (steps : RuntimeSteps environment reaches) :
    Action.Reaches reaches (endRuntime environment) := by
  have ends : Action.Reaches reaches (do
      emit (.logged (runtimeRecord "shutting down host runtime"))
      modify fun session => { session with runtimeActive := false }
      Session.tell environment .runtimeEnded) := by
    refine .bind steps.trans (fun session => steps.log session _) fun _ => ?_
    refine .bind steps.trans (fun session => steps.switch session false) fun _ => ?_
    exact steps.tell _ rfl
  refine .bind steps.trans (fun session => steps.refl session) fun session => ?_
  split
  · exact .bind steps.trans (fun session => steps.refl session) fun _ => ends
  · exact ends

end RuntimeSteps

theorem runtimeSteps_follows : RuntimeSteps environment (Follows environment Untyped) where
  refl _ := .of_same rfl
  trans _ _ _ first second := first.trans second
  log _ _ := .of_same (standing_append _ (List.forall_mem_singleton.mpr rfl))
  switch _ _ := .of_same rfl
  tell _ untyped := following_tell untyped

theorem runtimeSteps_coherent : RuntimeSteps environment fun before after : Session γ =>
    before.registry.Coherent → after.registry.Coherent where
  refl _ coherent := coherent
  trans _ _ _ first second coherent := second (first coherent)
  log _ _ coherent := coherent
  switch _ _ coherent := coherent
  tell event _ := coheres_tell event

theorem following_reportExports : Following environment Untyped (reportExports environment) :=
  .bind (.of_keeps .get) fun _ => .bind (following_emitLog _) fun _ => .of_keeps (.pure _)

/-! ## Calls -/

section Calls

variable {session after : Session γ} {held : List TypeRecord}

theorem Follows.types (follows : Follows environment allowed session after)
    (built : session.types = held.foldl Registry.recordIn []) :
    after.types = (environment.host.retained session.hostEvents held
      (after.hostEvents.drop session.hostEvents.length)).foldl Registry.recordIn [] := by
  obtain ⟨events, told, _, goes⟩ := follows.told
  rw [told, List.drop_left]
  exact goes held built

theorem Follows.untyped (follows : Follows environment Untyped session after)
    (built : session.types = held.foldl Registry.recordIn []) :
    after.types = session.types ∨ after.types = [] := by
  obtain ⟨events, _, untyped, goes⟩ := follows.told
  rw [goes held built, built]
  rcases environment.host.retained_of_untyped session.hostEvents held untyped with same | none
  · exact .inl (by rw [same])
  · exact .inr (by rw [none, List.foldl_nil])

theorem finalState_compile_of_closed (files : FileSystem) (closed : session.closed = true) :
    (compile environment files).finalState session = session := by
  rw [Action.finalState, run_compile, if_pos closed]

/-- A call follows what the host is told of, and retains types by that; in a closed session only the
hooks for units tell of new types. -/
structure Ordinary (environment : Environment γ) (session : Session γ) (call : Call) : Prop where
  retains : ∀ held, retained environment session held call =
    environment.host.retained session.hostEvents held
      ((answer environment session call).hostEvents.drop session.hostEvents.length)
  follows : Follows environment AnyEvent session (answer environment session call)
  untyped : session.closed = true → call.isUnitHook = false →
    Follows environment Untyped session (answer environment session call)

theorem Ordinary.of_untyped {call : Call}
    (retains : ∀ held, retained environment session held call =
      environment.host.retained session.hostEvents held
        ((answer environment session call).hostEvents.drop session.hostEvents.length))
    (follows : Follows environment Untyped session (answer environment session call)) :
    Ordinary environment session call :=
  ⟨retains, follows.mono fun _ _ => trivial, fun _ _ => follows⟩

/-- A call closes the session or tells the host of an event directly, or it is an ordinary one. -/
theorem answer_cases (environment : Environment γ) (session : Session γ) (call : Call) :
    call = .perform .close ∨ (∃ event, call = .tell event) ∨ Ordinary environment session call := by
  cases call with
  | perform operation =>
    cases operation with
    | load files requested base =>
      exact .inr (.inr (.of_untyped (fun _ => rfl) (following_load files requested base session)))
    | compile files =>
      refine .inr (.inr ⟨fun _ => rfl, following_compile files session, fun closed _ => ?_⟩)
      exact .of_same (congrArg standing (finalState_compile_of_closed files closed))
    | parsed unit =>
      exact .inr (.inr ⟨fun _ => rfl, compileSteps_follows.unitParsed unit session, fun _ => nofun⟩)
    | resolved unit =>
      exact .inr (.inr ⟨fun _ => rfl, compileSteps_follows.unitResolved unit session, fun _ => nofun⟩)
    | finished program =>
      exact .inr (.inr (.of_untyped (fun _ => rfl) (following_programFinished session)))
    | close => exact .inl rfl
  | tell event => exact .inr (.inl ⟨event, rfl⟩)
  | startRuntime =>
    exact .inr (.inr (.of_untyped (fun _ => rfl) (runtimeSteps_follows.start session)))
  | endRuntime =>
    exact .inr (.inr (.of_untyped (fun _ => rfl) (runtimeSteps_follows.finish session)))
  | reportExports =>
    exact .inr (.inr (.of_untyped (fun _ => rfl) (following_reportExports session)))

/-- A session holds what it is made of by the types that it retains. -/
theorem types_answer (call : Call) (built : session.types = held.foldl Registry.recordIn []) :
    (answer environment session call).types =
      (retained environment session held call).foldl Registry.recordIn [] := by
  rcases answer_cases environment session call with rfl | ⟨event, rfl⟩ | ordinary
  · rfl
  · rw [answer, finalState_tell_eq, types_afterTelling, retained]
    split
    · rfl
    · exact built
  · rw [ordinary.retains]
    exact ordinary.follows.types built

/-- What is closed is never opened again. -/
theorem closed_answer (call : Call) (closed : session.closed = true) :
    (answer environment session call).closed = true := by
  rcases answer_cases environment session call with rfl | ⟨event, rfl⟩ | ordinary
  · rfl
  · rw [answer, finalState_tell_eq]
    exact closed_afterTelling event closed
  · exact ordinary.follows.closed closed

/-- A closed session gets new types by hooks for units alone. -/
theorem types_answer_of_closed (call : Call) (closed : session.closed = true)
    (notUnitHook : call.isUnitHook = false)
    (built : session.types = held.foldl Registry.recordIn []) :
    (answer environment session call).types = session.types ∨
      (answer environment session call).types = [] := by
  rcases answer_cases environment session call with rfl | ⟨event, rfl⟩ | ordinary
  · exact .inr rfl
  · rw [answer, finalState_tell_eq, types_afterTelling]
    split
    · exact .inr rfl
    · exact .inl rfl
  · exact (ordinary.untyped closed notUnitHook).untyped built

theorem coherent_answer (call : Call) (coherent : session.registry.Coherent) :
    (answer environment session call).registry.Coherent := by
  cases call with
  | perform operation => exact coherent_perform session operation coherent
  | tell event => exact coheres_tell event session coherent
  | startRuntime => exact runtimeSteps_coherent.start session coherent
  | endRuntime => exact runtimeSteps_coherent.finish session coherent
  | reportExports =>
    have reports : Coheres (reportExports environment) :=
      .bind (.of_keeps .get) fun _ =>
        .bind (.forM fun _ => .of_keeps fun _ => rfl) fun _ => .of_keeps (.pure _)
    exact reports session coherent

end Calls

/-! ## Sessions that hold nothing -/

/-- A session has no types, lists no enums and exports nothing. -/
def HoldsNothing (environment : Environment γ) (session : Session γ) : Prop :=
  session.types = [] ∧ session.listedEnums = [] ∧ session.exports environment = []

theorem holdsNothing_iff {session : Session γ} (coherent : session.registry.Coherent) :
    session.HoldsNothing environment ↔ session.types = [] := by
  refine ⟨And.left, fun none => ?_⟩
  have unknown : ∀ id, session.registry.find? id = .none := by
    intro id
    rw [Registry.find?, show session.registry.types = [] from none, List.find?_nil]
  have unlisted : session.listedEnums = [] := by
    refine List.eq_nil_iff_forall_not_mem.mpr fun listed member => ?_
    have known := coherent.recorded listed member
    rw [Registry.contains, unknown] at known
    cases known
  refine ⟨none, unlisted, ?_⟩
  simp [exports, recordedExports, automaticExports, unlisted, unknown, firstOfEach]

theorem ledger_answerAll {session : Session γ} {held : List TypeRecord} (calls : List Call)
    (coherent : session.registry.Coherent)
    (built : session.types = held.foldl Registry.recordIn []) :
    (answerAll environment session calls).registry.Coherent ∧
      (answerAll environment session calls).types =
        (retainedAll environment session held calls).foldl Registry.recordIn [] := by
  induction calls generalizing session held with
  | nil => exact ⟨coherent, built⟩
  | cons call rest ih => exact ih (coherent_answer call coherent) (types_answer call built)

/-- A closed session that holds nothing holds nothing until a hook for units is called. -/
theorem holdsNothing_answerAll {session : Session γ} {calls : List Call}
    (coherent : session.registry.Coherent) (closed : session.closed = true)
    (nothing : session.types = []) (noUnitHook : ∀ call ∈ calls, call.isUnitHook = false) :
    (answerAll environment session calls).HoldsNothing environment := by
  induction calls generalizing session with
  | nil => exact (holdsNothing_iff coherent).mpr nothing
  | cons call rest ih =>
    obtain ⟨own, others⟩ := List.forall_mem_cons.mp noUnitHook
    have built : session.types = ([] : List TypeRecord).foldl Registry.recordIn [] := nothing
    refine ih (coherent_answer call coherent) (closed_answer call closed) ?_ others
    rcases types_answer_of_closed call closed own built with same | none
    · exact same.trans nothing
    · exact none

/-- Whatever is asked of a session, in whatever order and with whatever host, coordinator and front end:
its types are those that it told the host of since it was last closed. So it has types, lists enums or
exports anything exactly if there are such types; and a session that is closed and holds nothing holds
nothing as long as no hook for units is called. -/
theorem holdsNothing_iff_retains_nothing (environment : Environment γ) (options : Options) (glue : γ)
    (calls : List Call) :
    let started := start environment options glue
    let session := answerAll environment started calls
    let kept := retainedAll environment started [] calls
    session.types = kept.foldl Registry.recordIn [] ∧
      (session.HoldsNothing environment ↔ kept = []) ∧
      (session.closed = true → session.HoldsNothing environment → ∀ later : List Call,
        (∀ call ∈ later, call.isUnitHook = false) →
          (answerAll environment session later).HoldsNothing environment) := by
  intro started session kept
  obtain ⟨coherent, built⟩ : session.registry.Coherent ∧
      session.types = kept.foldl Registry.recordIn [] :=
    ledger_answerAll calls (Registry.coherent_of_unlisted rfl) rfl
  refine ⟨built, ?_, fun closed nothing later => holdsNothing_answerAll coherent closed nothing.1⟩
  rw [holdsNothing_iff coherent, built, Registry.foldl_recordIn_eq_nil_iff]

/-- A closed session does not compile, and holds nothing after it was asked to. -/
theorem closed_rests :
    let closed := answerAll .standard (start .standard .plain {}) [.perform .close]
    closed.closed = true ∧ closed.HoldsNothing .standard ∧
      (answerAll .standard closed
        [.perform (.load firstEdition (.ofString "m.weft") none), .perform (.compile firstEdition),
          .startRuntime, .perform (.finished {}), .reportExports]).HoldsNothing .standard := by
  intro closed
  obtain ⟨_, holdsNothing, rests⟩ :=
    holdsNothing_iff_retains_nothing .standard .plain {} [.perform .close]
  have nothing : closed.HoldsNothing .standard := holdsNothing.mpr rfl
  exact ⟨rfl, nothing, rests rfl nothing _ (by simp [Call.isUnitHook])⟩

/-- A host that has the session closed at the first event. -/
def Host.closing : Host := fun earlier _ => if earlier = [] then .close else .proceed

/-- A closed session records what a hook is called with, and a session that is closed during a
compilation records what remains of it. -/
theorem closed_holds_types :
    let closed := answerAll .standard (start .standard .plain {}) [.perform .close]
    let told := answerAll .standard closed [.perform (.parsed tangledUnit)]
    let closing : Environment GlueBinder := .standard Host.closing
    let compiled := answerAll closing (start closing .plain {})
      [.perform (.load firstEdition (.ofString "m.weft") none), .perform (.compile firstEdition)]
    (closed.closed = true ∧ told.types.map TypeRecord.id = ["m::A", "m::B", "m::C"] ∧
        ¬told.HoldsNothing .standard) ∧
      compiled.closed = true ∧ compiled.types.map TypeRecord.id = ["m::B", "m::A"] ∧
        ¬compiled.HoldsNothing closing := by
  intro closed told closing compiled
  have toldIds : told.types.map TypeRecord.id = ["m::A", "m::B", "m::C"] := by decide +kernel
  have compiledIds : compiled.types.map TypeRecord.id = ["m::B", "m::A"] := by decide +kernel
  refine ⟨⟨rfl, toldIds, fun nothing => ?_⟩, by decide +kernel, compiledIds, fun nothing => ?_⟩
  · rw [nothing.1] at toldIds
    cases toldIds
  · rw [nothing.1] at compiledIds
    cases compiledIds

end Session

end WireModules
