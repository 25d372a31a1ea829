import WireModules.Proofs.CheckedGlue
import WireModules.Proofs.ImportSearch
import WireModules.Proofs.SessionHistory

/-!
# What a load leaves

A load goes through a search, a look at the extension and, for a glue file, the reading and parsing of
it by the coordinator. Wherever it fails, nothing has been scheduled; if it succeeds, one file is
scheduled, or was before.
-/

set_option autoImplicit false

namespace WireModules

/-! ## The ends of a load -/

namespace Session

variable {γ : Type} {environment : Environment γ}

/-- A session that has begun to load something. -/
def beginLoading (session : Session γ) : Session γ :=
  if session.stage = .idle then { session with stage := .loading } else session

def saying (session : Session γ) (text : String) : Session γ :=
  { session with trace := session.trace ++ [.logged (ownRecord text)] }

/-- How a load of a path ends that was found. -/
def scheduled (environment : Environment γ) (files : FileSystem) (path : Path)
    (session : Session γ) : EStateM.Result Fault (Session γ) Path :=
  match path.inputKind? with
  | none => .error (.failure (.unsupportedInput (toString path))) session
  | some .glue =>
    let reply := environment.coordinator.load files path session.glue
    let said := session.saying ("Loading glue file " ++ toString path)
    match reply.answer with
    | .ok true => .ok path (said.consulted reply (.asked (.load path) true))
    | .ok false =>
      .error (.failure (.glueFileRejected (toString path)))
        (said.consulted reply (.asked (.load path) false))
    | .error fault => .error fault (said.consulted reply (.asked (.load path) false))
  | some kind =>
    let said := session.saying ("Loading " ++ kind.label ++ " file " ++ toString path)
    match environment.frontEnd.enqueue session.queue files path with
    | .ok queue => .ok path { said with queue }
    | .error fault => .error fault said

theorem run_load (files : FileSystem) (requested : Path) (base : Option Path) (before : Session γ) :
    (load environment files requested base).run before =
      if before.closed then .error (.misuse .sessionClosed) before
      else
        match files.resolveInput requested base before.options.searchOrder with
        | .error fault => .error fault before.beginLoading
        | .ok path => before.beginLoading.scheduled environment files path := by
  have got : ∀ session : Session γ, (get : Action (Session γ) _).run session = .ok session session :=
    fun _ => rfl
  unfold load
  by_cases closed : before.closed = true
  · have stopped : requireOpen.run before = .error (.misuse .sessionClosed) before := by
      simp [requireOpen, closed]
    rw [if_pos closed, EStateM.run_bind, stopped]
  · have opened : requireOpen.run before = .ok ⟨⟩ before := by
      simp [requireOpen, closed]
    rw [if_neg closed, Action.run_bind_of_run_eq_ok opened, Action.run_bind_of_run_eq_ok (got before)]
    extract_lets next
    have later : ∀ session : Session γ, (next ⟨⟩).run session =
        match files.resolveInput requested base session.options.searchOrder with
        | .error fault => .error fault session
        | .ok path => session.scheduled environment files path := by
      intro session
      refine (Action.run_bind_of_run_eq_ok (got session)).trans ?_
      rw [EStateM.run_bind]
      cases files.resolveInput requested base session.options.searchOrder with
      | error fault => rfl
      | ok path =>
        have found : (ofExcept (.ok path) : Action (Session γ) Path).run session =
            .ok path session := rfl
        rw [found]
        dsimp only
        rw [EStateM.run_bind, Path.classify, scheduled]
        cases path.inputKind? with
        | none => rfl
        | some kind =>
          have known : (Fault.demand (.ok kind) : Action (Session γ) InputKind).run session =
            .ok kind session := rfl
          rw [known]
          dsimp only
          have spoken : ∀ text, (say text : Action (Session γ) _).run session =
            .ok ⟨⟩ (session.saying text) := fun _ => rfl
          cases kind with
          | glue =>
            dsimp only
            rw [Action.run_bind_of_run_eq_ok (spoken _), EStateM.run_bind, run_ask]
            dsimp only [saying]
            cases (environment.coordinator.load files path session.glue).answer with
            | error fault => rfl
            | ok granted => cases granted <;> rfl
          | _ =>
            dsimp only
            rw [Action.run_bind_of_run_eq_ok (spoken _), Action.run_bind_of_run_eq_ok (got _)]
            dsimp only [saying]
            cases environment.frontEnd.enqueue session.queue files path <;> rfl
    split
    · next idle =>
      rw [beginLoading, if_pos idle]
      exact later _
    · next busy =>
      rw [beginLoading, if_neg busy]
      exact later before

/-! ## What changes -/

/-- No load changes more of a session than its queue and what the coordinator has: an idle session
becomes one that is loading, and lines of the log and a question to the coordinator go into its trace. -/
structure Undisturbed (before after : Session γ) : Prop where
  options : after.options = before.options
  registry : after.registry = before.registry
  needsGlue : after.needsGlue = before.needsGlue
  closed : after.closed = before.closed
  runtime : after.runtimeActive = before.runtimeActive
  stage : after.stage = before.stage ∨ before.stage = .idle ∧ after.stage = .loading
  trace : ∃ added, after.trace = before.trace ++ added ∧ ∀ signal ∈ added, signal.isLoading = true

namespace Undisturbed

variable {before after : Session γ}

theorem refl (session : Session γ) : Undisturbed session session :=
  ⟨rfl, rfl, rfl, rfl, rfl, .inl rfl, [], (List.append_nil _).symm, by simp⟩

theorem beginLoading (before : Session γ) : Undisturbed before before.beginLoading := by
  rw [Session.beginLoading]
  split
  · next idle =>
    exact ⟨rfl, rfl, rfl, rfl, rfl, .inr ⟨idle, rfl⟩, [], (List.append_nil _).symm, by simp⟩
  · exact .refl before

theorem queue (undisturbed : Undisturbed before after) (queue : Queue) :
    Undisturbed before { after with queue } :=
  { undisturbed with }

theorem consulted (undisturbed : Undisturbed before after) (reply : Reply γ Bool) (path : Path)
    (answered : Bool) :
    Undisturbed before (after.consulted reply (.asked (.load path) answered)) := by
  obtain ⟨added, traced, loading⟩ := undisturbed.trace
  have logged : ∀ signal ∈ reply.log.map Signal.logged, signal.isLoading = true :=
    List.forall_mem_map.mpr fun _ _ => rfl
  refine { undisturbed with
    trace := ⟨added ++ (reply.log.map Signal.logged ++ [.asked (.load path) answered]), ?_, ?_⟩ }
  · simp [Session.consulted, traced]
  · exact List.forall_mem_append.mpr
      ⟨loading, List.forall_mem_append.mpr ⟨logged, List.forall_mem_singleton.mpr rfl⟩⟩

theorem saying (undisturbed : Undisturbed before after) (text : String) :
    Undisturbed before (after.saying text) := by
  obtain ⟨added, traced, loading⟩ := undisturbed.trace
  refine { undisturbed with trace := ⟨added ++ [.logged (ownRecord text)], ?_, ?_⟩ }
  · simp [Session.saying, traced]
  · exact List.forall_mem_append.mpr ⟨loading, List.forall_mem_singleton.mpr rfl⟩

end Undisturbed

end Session

namespace GlueBinder

/-- A glue file that is not taken leaves no more than diagnostics. -/
theorem load_refused {files : FileSystem} {path : Path} {binder : GlueBinder}
    (refused : (load files path binder).answer ≠ .ok true) :
    ∃ found, (load files path binder).state =
      { binder with diagnostics := binder.diagnostics ++ found } := by
  have same : ∃ found, binder = { binder with diagnostics := binder.diagnostics ++ found } :=
    ⟨[], by rw [List.append_nil]⟩
  rw [load] at refused ⊢
  split at refused
  · exact absurd rfl refused
  next absent =>
    rw [if_neg absent]
    split at refused
    · next null =>
      rw [if_pos null]
      exact same
    next openable =>
      rw [if_neg openable]
      split at refused
      · exact ⟨_, rfl⟩
      next text read =>
        rw [accept] at refused ⊢
        cases denotes : GlueFile.ofText text (some (toString path.normalize)) with
        | error error =>
          cases error with
          | tooLong refusal => exact same
          | rejected rejection => exact ⟨_, rfl⟩
        | ok glue =>
          rw [denotes] at refused
          exact absurd rfl refused

end GlueBinder

namespace Session

variable {before after : Session GlueBinder} {files : FileSystem} {path : Path}

/-- Nothing has been scheduled: only diagnostics are new. -/
structure Unscheduled (before after : Session GlueBinder) : Prop where
  queue : after.queue = before.queue
  glue : ∃ found, after.glue = { before.glue with diagnostics := before.glue.diagnostics ++ found }

/-- Exactly one file is scheduled, a glue file with the coordinator and any other in the queue, or it
was before and nothing changes. -/
inductive Scheduled (files : FileSystem) (path : Path) (before after : Session GlueBinder) : Prop where
  | glue (glue : GlueFile) : path.inputKind? = some .glue → before.glue.hasFile path = false →
      files.glueFile? path = some glue →
      after.glue = { before.glue with files := before.glue.files ++ [⟨path, glue⟩] } →
      after.queue = before.queue → Scheduled files path before after
  | queued : path.inputKind? ≠ some .glue → path ∉ before.queue.paths →
      after.queue.paths = before.queue.paths ++ [path] → after.glue = before.glue →
      Scheduled files path before after
  | known : before.glue.hasFile path = true ∨ path ∈ before.queue.paths →
      after.glue = before.glue → after.queue = before.queue → Scheduled files path before after

/-- How a load may end: it has scheduled nothing, or the file that it returns. Neither way it touches
the registry. -/
def LoadEnds (files : FileSystem) (before : Session GlueBinder) :
    EStateM.Result Fault (Session GlueBinder) Path → Prop
  | .error _ after => Undisturbed before after ∧ Unscheduled before after
  | .ok path after =>
    path.normalize = path ∧ Undisturbed before after ∧ Scheduled files path before after

theorem Unscheduled.of_eq (queue : after.queue = before.queue) (glue : after.glue = before.glue) :
    Unscheduled before after :=
  ⟨queue, [], by rw [glue, List.append_nil]⟩

section Scheduled

variable {host : Host} {begun : Session GlueBinder} (undisturbed : Undisturbed before begun)
  (sameGlue : begun.glue = before.glue) (sameQueue : begun.queue = before.queue)
  (normal : path.normalize = path)
include undisturbed sameGlue sameQueue normal

theorem loadEnds_glue (isGlue : path.inputKind? = some .glue) : LoadEnds files before
    (begun.scheduled (.standard host) files path) := by
  have said := undisturbed.saying ("Loading glue file " ++ toString path)
  have refused : ∀ {after : Session GlueBinder}, after.queue = begun.queue →
      after.glue = (GlueBinder.load files path before.glue).state →
      (GlueBinder.load files path before.glue).answer ≠ .ok true → Unscheduled before after := by
    intro after queue glue ungranted
    obtain ⟨found, state⟩ := GlueBinder.load_refused ungranted
    exact ⟨queue.trans sameQueue, found, glue.trans state⟩
  rw [scheduled, isGlue]
  dsimp only [GlueBinder.coordinator]
  rw [sameGlue]
  cases answer : (GlueBinder.load files path before.glue).answer with
  | error fault => exact ⟨said.consulted .., refused rfl rfl (by rw [answer]; nofun)⟩
  | ok granted =>
    cases granted with
    | false => exact ⟨said.consulted .., refused rfl rfl (by rw [answer]; nofun)⟩
    | true =>
      refine ⟨normal, said.consulted .., ?_⟩
      rcases GlueBinder.load_granted answer with ⟨present, same⟩ | ⟨absent, loaded, read, added⟩
      · rw [normal] at present
        exact .known (.inl present) same sameQueue
      · rw [normal] at absent read added
        exact .glue loaded isGlue absent read added sameQueue

theorem loadEnds_queue {kind : InputKind} (isKind : path.inputKind? = some kind)
    (notGlue : kind ≠ .glue) : LoadEnds files before
      (begun.scheduled (.standard host) files path) := by
  have said := undisturbed.saying ("Loading " ++ kind.label ++ " file " ++ toString path)
  have unlike : path.inputKind? ≠ some .glue := by
    rw [isKind]
    exact fun same => notGlue (Option.some.inj same)
  rw [scheduled, isKind]
  split
  · next impossible => cases impossible
  · next same => exact absurd same.symm fun other => notGlue (Option.some.inj other).symm
  next same =>
  cases same
  dsimp only [FrontEnd.standard]
  rw [sameQueue]
  cases added : before.queue.add files path with
  | error reason => exact ⟨said, .of_eq sameQueue sameGlue⟩
  | ok queue =>
    refine ⟨normal, said.queue queue, ?_⟩
    obtain ⟨_, _, ⟨present, rfl⟩ | ⟨absent, longer⟩⟩ := Queue.add_ok added
    · rw [normal] at present
      exact .known (.inr present) sameGlue rfl
    · rw [normal] at absent longer
      exact .queued unlike absent longer sameGlue

end Scheduled

/-- However a session was used, whatever there is on disk and whatever is requested: a load that fails
has scheduled nothing, and one that succeeds has scheduled the file that it returns, unless that file
was scheduled before. -/
theorem load_schedules_or_refuses (host : Host) (files : FileSystem) (requested : Path)
    (base : Option Path) (before : Session GlueBinder) :
    LoadEnds files before
      ((load (.standard host) files requested base).run before) := by
  rw [run_load]
  by_cases closed : before.closed = true
  · rw [if_pos closed]
    exact ⟨.refl before, .of_eq rfl rfl⟩
  rw [if_neg closed]
  have begun := Undisturbed.beginLoading before
  obtain ⟨sameGlue, sameQueue⟩ : before.beginLoading.glue = before.glue ∧
      before.beginLoading.queue = before.queue := by
    rw [beginLoading]
    split <;> exact ⟨rfl, rfl⟩
  cases resolved : files.resolveInput requested base before.options.searchOrder with
  | error fault => exact ⟨begun, .of_eq sameQueue sameGlue⟩
  | ok path =>
    have normal : path.normalize = path := FileSystem.normalize_of_resolveInput resolved
    cases isKind : path.inputKind? with
    | none =>
      dsimp only
      rw [scheduled, isKind]
      exact ⟨begun, .of_eq sameQueue sameGlue⟩
    | some kind =>
      by_cases isGlue : kind = .glue
      · subst isGlue
        exact loadEnds_glue begun sameGlue sameQueue normal isKind
      · exact loadEnds_queue begun sameGlue sameQueue normal isKind isGlue

end Session

end WireModules
