import WireModules.Session.Basic

/-!
# Loading and compiling in a session

Glue files go to the coordinator when they are loaded; all other inputs wait in the queue until
they are compiled. During a compilation the types of each unit are recorded twice, as written and
as resolved, and once all are recorded the glue code is compiled, which happens once in a session.
A compilation that fails ends the session's work: nothing is compiled or recorded from then on.
-/

set_option autoImplicit false

namespace WireModules.Session

variable {γ : Type}

/-- Schedule an input, which is looked for in a base directory and along the search paths. -/
def load (environment : Environment γ) (files : FileSystem) (requested : Path)
    (base : Option Path) : Action (Session γ) Path := do
  requireOpen
  if (← get).stage = .idle then setStage .loading
  let path ← ofExcept (files.resolveInput requested base (← get).options.searchOrder)
  match ← Fault.demand path.classify with
  | .glue =>
    say ("Loading glue file " ++ toString path)
    if ← ask (.load path) (environment.coordinator.load files path) id then return path
    else throw (.failure (.glueFileRejected (toString path)))
  | kind =>
    say ("Loading " ++ kind.label ++ " file " ++ toString path)
    let queue ← ofExcept (environment.frontEnd.enqueue (← get).queue files path)
    modify fun session => { session with queue }
    return path

def record (info : TypeRecord) : Action (Session γ) Unit := do
  let recording ← Fault.demand ((← get).registry.record info)
  modify fun session => { session with registry := recording.registry }
  emitLog recording.log

/-- Whether a type is exported to the host without being asked for. -/
def isPublicEnum (info : TypeRecord) : Bool :=
  info.declKind = .enum && info.linkage = .external

def noteWritten (environment : Environment γ) (info : TypeRecord) : Action (Session γ) Unit := do
  say ("  Got type '" ++ info.id ++ "' (pre-compile)")
  record info
  if isPublicEnum info then
    say "    Automatically exporting public enum for backwards compatibility"
    modify fun session => { session with registry := session.registry.listEnum info }
  tell environment (.newType info)

def noteResolved (environment : Environment γ) (info : TypeRecord) : Action (Session γ) Unit := do
  say ("  Got type '" ++ info.id ++ "' (post-compile)")
  record info
  tell environment (.newType info)
  if info.declKind = .unit then tell environment (.newUnitType info)

/-- The records of the types of a unit, where users see them and the session has not failed. -/
def wantedRecords (unit : ProgramUnit) (resolved : Bool) :
    Action (Session γ) (Option (List TypeRecord)) := do
  if (← get).stage = .failed || !unit.isUserVisible then return none
  match unit.records resolved with
  | .ok records => return some records
  | .error error => throw (.extract error)

def unitParsed (environment : Environment γ) (unit : ProgramUnit) : Action (Session γ) Unit := do
  match ← wantedRecords unit false with
  | none => return
  | some records => records.forM (noteWritten environment)

/-- A unit was resolved. Its module is announced to the coordinator. -/
def unitResolved (environment : Environment γ) (unit : ProgramUnit) :
    Action (Session γ) Unit := do
  match ← wantedRecords unit true, unit.path with
  | some records, some path =>
    records.forM (noteResolved environment)
    ask (.announce unit.moduleId path) (environment.coordinator.announce unit.moduleId path)
      fun _ => true
  | _, _ => return

/-- All units are resolved: the glue code is compiled, unless it has been. -/
def programFinished (environment : Environment γ) : Action (Session γ) Unit := do
  let session ← get
  if session.stage = .failed || !session.needsGlue then return
  modify fun session => { session with needsGlue := false }
  say "Compiling glue code"
  if !(← ask .compile (environment.coordinator.compile session.registry) id) then
    throw (.failure .glueFailure)

def react (environment : Environment γ) : CompileEvent → Action (Session γ) Unit
  | .logged record => emit (.logged record)
  | .parsed unit => unitParsed environment unit
  | .resolved unit => unitResolved environment unit
  | .finished _ => programFinished environment

/-- Deliver a compilation to the session, and settle the stage if it takes all of it. -/
def conclude (environment : Environment γ) (compilation : Compilation) :
    Action (Session γ) Program := do
  let program ← compilation.deliver (react environment)
  modify fun session =>
    { session with stage := if session.needsGlue then .loading else .glueCompiled }
  say "Done with weft compiler"
  return program

/-- Compile all that is queued, if anything is. -/
def compile (environment : Environment γ) (files : FileSystem) :
    Action (Session γ) (Option Program) := do
  requireOpen
  let session ← get
  if session.stage = .failed then throw (.failure .alreadyFailed)
  if session.queue.isEmpty then return none
  say "Running weft compiler"
  modify fun session => { session with stage := .compiling, queue := {} }
  let compilation := environment.frontEnd.compile files session.options session.queue
  let program ← tryCatch (conclude environment compilation) fun fault => do
    setStage .failed
    throw fault
  return some program

end WireModules.Session
