import WireModules.Glue.Binder
import WireModules.Program.Compile

/-!
# Sessions

A session takes inputs, compiles them and keeps a record of every type that users see. It works
between a front end that compiles modules, a coordinator of glue and the host, which is told of
new types and of the start and end of its runtime. All that a session does outside its own state
is in its trace.
-/

set_option autoImplicit false

namespace WireModules

inductive Stage where
  | idle
  | loading
  | compiling
  | glueCompiled
  | failed
deriving DecidableEq, Repr

inductive HostEvent where
  | newType (info : TypeRecord)
  | newUnitType (info : TypeRecord)
  | runtimeStarted
  | runtimeEnded
deriving DecidableEq

/-- What the host does about an event: nothing, close the session, or fail. -/
inductive HostReply where
  | proceed
  | close
  | fail (kind text : String)
deriving DecidableEq

/-- The host, by its replies: each may depend on all events before, which are given first. -/
abbrev Host := List HostEvent → HostEvent → HostReply

def Host.silent : Host := fun _ _ => .proceed

inductive GlueRequest where
  | load (path : Path)
  | announce (moduleId : String) (path : Path)
  | compile
deriving DecidableEq

inductive Signal where
  | logged (record : LogRecord)
  | told (event : HostEvent)
  | asked (request : GlueRequest) (granted : Bool)
  | noted (remark : String)
deriving DecidableEq

/-- What compiles modules: how an input is queued and how a queue is compiled. -/
structure FrontEnd where
  enqueue : Queue → FileSystem → Path → Except Fault Queue
  compile : FileSystem → Options → Queue → Compilation

def FrontEnd.standard : FrontEnd := ⟨Queue.add, Compilation.ofQueue⟩

structure Environment (γ : Type) where
  coordinator : Coordinator γ
  frontEnd : FrontEnd := .standard
  host : Host := .silent

/-- The glue binder and the standard front end, under a host. -/
abbrev Environment.standard (host : Host := .silent) : Environment GlueBinder where
  coordinator := GlueBinder.coordinator
  host := host

structure Session (γ : Type) where
  options : Options
  glue : γ
  queue : Queue := {}
  registry : Registry
  stage : Stage := .idle
  needsGlue : Bool := true
  closed : Bool := false
  runtimeActive : Bool := false
  trace : List Signal := []

namespace Session

variable {γ : Type}

def ownRecord (text : String) : LogRecord :=
  ⟨.debug, .session, text⟩

def start (environment : Environment γ) (options : Options) (glue : γ) : Session γ where
  options := options
  glue := environment.coordinator.attach glue
  registry := { strict := options.strictTypeNames }
  trace :=
    (ownRecord "search paths:" ::
      options.searchOrder.map fun place => ownRecord ("  " ++ toString place)).map .logged

def hostEvents (session : Session γ) : List HostEvent :=
  session.trace.filterMap fun
    | .told event => some event
    | _ => none

def log (session : Session γ) : List LogRecord :=
  session.trace.filterMap fun
    | .logged record => some record
    | _ => none

def emit (signal : Signal) : Action (Session γ) Unit :=
  modify fun session => { session with trace := session.trace ++ [signal] }

def emitLog (records : List LogRecord) : Action (Session γ) Unit :=
  records.forM fun record => emit (.logged record)

def say (text : String) : Action (Session γ) Unit :=
  emit (.logged (ownRecord text))

/-- Forget all types; the session takes no more inputs. -/
def close : Action (Session γ) Unit :=
  modify fun session =>
    { session with registry := session.registry.clear, closed := true }

def tell (environment : Environment γ) (event : HostEvent) : Action (Session γ) Unit := do
  let earlier := (← get).hostEvents
  emit (.told event)
  match environment.host earlier event with
  | .proceed => return
  | .close => close
  | .fail kind text => throw (.host kind text)

/-- Ask the coordinator for something; `granted` tells which answers grant the request. -/
def ask {α : Type} (request : GlueRequest) (consult : γ → Reply γ α) (granted : α → Bool) :
    Action (Session γ) α := do
  let reply := consult (← get).glue
  modify fun session => { session with glue := reply.state }
  emitLog reply.log
  match reply.answer with
  | .ok answer =>
    emit (.asked request (granted answer))
    return answer
  | .error fault =>
    emit (.asked request false)
    throw fault

def setStage (stage : Stage) : Action (Session γ) Unit :=
  modify fun session => { session with stage }

def requireOpen : Action (Session γ) Unit := do
  if (← get).closed then throw (.misuse .sessionClosed)

end Session

end WireModules
