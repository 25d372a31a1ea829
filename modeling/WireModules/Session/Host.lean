import WireModules.Session.Basic

/-!
# The host's runtime

A session starts and ends the runtime of the host; it cannot be started while it is active nor be
ended while it is not.
-/

set_option autoImplicit false

namespace WireModules.Session

variable {γ : Type}

def runtimeRecord (text : String) : LogRecord :=
  ⟨.debug, .runtime, text⟩

/-- Start the runtime; it is active unless the host fails. -/
def startRuntime (environment : Environment γ) : Action (Session γ) Unit := do
  if (← get).runtimeActive then throw (.misuse .runtimeActive)
  emit (.logged (runtimeRecord "initializing host runtime"))
  tell environment .runtimeStarted
  modify fun session => { session with runtimeActive := true }

/-- End the runtime; it is not active any more, also if the host fails. -/
def endRuntime (environment : Environment γ) : Action (Session γ) Unit := do
  if !(← get).runtimeActive then throw (.misuse .runtimeInactive)
  emit (.logged (runtimeRecord "shutting down host runtime"))
  modify fun session => { session with runtimeActive := false }
  tell environment .runtimeEnded

/-- Run something with the runtime active. The runtime is ended in any case, and a fault of the
end goes before a fault of what was run. -/
def withRuntime {α : Type} (environment : Environment γ) (body : Action (Session γ) α) :
    Action (Session γ) α := do
  startRuntime environment
  let result ← tryCatch (Except.ok <$> body) fun fault => return .error fault
  endRuntime environment
  match result with
  | .ok value => return value
  | .error fault => throw fault

end WireModules.Session
