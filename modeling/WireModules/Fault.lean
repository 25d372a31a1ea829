import WireModules.FileTree
import WireModules.Place
import WireModules.Registry.Extract
import WireModules.Report.Failure
import WireModules.Text.Quoted

/-!
# Faults

What ends an operation without a result. Failures concern the inputs and are what users are told;
the other faults mean that the tool or its host went wrong.
-/

set_option autoImplicit false

namespace WireModules

inductive Misuse where
  | sessionClosed
  | runtimeActive
  | runtimeInactive
  | glueDetached
deriving DecidableEq, Repr

def Misuse.message : Misuse → String
  | .sessionClosed => "driver has been closed"
  | .runtimeActive => "host runtime already initialized"
  | .runtimeInactive => "host runtime not initialized"
  | .glueDetached => "glue compiler not attached to a driver"

inductive Fault where
  | failure (failure : Failure)
  /-- An integer literal has too many digits to be read. -/
  | tooLong (refusal : Text.Decimal.TooLong)
  | extract (error : ExtractError)
  | misuse (misuse : Misuse)
  | place (error : PlaceError)
  /-- A path could not be looked up, for another reason than that nothing stands there. -/
  | lookup (path : Path) (error : FileError)
  /-- Code of the host failed: the kind of its error, and what it said. -/
  | host (kind text : String)
  | exhausted
deriving DecidableEq, Repr

/-- A step that changes a state and may end in a fault; what was changed before the fault stays
changed. -/
abbrev Action (σ : Type) := EStateM Fault σ

namespace Fault

def message : Fault → String
  | .failure reason => reason.human
  | .tooLong refusal => refusal.message
  | .extract error => error.message
  | .misuse kind => kind.message
  | .place error => error.message
  | .lookup path error =>
    "[Errno " ++ toString error.number ++ "] " ++ error.reason ++ ": " ++
      Text.quoted (toString path)
  | .host _ text => text
  | .exhausted => "too many modules"

def demand {σ α : Type} : Except Failure α → Action σ α
  | .ok value => pure value
  | .error reason => throw (Fault.failure reason)

end Fault

end WireModules
