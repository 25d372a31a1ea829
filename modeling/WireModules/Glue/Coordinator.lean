import WireModules.Fault
import WireModules.FileTree
import WireModules.Registry.Basic
import WireModules.Report.Log

/-!
# Coordinators of glue

A coordinator is what a session asks to load glue files and to compile the glue code once the
types of all modules are recorded. It has a state of its own, which no one else looks into.
-/

set_option autoImplicit false

namespace WireModules

/-- The outcome of one request to a coordinator: its state afterwards, what it logged and its
answer. -/
structure Reply (γ α : Type) where
  state : γ
  log : List LogRecord
  answer : Except Fault α

structure Coordinator (γ : Type) where
  attach : γ → γ
  /-- Load a glue file; the answer says whether it was accepted. -/
  load : FileSystem → Path → γ → Reply γ Bool
  announce : String → Path → γ → Reply γ Unit
  /-- Compile the glue code against the recorded types; the answer says whether it succeeded. -/
  compile : Registry → γ → Reply γ Bool
  /-- The exported types and the names by which the host knows them. -/
  exports : γ → List (String × String)

end WireModules
