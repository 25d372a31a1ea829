import WireModules.Report.Span
import WireModules.Text.Json

/-!
# Diagnostics

What a compilation or a binding reports about its inputs. Only diagnostics of severity `error`
make a run fail.
-/

set_option autoImplicit false

namespace WireModules

structure Diagnostic where
  message : String
  code : Option String := none
  phase : Option String := none
  severity : String := "error"
  span : Span := {}
  notes : List String := []
deriving DecidableEq, Repr

namespace Diagnostic

def isError (diagnostic : Diagnostic) : Bool :=
  diagnostic.severity = "error"

def human (diagnostic : Diagnostic) : String :=
  diagnostic.span.short ++ ": " ++ diagnostic.severity ++ ": " ++ diagnostic.message

end Diagnostic

namespace Json

def ofString? : Option String → Json
  | some text => .string text
  | none => .null

def ofInt? : Option Int → Json
  | some value => .integer value
  | none => .null

end Json

def Diagnostic.toJson (diagnostic : Diagnostic) : Json :=
  .object
    [("phase", .ofString? diagnostic.phase),
      ("message", .string diagnostic.message),
      ("severity", .string diagnostic.severity),
      ("file", .ofString? diagnostic.span.file),
      ("line", .ofInt? diagnostic.span.line),
      ("column", .ofInt? diagnostic.span.column),
      ("notes", .array (diagnostic.notes.map .string))]

def anyError (diagnostics : List Diagnostic) : Bool :=
  diagnostics.any Diagnostic.isError

end WireModules
