import WireModules.Report.Diagnostic

/-!
# Failures of a run

A failure has a reason with a stable code, a one-line message and, where there is more to say, a
context, the path concerned and diagnostics. All wording of failures stands here.
-/

set_option autoImplicit false

namespace WireModules

inductive FailureReason where
  | unspecified
  | inputNotFound
  | unsupportedInput
  | loadFailure
  | compileFailure
  | typeNameCollision
  | glueFailure
  | outputFailure
  | unknownType
  | wrongKind
deriving DecidableEq, Repr

namespace FailureReason

def code : FailureReason → String
  | .unspecified => "driver-error"
  | .inputNotFound => "not-found"
  | .unsupportedInput => "unsupported-input"
  | .loadFailure => "load-failure"
  | .compileFailure => "compile-failure"
  | .typeNameCollision => "type-name-collision"
  | .glueFailure => "glue-failure"
  | .outputFailure => "output-failure"
  | .unknownType => "unknown-type"
  | .wrongKind => "wrong-kind"

def isCompileFailure : FailureReason → Bool
  | .compileFailure | .typeNameCollision => true
  | _ => false

end FailureReason

structure Failure where
  reason : FailureReason
  message : String
  context : Option String := none
  path : Option String := none
  diagnostics : List Diagnostic := []
deriving DecidableEq, Repr

namespace Failure

def inputNotFound (requested : String) : Failure :=
  { reason := .inputNotFound, message := "cannot find file " ++ requested, path := some requested }

def unsupportedInput (path : String) : Failure :=
  { reason := .unsupportedInput, message := "unknown file type passed to loader: " ++ path,
    path := some path }

def glueFileRejected (path : String) : Failure :=
  { reason := .loadFailure, message := "error loading glue file " ++ path, path := some path }

def notACompilerInput (path : String) : Failure :=
  { reason := .loadFailure, message := "not a compiler input: " ++ path, path := some path }

/-- The module compiler takes plain files only. -/
def notARegularFile (path : String) : Failure :=
  { reason := .loadFailure,
    message := "cannot load input " ++ path ++ ": not a regular file", path := some path }

/-- A failure told by diagnostics. The first error is the message unless one is given, and the
other errors are the context; the path is the file of the first error. -/
def ofDiagnostics (reason : FailureReason) (diagnostics : List Diagnostic)
    (message? : Option String) : Failure :=
  let errors := diagnostics.filter Diagnostic.isError
  let (message, rest) :=
    match message?, errors with
    | some message, _ => (message, errors)
    | none, first :: rest => (first.human, rest)
    | none, [] => ("compilation failed", [])
  let context := "\n".intercalate (rest.map Diagnostic.human)
  { reason, message
    context := if context = "" then none else some context
    path := errors.head?.bind fun first => first.span.file
    diagnostics }

def compileFailure (diagnostics : List Diagnostic) : Failure :=
  ofDiagnostics .compileFailure diagnostics none

def alreadyFailed : Failure :=
  { reason := .compileFailure, message := "compilation run has already failed" }

def typeNameCollision (message : String) (path : Option String) : Failure :=
  { reason := .typeNameCollision, message, path }

def glueFailure : Failure :=
  { reason := .glueFailure, message := "glue compilation failed" }

def manifestNotWritten (path reason : String) : Failure :=
  { reason := .outputFailure, message := "cannot write manifest " ++ path ++ ": " ++ reason,
    path := some path }

def unknownType (id : String) : Failure :=
  { reason := .unknownType, message := "unknown type '" ++ id ++ "'" }

def wrongKind (id : String) : Failure :=
  { reason := .wrongKind, message := "'" ++ id ++ "' is not of expected type" }

def shownContext (failure : Failure) : List String :=
  (failure.context.filter fun context => context ≠ "").toList

def human (failure : Failure) : String :=
  "\n".intercalate
    (("[" ++ failure.reason.code ++ "] " ++ failure.message) :: failure.shownContext)

def toJson (failure : Failure) : Json :=
  .object
    [("reason_code", .string failure.reason.code),
      ("message", .string failure.message),
      ("context", .ofString? failure.context),
      ("path", .ofString? failure.path),
      ("diagnostics", .array (failure.diagnostics.map Diagnostic.toJson))]

/-- The failure's diagnostics as records, or one made from the failure if it has none. -/
def diagnosticRecords (failure : Failure) : List Json :=
  if failure.diagnostics.isEmpty then
    [.object
      [("phase", .string "driver"),
        ("message", .string failure.message),
        ("severity", .string "error"),
        ("file", .ofString? failure.path),
        ("line", .null),
        ("column", .null),
        ("notes", .array (failure.shownContext.map .string))]]
  else failure.diagnostics.map Diagnostic.toJson

end Failure

end WireModules
