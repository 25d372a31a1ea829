import WireModules.Session.Basic

/-!
# Questions to a session

What a session knows of types and of their exports to the host. Exports that glue files ask for
come first, then the public enums; an enum is given by its present record, or by the record with
which it was listed if there is no other.
-/

set_option autoImplicit false

namespace WireModules.Session

variable {γ : Type}

/-- The record of a type, which is of a given kind if one is given. -/
def lookup (session : Session γ) (id : String) (kind : Option TypeKind) :
    Except Failure TypeRecord :=
  session.registry.lookup id kind

def types (session : Session γ) : List TypeRecord :=
  session.registry.types

def requestedExports (environment : Environment γ) (session : Session γ) :
    List (String × String) :=
  environment.coordinator.exports session.glue

def exportedRecords (environment : Environment γ) (session : Session γ) : List TypeRecord :=
  session.registry.exportedTypes ((session.requestedExports environment).map Prod.fst)

def listedEnums (session : Session γ) : List TypeRecord :=
  session.registry.listedEnums

def firstOfEach (seen : List String) : List TypeRecord → List TypeRecord
  | [] => []
  | info :: rest =>
    if seen.contains info.id then firstOfEach seen rest
    else info :: firstOfEach (info.id :: seen) rest

def automaticExports (session : Session γ) : List (TypeRecord × String) :=
  (firstOfEach [] session.listedEnums).map fun listed =>
    ((session.registry.find? listed.id).getD listed, listed.id)

def recordedExports (environment : Environment γ) (session : Session γ) :
    List (TypeRecord × String) :=
  (session.requestedExports environment).filterMap fun (id, host) =>
    (session.registry.find? id).map fun info => (info, host)

def unknownExportRecords (environment : Environment γ) (session : Session γ) : List LogRecord :=
  (session.requestedExports environment).filterMap fun (id, _) =>
    if session.registry.contains id then none
    else some ⟨.error, .session, "unknown type '" ++ id ++ "' exported"⟩

def exports (environment : Environment γ) (session : Session γ) : List (TypeRecord × String) :=
  session.recordedExports environment ++ session.automaticExports

def reportExports (environment : Environment γ) :
    Action (Session γ) (List (TypeRecord × String)) := do
  let session ← get
  emitLog (session.unknownExportRecords environment)
  return session.exports environment

end WireModules.Session
