import WireModules.Glue.Basic
import WireModules.Registry.Basic

/-!
# Checks of glue directives

An export has to name a recorded type, and a host name may stand for one type only. An analyzer
has to name a recorded unit type, and its ports have to be usable. All directives are checked, and
each has one defect at most.
-/

set_option autoImplicit false

namespace WireModules

inductive GlueDefect where
  | unknownExport (source : String)
  | hostNameTaken (host : String) (holder : ExportDirective)
  | unknownUnit (analyzer unit : String)
  | notAUnit (analyzer unit : String)
  | invalidPort (analyzer : String) (port : Int)

namespace GlueDefect

def message : GlueDefect → String
  | .unknownExport source =>
    "cannot export " ++ source ++ ": " ++ (Failure.unknownType source).message
  | .hostNameTaken host _ => "host name '" ++ host ++ "' exported twice"
  | .unknownUnit analyzer unit =>
    "analyzer " ++ analyzer ++ ": " ++ (Failure.unknownType unit).message
  | .notAUnit analyzer unit => "analyzer " ++ analyzer ++ ": '" ++ unit ++ "' is not a unit type"
  | .invalidPort analyzer port =>
    "analyzer " ++ analyzer ++ ": invalid port " ++ toString port

def notes : GlueDefect → List String
  | .hostNameTaken _ holder =>
    ["first exported from " ++ holder.source ++ " at " ++ holder.span.short]
  | _ => []

end GlueDefect

structure BoundAnalyzer where
  name : String
  transport : String
  unit : String
  ports : List Int
  modulePath : Option Path
deriving DecidableEq

namespace Glue

def diagnostic (message : String) (span : Span) (notes : List String) : Diagnostic :=
  { message, phase := some "glue", span, notes }

/-- The exports that hold host names, the latest first. -/
abbrev Holders := List ExportDirective

def holder? (holders : Holders) (host : String) : Option ExportDirective :=
  holders.find? fun held => held.host = host

def exportDefect? (registry : Registry) (holders : Holders) (directive : ExportDirective) :
    Option GlueDefect :=
  if !registry.contains directive.source then some (.unknownExport directive.source)
  else
    match holder? holders directive.host with
    | none => none
    | some held =>
      if held.source = directive.source then none else some (.hostNameTaken directive.host held)

def exportDefects (registry : Registry) (holders : Holders) :
    List ExportDirective → List (GlueDefect × Span)
  | [] => []
  | directive :: rest =>
    match exportDefect? registry holders directive with
    | some defect => (defect, directive.span) :: exportDefects registry holders rest
    | none => exportDefects registry (directive :: holders) rest

/-- The greatest port; zero is reserved. -/
def greatestPort : Int := 65535

def isPort (port : Int) : Bool :=
  0 < port && port ≤ greatestPort

def bind (registry : Registry) (directive : AnalyzerDirective) :
    Except GlueDefect BoundAnalyzer :=
  match registry.find? directive.unit with
  | none => .error (.unknownUnit directive.name directive.unit)
  | some info =>
    if !info.type.isOfKind .unit then .error (.notAUnit directive.name directive.unit)
    else
      match directive.ports.find? fun port => !isPort port with
      | some port => .error (.invalidPort directive.name port)
      | none => .ok ⟨directive.name, directive.transport, info.id, directive.ports, info.modulePath⟩

def analyzerDefects (registry : Registry) (analyzers : List AnalyzerDirective) :
    List (GlueDefect × Span) :=
  analyzers.filterMap fun directive =>
    match bind registry directive with
    | .error defect => some (defect, directive.span)
    | .ok _ => none

def bindings (registry : Registry) (analyzers : List AnalyzerDirective) : List BoundAnalyzer :=
  analyzers.filterMap fun directive => (bind registry directive).toOption

end Glue

end WireModules
