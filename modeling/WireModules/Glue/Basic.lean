import WireModules.Glue.Grammar
import WireModules.Report.Diagnostic
import WireModules.Text.Decimal

/-!
# Glue files

A glue file is its exports and its analyzers, each list in the order of the text. An export
without a host name is known to the host by the name of the type.
-/

set_option autoImplicit false

namespace WireModules

structure ExportDirective where
  source : String
  host : String
  span : Span
deriving DecidableEq, Repr

structure AnalyzerDirective where
  name : String
  transport : String
  unit : String
  ports : List Int
  span : Span
deriving DecidableEq, Repr

inductive Directive where
  | exported (directive : ExportDirective)
  | analyzer (directive : AnalyzerDirective)
deriving DecidableEq, Repr

structure GlueFile where
  directives : List Directive
deriving DecidableEq, Repr

namespace GlueFile

def exports (glue : GlueFile) : List ExportDirective :=
  glue.directives.filterMap fun
    | .exported directive => some directive
    | .analyzer _ => none

def analyzers (glue : GlueFile) : List AnalyzerDirective :=
  glue.directives.filterMap fun
    | .analyzer directive => some directive
    | .exported _ => none

end GlueFile

inductive GlueError where
  | rejected (rejection : Rejection)
  | tooLong (refusal : Text.Decimal.TooLong)
deriving DecidableEq, Repr

namespace WrittenDirective

def readPorts : List String → Except Text.Decimal.TooLong (List Int)
  | [] => .ok []
  | literal :: rest => do
    let port ← Text.Decimal.read literal
    let ports ← readPorts rest
    return port :: ports

def build (file : Option String) : WrittenDirective → Except Text.Decimal.TooLong Directive
  | .exported source host extent =>
    .ok (.exported ⟨source, host.getD source, .between extent.first extent.past file⟩)
  | .analyzer name transport unit ports extent => do
    let ports ← readPorts ports
    return .analyzer
      ⟨name, transport, unit, ports, .between extent.first extent.past file⟩

def buildAll (file : Option String) :
    List WrittenDirective → Except Text.Decimal.TooLong (List Directive)
  | [] => .ok []
  | written :: rest => do
    let directive ← written.build file
    let directives ← buildAll file rest
    return directive :: directives

end WrittenDirective

/-- The glue file that a text denotes; `file` is the place that spans name. -/
def GlueFile.ofText (text : List Char) (file : Option String) : Except GlueError GlueFile :=
  match WrittenDirective.read text with
  | .error rejection => .error (.rejected rejection)
  | .ok written =>
    match WrittenDirective.buildAll file written with
    | .error refusal => .error (.tooLong refusal)
    | .ok directives => .ok ⟨directives⟩

end WireModules
