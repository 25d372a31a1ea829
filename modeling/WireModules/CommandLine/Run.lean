import WireModules.CommandLine.Arguments
import WireModules.CommandLine.Manifest
import WireModules.Session.Compile
import WireModules.Session.Query

/-!
# Runs of the command line tool

A run loads all inputs, compiles them once and writes a manifest if one is asked for. Failures are
reported as text or as one JSON document; other faults end the run without a report.
-/

set_option autoImplicit false

namespace WireModules.CommandLine

def toolName : String := "weftc"

def toolVersion : String := "0.3.0"

def usage : String :=
  "usage: " ++ toolName ++ " [options] [inputs ...]\n" ++
    "options: " ++ ", ".intercalate (Switch.all.map Switch.title) ++ "\n"

/-- What a run leaves behind. `exits` tells a run that ended before its work from one that
returned a status. -/
structure Outcome where
  status : Nat
  exits : Bool := false
  output : String := ""
  errors : String := ""
  files : FileSystem

def manifestOf (program : Option Program) : Action (Session GlueBinder) Manifest := do
  let types := (← get).types
  let exports ← Session.reportExports .standard
  return {
    types
    exports
    analyzers := (← get).glue.bindings
    linkInputs := (program.map Program.linkInputs).getD [] }

def writeManifest (manifest : Manifest) (files : FileSystem) :
    Place → Action (Session GlueBinder) FileSystem
  | .nowhere => throw (.place .outputNowhere)
  | .path path => do
    if path.hasNull then throw (.place .nullCharacter)
    match files.write path manifest.content with
    | .ok files => return files
    | .error error =>
      throw (.failure (.manifestNotWritten (toString path) error.reason))

def work (arguments : Arguments) (files : FileSystem) :
    Action (Session GlueBinder) FileSystem := do
  arguments.inputs.forM fun input => discard (Session.load .standard files input none)
  let program ← Session.compile .standard files
  match arguments.output with
  | none => return files
  | some place => writeManifest (← manifestOf program) files place

def shownLog (arguments : Arguments) (session : Session GlueBinder) : String :=
  let level := if arguments.debug then LogLevel.debug else .warning
  String.join
    ((session.log.filter fun record => record.reaches level).map fun record =>
      record.line ++ "\n")

def successJson : Json :=
  .object [("exit_code", .integer 0), ("diagnostics", .array [])]

/-- The report of a failure for a program; the diagnostics of the glue follow the failure's. -/
def failureJson (failure : Failure) (glue : List Diagnostic) : Json :=
  .object
    [("exit_code", .integer 1),
      ("reason_code", .string failure.reason.code),
      ("diagnostics", .array (failure.diagnosticRecords ++ glue.map Diagnostic.toJson))]

def failureText (failure : Failure) (glue : List Diagnostic) : String :=
  toolName ++ ": error: " ++ failure.human ++ "\n" ++
    String.join (glue.map fun diagnostic => diagnostic.human ++ "\n")

def process (arguments : Arguments) (options : Options) (files : FileSystem) :
    Except Fault Outcome :=
  match (work arguments files).run (Session.start .standard options {}) with
  | .ok files session =>
    .ok {
      status := 0
      output := if arguments.json then successJson.line ++ "\n" else ""
      errors := shownLog arguments session
      files }
  | .error (.failure failure) session =>
    let log := shownLog arguments session
    let glue := session.glue.diagnostics
    .ok {
      status := 1
      output := if arguments.json then (failureJson failure glue).line ++ "\n" else ""
      errors := if arguments.json then log else log ++ failureText failure glue
      files }
  | .error fault _ => .error fault

def refuse (error : UsageError) (files : FileSystem) : Outcome where
  status := 2
  exits := true
  errors := toolName ++ ": error: " ++ error.message ++ "\n"
  files := files

def optionsOf (arguments : Arguments) (bundled : Path) (entry : Option String) : Options :=
  let given : Options :=
    { bundled, libraryPaths := arguments.libraryPaths,
      strictTypeNames := arguments.strictTypeNames }
  given.extend (entry.getD "")

def run (words : List String) (bundled : Path) (entry : Option String) (files : FileSystem) :
    Except Fault Outcome :=
  match Arguments.ofWords words with
  | .error .help => .ok { status := 0, exits := true, output := usage, files }
  | .error .version =>
    .ok { status := 0, exits := true, output := toolName ++ " " ++ toolVersion ++ "\n", files }
  | .error (.refused error) => .ok (refuse error files)
  | .ok arguments =>
    let options := optionsOf arguments bundled entry
    if arguments.printLibraryPath then
      .ok {
        status := 0
        output := String.join (options.searchOrder.map fun place => toString place ++ "\n")
        files }
    else if arguments.inputs.isEmpty then .ok (refuse .noInputs files)
    else process arguments options files

end WireModules.CommandLine
