import WireModules.Glue.Check
import WireModules.Glue.Coordinator
import WireModules.Source

/-!
# The glue binder

The binder is the coordinator that reads glue files when they are loaded and checks their
directives when the glue code is compiled. What goes wrong with a file or a directive is kept as a
diagnostic; only the limit on integer literals and a path that cannot be opened end a request
without an answer.
-/

set_option autoImplicit false

namespace WireModules

structure LoadedGlue where
  path : Path
  glue : GlueFile

structure GlueBinder where
  attached : Bool := false
  files : List LoadedGlue := []
  /-- The modules that were announced, in order of their first announcement. -/
  modules : List (String × Path) := []
  diagnostics : List Diagnostic := []
  bindings : List BoundAnalyzer := []
  compiled : Bool := false

namespace GlueBinder

def exports (binder : GlueBinder) : List ExportDirective :=
  binder.files.flatMap fun file => file.glue.exports

def analyzers (binder : GlueBinder) : List AnalyzerDirective :=
  binder.files.flatMap fun file => file.glue.analyzers

def hasFile (binder : GlueBinder) (path : Path) : Bool :=
  binder.files.any fun file => file.path = path

def record (text : String) : LogRecord :=
  ⟨.debug, .glue, text⟩

def errorRecord (diagnostic : Diagnostic) : LogRecord :=
  record ("glue error: " ++ diagnostic.message)

def refuse (binder : GlueBinder) (message : String) (span : Span) : Reply GlueBinder Bool :=
  let diagnostic := Glue.diagnostic message span []
  ⟨{ binder with diagnostics := binder.diagnostics ++ [diagnostic] },
    [errorRecord diagnostic], .ok false⟩

def loadRecord (path : Path) (glue : GlueFile) : LogRecord :=
  record
    ("glue file " ++ toString path ++ ": " ++ toString glue.exports.length ++ " export(s), " ++
      toString glue.analyzers.length ++ " analyzer(s)")

def accept (binder : GlueBinder) (path : Path) (text : List Char) : Reply GlueBinder Bool :=
  let file := some (toString path)
  match GlueFile.ofText text file with
  | .error (.tooLong refusal) => ⟨binder, [], .error (.tooLong refusal)⟩
  | .error (.rejected rejection) =>
    binder.refuse rejection.message
      { file
        line := some rejection.position.line
        column := some rejection.position.column }
  | .ok glue =>
    ⟨{ binder with files := binder.files ++ [⟨path, glue⟩] }, [loadRecord path glue], .ok true⟩

/-- Load a glue file; a file that is loaded already is left as it is. -/
def load (files : FileSystem) (path : Path) (binder : GlueBinder) : Reply GlueBinder Bool :=
  let path := path.normalize
  if binder.hasFile path then ⟨binder, [], .ok true⟩
  else if path.hasNull then ⟨binder, [], .error (.place .nullCharacter)⟩
  else
    match files.readSource path with
    | .error error => binder.refuse (error.message path) { file := some (toString path) }
    | .ok text => binder.accept path text

/-- Put a module's path in the place of the path it had, or at the end. -/
def putModule (moduleId : String) (path : Path) : List (String × Path) → List (String × Path)
  | [] => [(moduleId, path)]
  | first :: rest =>
    if first.1 = moduleId then (moduleId, path) :: rest else first :: putModule moduleId path rest

def announce (moduleId : String) (path : Path) (binder : GlueBinder) : Reply GlueBinder Unit :=
  ⟨{ binder with modules := putModule moduleId path binder.modules },
    [record ("glue: source module " ++ moduleId ++ " (" ++ toString path ++ ")")], .ok ()⟩

/-- The diagnostics of all directives: exports first, then analyzers. -/
def defectDiagnostics (binder : GlueBinder) (registry : Registry) : List Diagnostic :=
  (Glue.exportDefects registry [] binder.exports ++
    Glue.analyzerDefects registry binder.analyzers).map fun (defect, span) =>
      Glue.diagnostic defect.message span defect.notes

/-- Check all directives. If none has a defect, the analyzers are bound. -/
def compile (registry : Registry) (binder : GlueBinder) : Reply GlueBinder Bool :=
  if !binder.attached then ⟨binder, [], .error (.misuse .glueDetached)⟩
  else
    match binder.defectDiagnostics registry with
    | [] =>
      let bindings := Glue.bindings registry binder.analyzers
      ⟨{ binder with bindings, compiled := true },
        [record ("glue: " ++ toString bindings.length ++ " analyzer(s) bound")], .ok true⟩
    | found =>
      ⟨{ binder with diagnostics := binder.diagnostics ++ found },
        found.map errorRecord, .ok false⟩

def coordinator : Coordinator GlueBinder where
  attach binder := { binder with attached := true }
  load := load
  announce := announce
  compile := compile
  exports binder := binder.exports.map fun directive => (directive.source, directive.host)

end GlueBinder

end WireModules
