import WireModules.Fault
import WireModules.Module.File
import WireModules.Options
import WireModules.Program.Prelude
import WireModules.Program.Queue
import WireModules.Program.Resolve
import WireModules.Report.Log

/-!
# Compilation of a program

A compilation reads the queued modules and then every module that one of them imports, directly or
through others, and resolves all of them together. An imported module is looked for beside the
importing file and then along the search paths.

What happens is told in events: a unit was parsed, a unit was resolved, the program is finished.
Nothing that a listener does changes a compilation, so the events are found first and delivered
afterwards, and a listener that refuses an event ends the delivery there.
-/

set_option autoImplicit false

namespace WireModules

inductive CompileEvent where
  | logged (record : LogRecord)
  | parsed (unit : ProgramUnit)
  /-- A unit was resolved, as all others were. -/
  | resolved (unit : ProgramUnit)
  | finished (program : Program)

structure Loading where
  units : List ProgramUnit := []
  linkInputs : List Path := []
  events : List CompileEvent := []

/-- Why a module is loaded. The runtime support module is asked for by no file. -/
structure ImportRequest where
  name : String
  importer : Option Path := none
  position : Option Position := none

inductive ImportError where
  | notFound (request : ImportRequest)
  /-- The file found declares a module of another name. -/
  | misplaced (found : Path) (declared expected : String) (line : Nat)

def ImportError.diagnostic : ImportError → Diagnostic
  | .notFound request =>
    let file := request.importer.map toString
    { message := "cannot find module '" ++ request.name ++ "'"
      phase := some "import"
      span := request.position.elim { file } fun position => .ofPosition position file }
  | .misplaced found declared expected line =>
    { message :=
        "file " ++ toString found ++ " declares module '" ++ declared ++ "', expected '" ++
          expected ++ "'"
      phase := some "import"
      span := { file := some (toString found), line := some line } }

namespace Loading

def has (loading : Loading) (moduleId : String) : Bool :=
  loading.units.any fun unit => unit.moduleId = moduleId

def hasFile (loading : Loading) (path : Path) : Bool :=
  loading.units.any fun unit => unit.path = some path

def tell (event : CompileEvent) : Action Loading Unit :=
  modify fun loading => { loading with events := loading.events ++ [event] }

def log (text : String) : Action Loading Unit :=
  tell (.logged ⟨.debug, .compiler, text⟩)

def addUnit (unit : ProgramUnit) : Action Loading Unit := do
  modify fun loading => { loading with units := loading.units ++ [unit] }
  tell (.parsed unit)

def reject {α : Type} (diagnostics : List Diagnostic) : Action Loading α :=
  throw (.failure (.compileFailure diagnostics))

/-- Add the module in a file to the program, unless the file is in it already. -/
def addFile (files : FileSystem) (path : Path) : Action Loading (Option ProgramUnit) := do
  if (← get).hasFile path then return none
  match Module.load files path with
  | .error fault => throw fault
  | .ok (.error diagnostic) => reject [diagnostic]
  | .ok (.ok module) =>
    log ("parsed module " ++ module.name ++ " from " ++ toString path)
    let unit : ProgramUnit := ⟨module.name, some path, path.suffix, module⟩
    addUnit unit
    return some unit

def moduleExtensions : List String := [".weft", ".wir"]

/-- The places to look for an import in: the directory of the importing file goes first. -/
def importPlaces (request : ImportRequest) (searchOrder : List Place) : List Place :=
  (request.importer.map fun importer => .path importer.parent).toList ++ searchOrder

def findImport (files : FileSystem) (searchOrder : List Place) (request : ImportRequest) :
    List String → Except Fault (Option Path)
  | [] => .ok none
  | extension :: others => do
    match ← files.firstExisting (.ofString (request.name ++ extension))
        (importPlaces request searchOrder) with
    | some found => return some found
    | none => findImport files searchOrder request others

/-- Satisfy an import. A file that is loaded for it has to declare a module of the name; a file
that was loaded before is left as it is. -/
def satisfy (files : FileSystem) (searchOrder : List Place) (request : ImportRequest) :
    Action Loading Unit := do
  match findImport files searchOrder request moduleExtensions with
  | .error fault => throw fault
  | .ok none => reject [(ImportError.notFound request).diagnostic]
  | .ok (some found) =>
    match ← addFile files found.normalize with
    | none => return
    | some unit =>
      if unit.moduleId ≠ request.name then
        reject [(ImportError.misplaced found unit.moduleId request.name
          unit.module.position.line).diagnostic]

/-- Satisfy one import of a unit, unless a module of the name is in the program. -/
def satisfyImport (files : FileSystem) (searchOrder : List Place) (unit : ProgramUnit)
    (imported : Import) : Action Loading Unit := do
  if !(← get).has imported.name then
    satisfy files searchOrder ⟨imported.name, unit.path, some imported.position⟩

/-- Satisfy the imports of all units from an index on, those of units added on the way too.
`fuel` bounds the number of units. -/
def satisfyAll (files : FileSystem) (searchOrder : List Place) :
    (fuel index : Nat) → Action Loading Unit
  | 0, _ => throw .exhausted
  | fuel + 1, index => do
    match (← get).units[index]? with
    | none => return
    | some unit =>
      unit.module.imports.forM (satisfyImport files searchOrder unit)
      satisfyAll files searchOrder fuel (index + 1)

def addInput (files : FileSystem) (path : Path) : Action Loading Unit := do
  match path.inputKind? with
  | some kind =>
    if kind.isParsed then
      discard (addFile files path)
    else
      log ("passing through " ++ kind.label ++ " input " ++ toString path)
      modify fun loading => { loading with linkInputs := loading.linkInputs ++ [path] }
  | none => return

/-- More than the number of units a program can have: each unit is the prelude, the runtime
support module, an input, or a file that stands beside an input or in a search path. -/
def unitBound (files : FileSystem) (searchOrder : List Place) (inputs : List Path) : Nat :=
  (inputs.length + searchOrder.length + 1) * (files.root.size + 1) + inputs.length + 3

def readProgram (files : FileSystem) (options : Options) (queue : Queue) :
    Action Loading Unit := do
  addUnit .prelude
  if options.autoImportRuntime then
    satisfy files options.searchOrder { name := Support.runtimeId }
  queue.paths.forM (addInput files)
  satisfyAll files options.searchOrder (unitBound files options.searchOrder queue.paths) 0

end Loading

/-- A whole compilation: its events in order, and how it ends if all of them are taken. -/
structure Compilation where
  events : List CompileEvent
  outcome : Except Fault Program

namespace Compilation

def ofLoading (loading : Loading) : Compilation :=
  let resolution := Resolution.ofUnits loading.units
  let events := loading.events ++
    [.logged ⟨.debug, .compiler,
      "resolving " ++ toString loading.units.length ++ " module(s)"⟩]
  if anyError resolution.diagnostics then
    ⟨events, .error (.failure (.compileFailure resolution.diagnostics))⟩
  else
    let program : Program := ⟨resolution.units, loading.linkInputs⟩
    ⟨events ++ resolution.units.map .resolved ++ [.finished program], .ok program⟩

def ofQueue (files : FileSystem) (options : Options) (queue : Queue) : Compilation :=
  match (Loading.readProgram files options queue).run {} with
  | .error fault loading => ⟨loading.events, .error fault⟩
  | .ok _ loading => ofLoading loading

/-- Deliver the events of a compilation to a listener. If it takes all of them, the compilation
ends as it would without a listener. -/
def deliver {σ : Type} (compilation : Compilation) (react : CompileEvent → Action σ Unit) :
    Action σ Program := do
  compilation.events.forM react
  match compilation.outcome with
  | .ok program => return program
  | .error fault => throw fault

end Compilation

end WireModules
