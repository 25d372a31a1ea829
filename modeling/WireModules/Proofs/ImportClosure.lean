import Mathlib.Data.List.Basic
import WireModules.Proofs.Declarations
import WireModules.Proofs.ModuleNames
import WireModules.Proofs.ImportSearch
import WireModules.Proofs.Loading

/-!
# Imports and the modules of a program

An import is answered by a module of its name, unless the file found for it was queued and declares
another module: a queued file is taken as it is, and is not looked at again for an import.
-/

set_option autoImplicit false

namespace WireModules

namespace Loading

variable {sources : Sources} {loading : Loading} {unit : ProgramUnit}

/-- Where a unit of a program comes from. -/
inductive Provenance (sources : Sources) : ProgramUnit → Prop where
  | prelude : Provenance sources .prelude
  | input {path : Path} {module : Module} : path ∈ sources.inputs →
      Module.load sources.files path = .ok (.ok module) → Provenance sources (.inFile path module)
  | imported {request : ImportRequest} {found : Path} {module : Module} :
      Scan.isName request.name.toList = true →
      findImport sources.files sources.searchOrder request moduleExtensions = .ok (some found) →
      module.name = request.name → Provenance sources (.inFile found.normalize module)

theorem Asks.isName {request : ImportRequest} (asks : Asks loading request)
    (parsed : ∀ unit ∈ loading.units, unit.IsParsed) :
    Scan.isName request.name.toList = true := by
  cases asks with
  | runtime => decide
  | unit member inside => exact (parsed _ member).parsed.isName_import inside

theorem Steps.provenance (steps : Steps sources opening loading) :
    ∀ unit ∈ loading.units, Provenance sources unit := by
  induction steps with
  | refl =>
    intro unit member
    cases List.mem_singleton.mp member
    exact .prelude
  | tail earlier step ih =>
    cases step with
    | logged text => exact ih
    | linked queued => exact ih
    | input queued absent loaded =>
      exact List.forall_mem_append.mpr ⟨ih, List.forall_mem_singleton.mpr 
        (.input (List.mem_of_mem_filter queued) loaded)⟩
    | imported asks located absent loaded named =>
      exact List.forall_mem_append.mpr ⟨ih, List.forall_mem_singleton.mpr
        (.imported (asks.isName (Steps.isParsed earlier)) located named)⟩

/-- The file found for an import is a queued input that declares another module. -/
def Misplaced (sources : Sources) (request : ImportRequest) : Prop :=
  ∃ found module,
    findImport sources.files sources.searchOrder request moduleExtensions = .ok (some found) ∧
      found.normalize ∈ sources.inputs ∧
      Module.load sources.files found.normalize = .ok (.ok module) ∧ module.name ≠ request.name

/-- A file that is found for an import and is in the program already has the module of the import,
or is misplaced. -/
theorem named_or_misplaced {request : ImportRequest} {found : Path}
    (named : Scan.isName request.name.toList = true)
    (located : findImport sources.files sources.searchOrder request moduleExtensions =
      .ok (some found))
    (inFound : unit.path = some found.normalize) (comes : Provenance sources unit) :
    unit.moduleId = request.name ∨ Misplaced sources request := by
  cases comes with
  | prelude => cases inFound
  | @input path module queued loaded =>
    cases inFound
    by_cases same : module.name = request.name
    · exact .inl same
    · exact .inr ⟨found, module, located, queued, loaded, same⟩
  | @imported other foundOther module namedOther locatedOther sameName =>
    have samePath : foundOther.normalize = found.normalize := Option.some.inj inFound
    obtain ⟨_, listed, _, _, isFirst⟩ := exists_child_of_findImport namedOther locatedOther
    obtain ⟨_, listedToo, _, _, isSecond⟩ := exists_child_of_findImport named located
    rw [samePath, isSecond] at isFirst
    have names := congrArg Path.name isFirst
    rw [Path.name_child, Path.name_child] at names
    exact .inl (sameName.trans (eq_of_append_extension listedToo listed names).symm)

theorem named_or_misplaced_of_steps (steps : Steps sources opening loading) {imported : Import}
    (member : unit ∈ loading.units) (inside : imported ∈ unit.module.imports)
    (answered : Answered sources loading (requestOf unit imported)) :
    (∃ other ∈ loading.units, other.moduleId = imported.name) ∨
      Misplaced sources (requestOf unit imported) := by
  rcases answered with has | ⟨found, located, present⟩
  · obtain ⟨other, listed, named⟩ := List.any_eq_true.mp has
    exact .inl ⟨other, listed, of_decide_eq_true named⟩
  · obtain ⟨other, listed, inFound⟩ := List.any_eq_true.mp present
    have named := ((Steps.isParsed steps) unit member).parsed.isName_import inside
    rcases named_or_misplaced named located (of_decide_eq_true inFound)
      (Steps.provenance steps other listed) with same | misplaced
    · exact .inl ⟨other, listed, same⟩
    · exact .inr misplaced

end Loading

namespace Resolve

theorem imports_resolveUnit (scope : Scope) (graph : AliasGraph) (unit : ProgramUnit) :
    (resolveUnit scope graph unit).module.imports = unit.module.imports := by
  rw [resolveUnit_eq_mapTypes, ProgramUnit.imports_mapTypes]

end Resolve

/-- Some module of a program goes by a name. -/
def Program.Names (program : Program) (name : String) : Prop :=
  ∃ unit ∈ program.units, unit.moduleId = name

instance (program : Program) (name : String) : Decidable (program.Names name) :=
  inferInstanceAs (Decidable (∃ unit ∈ program.units, unit.moduleId = name))

/-- Every import of a compiled program names one of its modules exactly if this holds of the
imports for which a queued file is found that declares another module. -/
theorem imports_named_iff {files : FileSystem} {options : Options} {queue : Queue}
    {program : Program} (compiled : (Compilation.ofQueue files options queue).outcome = .ok program) :
    (∀ unit ∈ program.units, ∀ imported ∈ unit.module.imports, program.Names imported.name) ↔
      ∀ unit ∈ program.units, ∀ imported ∈ unit.module.imports,
        Loading.Misplaced (.ofQueue files options queue) (Loading.requestOf unit imported) →
          program.Names imported.name := by
  constructor
  · intro named unit member imported inside _
    exact named unit member imported inside
  · intro misplaced unit member imported inside
    obtain ⟨loading, read, rfl, _⟩ := Compilation.ofQueue_ok compiled
    obtain ⟨steps, answered⟩ := Loading.readProgram_ok read
    obtain ⟨source, listed, rfl⟩ := List.mem_map.mp member
    have written := inside
    rw [Resolve.imports_resolveUnit] at written
    rcases Loading.named_or_misplaced_of_steps steps listed written
      (answered source listed imported written) with ⟨other, otherListed, named⟩ | lost
    · exact ⟨_, List.mem_map_of_mem otherListed, named⟩
    · exact misplaced _ member imported inside lost

/-- Two queued files, of which the one that is called like the module imported by the other
declares some third module. -/
def misplacedFiles : FileSystem :=
  .ofEntries
    [("a.weft", .file "module a;\nimport b;\n".toUTF8.toList),
      ("b.weft", .file "module c;\n".toUTF8.toList)]

def misplacedQueue : Queue :=
  ⟨[.ofString "a.weft", .ofString "b.weft"]⟩

theorem exists_misplaced : ∃ program,
    (Compilation.ofQueue misplacedFiles .plain misplacedQueue).outcome = .ok program ∧
      ¬∀ unit ∈ program.units, ∀ imported ∈ unit.module.imports, program.Names imported.name := by
  have found : ∃ program ∈ (Compilation.ofQueue misplacedFiles .plain
      misplacedQueue).outcome.toOption, ¬∀ unit ∈ program.units, ∀ imported ∈ unit.module.imports,
        program.Names imported.name := by
    decide +kernel
  obtain ⟨program, gives, misnamed⟩ := found
  exact ⟨program, eq_ok_of_toOption gives, misnamed⟩

/-- An import of a compiled program may name none of its modules. -/
theorem imports_not_named : ¬∀ (files : FileSystem) (options : Options) (queue : Queue)
    (program : Program), (Compilation.ofQueue files options queue).outcome = .ok program →
      ∀ unit ∈ program.units, ∀ imported ∈ unit.module.imports, program.Names imported.name := by
  intro always
  obtain ⟨program, compiled, unnamed⟩ := exists_misplaced
  exact unnamed (always _ _ _ program compiled)

theorem imports_named_iff_misplaced : ∃ program,
    (Compilation.ofQueue misplacedFiles .plain misplacedQueue).outcome = .ok program ∧
      ∃ unit ∈ program.units, ∃ imported ∈ unit.module.imports,
        Loading.Misplaced (.ofQueue misplacedFiles .plain misplacedQueue)
          (Loading.requestOf unit imported) ∧ ¬program.Names imported.name := by
  obtain ⟨program, compiled, unnamed⟩ := exists_misplaced
  have lost := mt (imports_named_iff compiled).mpr unnamed
  simp only [not_forall, exists_prop] at lost
  exact ⟨program, compiled, lost⟩

end WireModules
