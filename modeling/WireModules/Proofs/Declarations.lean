import WireModules.Proofs.AliasCycle
import WireModules.Proofs.Binding
import WireModules.Proofs.ParsedModule

/-!
# Declarations of a program

The tables of resolution are the declarations of the program in order, last first: under each
qualified name the last declaration counts, and if it is an alias, it is bound as that declaration
is.
-/

set_option autoImplicit false

namespace WireModules

def Decl.mapType (change : TypeDecl → TypeDecl) : Decl → Decl
  | .type decl => .type (change decl)
  | decl => decl

namespace ProgramUnit

/-- The unit with every declared type changed. -/
def mapTypes (change : TypeDecl → TypeDecl) (unit : ProgramUnit) : ProgramUnit :=
  { unit with
    module := { unit.module with decls := unit.module.decls.map (Decl.mapType change) } }

variable (change : TypeDecl → TypeDecl) (unit : ProgramUnit)

@[simp] theorem moduleId_mapTypes : (unit.mapTypes change).moduleId = unit.moduleId := rfl

@[simp] theorem declaredTypes_mapTypes :
    (unit.mapTypes change).module.declaredTypes = unit.module.declaredTypes.map change := by
  simp only [mapTypes, Module.declaredTypes, List.filterMap_map, List.map_filterMap]
  apply List.filterMap_congr
  intro decl _
  cases decl <;> rfl

@[simp] theorem imports_mapTypes : (unit.mapTypes change).module.imports = unit.module.imports := by
  simp only [mapTypes, Module.imports, List.filterMap_map]
  apply List.filterMap_congr
  intro decl _
  cases decl <;> rfl

theorem mapTypes_mapTypes (later : TypeDecl → TypeDecl) :
    (unit.mapTypes change).mapTypes later = unit.mapTypes fun decl => later (change decl) := by
  simp only [mapTypes, List.map_map]
  congr 2
  apply List.map_congr_left
  intro decl _
  cases decl <;> rfl

end ProgramUnit

/-- The qualified name of a declaration. -/
def Declared.id (declared : Declared) : String :=
  qualify declared.unit.moduleId declared.decl.name

namespace Resolve

/-- A declared type with its resolved definition. -/
def resolvedType (scope : Scope) (graph : AliasGraph) (decl : TypeDecl) : TypeDecl :=
  { decl with
    resolved := some ((bindDefinition scope decl.definition).replaceRefs (annotate graph)) }

theorem resolveUnit_eq_mapTypes (scope : Scope) (graph : AliasGraph) (unit : ProgramUnit) :
    resolveUnit scope graph unit = unit.mapTypes (resolvedType scope graph) := by
  simp only [resolveUnit, ProgramUnit.mapTypes]
  congr 2

/-- All declarations of a program in order. -/
def declarations (units : List ProgramUnit) : List Declared :=
  units.flatMap fun unit => unit.module.declaredTypes.map fun decl => ⟨decl, unit⟩

/-- The definition of a declaration with every reference bound. -/
def boundDefinition (units : List ProgramUnit) (declared : Declared) : TypeDef :=
  bindDefinition (scopeOf units declared.unit) declared.decl.definition

variable {units : List ProgramUnit}

theorem mem_declarations_iff {declared : Declared} :
    declared ∈ declarations units ↔
      declared.unit ∈ units ∧ declared.decl ∈ declared.unit.module.declaredTypes := by
  obtain ⟨decl, unit⟩ := declared
  simp only [declarations, List.mem_flatMap, List.mem_map, Declared.mk.injEq]
  constructor
  · rintro ⟨unit, member, decl, inside, rfl, rfl⟩
    exact ⟨member, inside⟩
  · rintro ⟨member, inside⟩
    exact ⟨unit, member, decl, inside, rfl, rfl⟩

theorem declTable_eq :
    declTable units =
      (declarations units).reverse.map fun declared => (declared.id, declared) := by
  rw [declTable, declarations, List.map_reverse, List.map_flatMap]
  simp only [List.map_map]
  rfl

theorem flatMap_boundDefinitions :
    units.flatMap (boundDefinitions units) = (declarations units).map (boundDefinition units) := by
  rw [declarations, List.map_flatMap]
  simp only [List.map_map]
  rfl

theorem lookup_declTable {id : String} {declared : Declared}
    (found : (declTable units).lookup id = some declared) :
    declared ∈ declarations units ∧ declared.id = id := by
  rw [declTable_eq] at found
  obtain ⟨before, after, split, _⟩ := List.lookup_eq_some_iff.mp found
  have member : (id, declared) ∈ (declarations units).reverse.map fun declared =>
      (declared.id, declared) := by
    rw [split]
    simp
  obtain ⟨other, listed, same⟩ := List.mem_map.mp member
  cases same
  exact ⟨List.mem_reverse.mp listed, rfl⟩

/-- Where the first entry of a name is kept by a filter, it is the first after filtering too. -/
theorem lookup_filterMap {β γ : Type} {id : String} {entries : List β} {key : β → String}
    {keep : β → Option (String × γ)} {entry : β} {value : γ}
    (keyed : ∀ other pair, keep other = some pair → pair.1 = key other)
    (found : (entries.map fun other => (key other, other)).lookup id = some entry)
    (kept : keep entry = some (id, value)) :
    (entries.filterMap keep).lookup id = some value := by
  induction entries with
  | nil => cases found
  | cons first rest ih =>
    rw [List.map_cons, List.lookup_cons] at found
    by_cases same : id = key first
    · simp only [same, BEq.rfl, Option.some.injEq] at found
      cases found
      rw [List.filterMap_cons_some kept, List.lookup_cons_self]
    · have differs : (id == key first) = false := by simpa using same
      simp only [differs] at found
      cases keptFirst : keep first with
      | none =>
        rw [List.filterMap_cons_none keptFirst]
        exact ih found
      | some pair =>
        have differsFirst : (id == pair.1) = false := by
          rw [keyed first pair keptFirst]
          exact differs
        rw [List.filterMap_cons_some keptFirst, List.lookup_cons, differsFirst]
        exact ih found

theorem name_boundDefinition (parsed : ∀ unit ∈ units, unit.IsParsed) {declared : Declared}
    (member : declared ∈ declarations units) : (boundDefinition units declared).name = declared.id := by
  obtain ⟨unitMember, inside⟩ := mem_declarations_iff.mp member
  have unitParsed := parsed declared.unit unitMember
  rw [Declared.id, unitParsed.ownName]
  exact (unitParsed.parsed.asWritten inside).named

theorem lookup_targets (parsed : ∀ unit ∈ units, unit.IsParsed) {id : String}
    {declared : Declared} (found : (declTable units).lookup id = some declared)
    (isAlias : declared.decl.definition.kind = .alias) :
    (aliasGraph units).targets.lookup id =
      some ((boundDefinition units declared).target.bind TypeRef.resolved) := by
  obtain ⟨member, sameId⟩ := lookup_declTable found
  rw [declTable_eq] at found
  rw [aliasGraph, flatMap_boundDefinitions, aliasTargets, ← List.filterMap_reverse,
    ← List.map_reverse, List.filterMap_map]
  let keep : Declared → Option (String × Option String) := fun other =>
    if (boundDefinition units other).kind = .alias then
      some (other.id, (boundDefinition units other).target.bind TypeRef.resolved)
    else none
  have kept : (declarations units).reverse.filterMap keep =
      (declarations units).reverse.filterMap ((fun definition =>
        if definition.kind = .alias then
          some (definition.name, definition.target.bind TypeRef.resolved)
        else none) ∘ boundDefinition units) := by
    apply List.filterMap_congr
    intro other listed
    simp only [keep, Function.comp_apply, name_boundDefinition parsed (List.mem_reverse.mp listed)]
  have keyed : ∀ other pair, keep other = some pair → pair.1 = other.id := by
    intro other pair keptOther
    simp only [keep] at keptOther
    split at keptOther
    · cases keptOther
      rfl
    · cases keptOther
  have keptDeclared : keep declared =
      some (id, (boundDefinition units declared).target.bind TypeRef.resolved) := by
    have aliasBound : (boundDefinition units declared).kind = .alias := isAlias
    simp only [keep, if_pos aliasBound, sameId]
  rw [← kept]
  exact lookup_filterMap keyed found keptDeclared

theorem not_isBuiltin_qualify (module name : String) :
    ¬AliasGraph.IsBuiltin (qualify module name) := by
  have colon : ':' ∈ (qualify module name).toList := by simp [qualify, scopeSeparator]
  have scalars : ∀ scalar ∈ builtinScalars, ':' ∉ scalar.toList := by decide
  rintro (scalar | vector)
  · exact scalars _ (List.contains_iff_mem.mp scalar) colon
  · rw [genericArity?] at vector
    split at vector
    · next same =>
      rw [same] at colon
      revert colon
      decide
    · cases vector

theorem apart_aliasGraph : (aliasGraph units).Apart := by
  intro id declared
  obtain ⟨kind, found⟩ := Option.isSome_iff_exists.mp declared
  obtain ⟨entry, found, _⟩ := Option.map_eq_some_iff.mp found
  rw [← (lookup_declTable found).2]
  exact not_isBuiltin_qualify entry.unit.moduleId entry.decl.name

end Resolve

end WireModules
