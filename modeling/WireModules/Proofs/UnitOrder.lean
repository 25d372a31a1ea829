import Mathlib.Data.List.Nodup
import WireModules.Proofs.Agreement
import WireModules.Proofs.CycleReports
import WireModules.Proofs.Extraction
import WireModules.Proofs.ModuleNames
import WireModules.Proofs.QualifiedNames

/-!
# The order of the modules of a program

Where no two modules of a program go by one name, every qualified name has one declaration, and the
order of the modules decides nothing about references: all are bound alike and denote the same
kinds of types, the same names are reported, and as many cycles. Only the aliases at which cycles
are closed, and the order of reports, may differ.
-/

set_option autoImplicit false

namespace WireModules

theorem lookup_eq_some_iff_mem {α : Type} {entries : List (String × α)}
    (unique : (entries.map Prod.fst).Nodup) {key : String} {value : α} :
    entries.lookup key = some value ↔ (key, value) ∈ entries := by
  constructor
  · intro found
    obtain ⟨before, after, split, _⟩ := List.lookup_eq_some_iff.mp found
    simp [split]
  · intro member
    obtain ⟨before, after, rfl⟩ := List.append_of_mem member
    apply List.lookup_eq_some_iff.mpr
    refine ⟨before, after, rfl, ?_⟩
    intro earlier inside
    rw [List.map_append, List.nodup_append] at unique
    have differs := unique.2.2 _ (List.mem_map_of_mem inside) key (.head _)
    exact bne_iff_ne.mpr differs.symm

theorem lookup_of_perm {α : Type} {entries others : List (String × α)}
    (unique : (entries.map Prod.fst).Nodup) (reordered : entries.Perm others) (key : String) :
    entries.lookup key = others.lookup key := by
  have othersUnique := (reordered.map Prod.fst).nodup_iff.mp unique
  apply Option.ext
  intro value
  rw [lookup_eq_some_iff_mem unique, lookup_eq_some_iff_mem othersUnique]
  exact reordered.mem_iff

namespace Resolve

variable {units others : List ProgramUnit}

theorem ids_declarations : (declarations units).map Declared.id = units.flatMap ProgramUnit.typeIds := by
  rw [declarations, List.map_flatMap]
  simp only [List.map_map]
  rfl

/-- Modules of different names declare types of different names. -/
theorem nodup_ids_declarations (parsed : ∀ unit ∈ units, unit.IsParsed)
    (distinct : (units.map ProgramUnit.moduleId).Nodup) :
    ((declarations units).map Declared.id).Nodup := by
  rw [ids_declarations]
  apply List.nodup_flatMap.mpr
  constructor
  · intro unit member
    have names := (parsed unit member).parsed.nodup_names
    have ids : unit.typeIds = (unit.module.declaredTypes.map TypeDecl.name).map
        (qualify unit.moduleId) := by
      simp [ProgramUnit.typeIds]
    rw [ids]
    exact names.map fun _ _ same => name_of_qualify_eq same
  · apply (List.pairwise_map.mp distinct).imp_of_mem
    intro unit other member otherMember differs id declared otherDeclared
    obtain ⟨decl, _, rfl⟩ := List.mem_map.mp declared
    obtain ⟨otherDecl, _, same⟩ := List.mem_map.mp otherDeclared
    have sameModule := (qualify_inj (parsed other otherMember).isName
      (parsed unit member).isName).mp same
    exact differs sameModule.1.symm

theorem map_fst_aliasTargets_sublist (definitions : List TypeDef) :
    ((aliasTargets definitions).map Prod.fst).Sublist (definitions.map TypeDef.name) := by
  induction definitions with
  | nil => exact .slnil
  | cons definition rest ih =>
    rw [aliasTargets, List.filterMap_cons]
    split
    · exact .cons _ ih
    · next pair isAlias =>
      split at isAlias
      · cases isAlias
        exact .cons_cons _ ih
      · cases isAlias

/-- The same modules in some order, each under a name of its own. -/
structure Reordered (units others : List ProgramUnit) : Prop where
  perm : units.Perm others
  parsed : ∀ unit ∈ units, unit.IsParsed
  distinct : (units.map ProgramUnit.moduleId).Nodup

namespace Reordered

variable (reordered : Reordered units others)

include reordered

theorem declarations : (declarations units).Perm (declarations others) :=
  reordered.perm.flatMap_right _

theorem lookup (id : String) : (declTable units).lookup id = (declTable others).lookup id := by
  have unique := nodup_ids_declarations reordered.parsed reordered.distinct
  have table : (declTable units).Perm (declTable others) := by
    rw [declTable_eq, declTable_eq]
    apply List.Perm.map
    exact (List.reverse_perm _).trans (reordered.declarations.trans (List.reverse_perm _).symm)
  apply lookup_of_perm _ table
  rw [declTable_eq, List.map_map, List.map_reverse]
  exact List.nodup_reverse.mpr unique

theorem scope (unit : ProgramUnit) : (scopeOf units unit).Alike (scopeOf others unit) where
  moduleId := rfl
  visible := by
    have loaded : (units.any fun unit => unit.moduleId = Support.runtimeId) =
        others.any fun unit => unit.moduleId = Support.runtimeId := reordered.perm.any_eq
    simp only [scopeOf, implicitModules, loaded]
  outlines id := by
    change Option.map _ ((declTable units).lookup id) = Option.map _ ((declTable others).lookup id)
    rw [reordered.lookup]

theorem bindRef (unit : ProgramUnit) (ref : TypeRef) :
    Resolve.bindRef (scopeOf units unit) ref = Resolve.bindRef (scopeOf others unit) ref :=
  (reordered.scope unit).bindRef ref

theorem bindDefinition (unit : ProgramUnit) (definition : TypeDef) :
    Resolve.bindDefinition (scopeOf units unit) definition =
      Resolve.bindDefinition (scopeOf others unit) definition := by
  simp only [Resolve.bindDefinition, reordered.bindRef]

theorem boundDefinitions :
    (units.flatMap (boundDefinitions units)).Perm (others.flatMap (boundDefinitions others)) := by
  have same : Resolve.boundDefinitions units = Resolve.boundDefinitions others := by
    funext unit
    simp only [Resolve.boundDefinitions, reordered.bindDefinition]
  rw [same]
  exact reordered.perm.flatMap_right _

theorem graph : (aliasGraph units).Alike (aliasGraph others) where
  declared id := by
    change Option.map _ ((declTable units).lookup id) = Option.map _ ((declTable others).lookup id)
    rw [reordered.lookup]
  target id := by
    have targets : (aliasGraph units).targets.Perm (aliasGraph others).targets := by
      have written := reordered.boundDefinitions.filterMap fun definition =>
        if definition.kind = .alias then
          some (definition.name, definition.target.bind TypeRef.resolved)
        else none
      exact (List.reverse_perm _).trans (written.trans (List.reverse_perm _).symm)
    have unique : ((aliasGraph units).targets.map Prod.fst).Nodup := by
      have names : (units.flatMap (Resolve.boundDefinitions units)).map TypeDef.name =
          (Resolve.declarations units).map Declared.id := by
        rw [flatMap_boundDefinitions, List.map_map]
        exact List.map_congr_left fun _ member => name_boundDefinition reordered.parsed member
      rw [aliasGraph, List.map_reverse, List.nodup_reverse]
      apply (map_fst_aliasTargets_sublist _).nodup
      rw [names]
      exact nodup_ids_declarations reordered.parsed reordered.distinct
    simp only [AliasGraph.target?, lookup_of_perm unique targets]

theorem resolveUnit (unit : ProgramUnit) :
    Resolve.resolveUnit (scopeOf units unit) (aliasGraph units) unit =
      Resolve.resolveUnit (scopeOf others unit) (aliasGraph others) unit := by
  have annotations : annotate (aliasGraph units) = annotate (aliasGraph others) :=
    funext reordered.graph.annotate
  have decls : resolveDecl (scopeOf units unit) (aliasGraph units) =
      resolveDecl (scopeOf others unit) (aliasGraph others) := by
    funext decl
    cases decl <;> simp only [resolveDecl, reordered.bindDefinition, annotations]
  simp only [Resolve.resolveUnit, decls]

theorem nameDiagnostics : (nameDiagnostics units).Perm (nameDiagnostics others) := by
  have errors : ∀ unit, bindErrors (scopeOf units unit) = bindErrors (scopeOf others unit) := by
    intro unit
    funext decl
    simp only [bindErrors, reordered.bindRef]
  simp only [Resolve.nameDiagnostics, errors]
  exact reordered.perm.flatMap_right _

theorem length_cycleDiagnostics :
    (cycleDiagnostics units).length = (cycleDiagnostics others).length := by
  have met : (metIds units).Perm (metIds others) := reordered.boundDefinitions.flatMap_right _
  rw [Resolve.length_cycleDiagnostics, Resolve.length_cycleDiagnostics]
  exact reordered.graph.length_cycles apart_aliasGraph apart_aliasGraph fun _ => met.mem_iff

end Reordered

end Resolve

/-- The order of modules of different names decides neither how any of them is resolved, nor which
names are reported, nor how many cycles are. -/
theorem resolution_ignores_order {units others : List ProgramUnit} (perm : units.Perm others)
    (parsed : ∀ unit ∈ units, unit.IsParsed)
    (distinct : (units.map ProgramUnit.moduleId).Nodup) :
    (∃ resolve : ProgramUnit → ProgramUnit,
        (Resolution.ofUnits units).units = units.map resolve ∧
          (Resolution.ofUnits others).units = others.map resolve) ∧
      ((Resolution.ofUnits units).diagnostics.filter fun found => !found.reportsCycle).Perm
        ((Resolution.ofUnits others).diagnostics.filter fun found => !found.reportsCycle) ∧
      (Resolution.ofUnits units).diagnostics.countP Diagnostic.reportsCycle =
        (Resolution.ofUnits others).diagnostics.countP Diagnostic.reportsCycle := by
  have reordered : Resolve.Reordered units others := ⟨perm, parsed, distinct⟩
  refine ⟨?_, ?_, ?_⟩
  · let resolve : ProgramUnit → ProgramUnit := fun unit =>
      Resolve.resolveUnit (Resolve.scopeOf units unit) (Resolve.aliasGraph units) unit
    refine ⟨resolve, rfl, ?_⟩
    apply List.map_congr_left
    intro unit _
    exact (reordered.resolveUnit unit).symm
  · rw [Resolve.filter_not_reportsCycle, Resolve.filter_not_reportsCycle]
    exact reordered.nameDiagnostics
  · rw [Resolve.countP_reportsCycle, Resolve.countP_reportsCycle]
    exact reordered.length_cycleDiagnostics

/-- A module that imports another and has an alias for a type of it. -/
def borrowingUnit (name imported own borrowed : String) : ProgramUnit where
  moduleId := name
  path := some ⟨.relative, [name ++ ".weft"]⟩
  extension := ".weft"
  module :=
    { name
      position := ⟨1, 1⟩
      decls :=
        [.imported imported ⟨2, 1⟩,
          .type {
            name := own
            position := ⟨3, 1⟩
            linkage := .external
            definition :=
              { kind := .alias
                name := qualify name own
                target := some { name := qualify imported borrowed } } }] }

/-- Two modules whose aliases stand for one another. -/
def crossedUnits : List ProgramUnit :=
  [borrowingUnit "a" "b" "A" "B", borrowingUnit "b" "a" "B" "A"]

theorem isParsed_crossedUnits : ∀ unit ∈ crossedUnits, unit.IsParsed := by
  have first : (Module.ofText "module a;\nimport b;\npublic type A = b::B;\n".toList).toOption =
      some (borrowingUnit "a" "b" "A" "B").module := by
    decide +kernel
  have second : (Module.ofText "module b;\nimport a;\npublic type B = a::A;\n".toList).toOption =
      some (borrowingUnit "b" "a" "B" "A").module := by
    decide +kernel
  intro unit member
  simp only [crossedUnits, List.mem_cons, List.not_mem_nil, or_false] at member
  rcases member with rfl | rfl
  · exact ⟨rfl, Module.isParsed_of_toOption first⟩
  · exact ⟨rfl, Module.isParsed_of_toOption second⟩

/-- The one cycle of the crossed modules is closed at another alias when their order is turned
round. -/
theorem resolution_ignores_order_crossed :
    (crossedUnits.Perm crossedUnits.reverse ∧ (∀ unit ∈ crossedUnits, unit.IsParsed) ∧
        (crossedUnits.map ProgramUnit.moduleId).Nodup) ∧
      ¬(Resolution.ofUnits crossedUnits).diagnostics.Perm
        (Resolution.ofUnits crossedUnits.reverse).diagnostics ∧
      (∃ resolve : ProgramUnit → ProgramUnit,
        (Resolution.ofUnits crossedUnits).units = crossedUnits.map resolve ∧
          (Resolution.ofUnits crossedUnits.reverse).units = crossedUnits.reverse.map resolve) ∧
      (Resolution.ofUnits crossedUnits).diagnostics.countP Diagnostic.reportsCycle = 1 := by
  have distinct : (crossedUnits.map ProgramUnit.moduleId).Nodup := by decide
  have perm : crossedUnits.Perm crossedUnits.reverse := (List.reverse_perm _).symm
  have differ : ¬(Resolution.ofUnits crossedUnits).diagnostics.Perm
      (Resolution.ofUnits crossedUnits.reverse).diagnostics := by
    decide +kernel
  have one : (Resolution.ofUnits crossedUnits.reverse).diagnostics.countP
      Diagnostic.reportsCycle = 1 := by
    decide +kernel
  obtain ⟨alike, _, same⟩ := resolution_ignores_order perm isParsed_crossedUnits distinct
  exact ⟨⟨perm, isParsed_crossedUnits, distinct⟩, differ, alike, same.trans one⟩

end WireModules
