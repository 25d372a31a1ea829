import WireModules.Proofs.Extraction
import WireModules.Proofs.PlainReferences
import WireModules.Proofs.Resolution

/-!
# Resolution only annotates

Whatever resolution finds and whatever it reports, it leaves a program as it was written and adds to
each declared type a definition that differs from the written one in annotations alone. So a unit
gives the same records before and after, but for annotations.
-/

set_option autoImplicit false

namespace WireModules

namespace Resolve

@[simp] theorem bindNode_name (scope : Scope) (name : String) (args : List TypeRef) :
    (bindNode scope name args).1.name = name := by
  unfold bindNode
  repeat' split
  all_goals rfl

theorem erased_bindNode (scope : Scope) (name : String) (args : List TypeRef) :
    (bindNode scope name args).1.erased = { name, args := args.map TypeRef.erased } := by
  have sameName := bindNode_name scope name args
  have sameArgs := bindNode_args scope name args
  generalize (bindNode scope name args).1 = bound at sameName sameArgs
  obtain ⟨name', args', resolved, kind⟩ := bound
  cases sameName
  cases sameArgs
  exact TypeRef.erased_mk ..

/-- Binding keeps every name and argument, also where it fails. -/
theorem erased_bindRef (scope : Scope) (ref : TypeRef) :
    (bindRef scope ref).1.erased = ref.erased := by
  induction ref using TypeRef.argsInduction with
  | node name args resolved kind ih =>
    rw [bindRef_mk, erased_bindNode, TypeRef.erased_mk, List.map_map]
    congr 1
    exact List.map_congr_left ih

end Resolve

namespace TypeDef

/-- A definition as written, without what resolution adds. -/
def erased (definition : TypeDef) : TypeDef :=
  definition.replaceRefs TypeRef.erased

theorem IsPlain.erased {definition : TypeDef} (plain : definition.IsPlain) :
    definition.erased = definition := by
  rw [TypeDef.erased, replaceRefs_congr plain]
  simp [replaceRefs]

theorem erased_resolved (scope : Resolve.Scope) (graph : Resolve.AliasGraph)
    (definition : TypeDef) :
    ((Resolve.bindDefinition scope definition).replaceRefs (Resolve.annotate graph)).erased =
      definition.erased := by
  rw [erased, erased, Resolve.bindDefinition, replaceRefs_replaceRefs, replaceRefs_replaceRefs]
  simp only [Resolve.erased_annotate, Resolve.erased_bindRef]

end TypeDef

namespace ProgramUnit

theorem mapTypes_eq_self {unit : ProgramUnit} {change : TypeDecl → TypeDecl}
    (same : ∀ decl ∈ unit.module.declaredTypes, change decl = decl) :
    unit.mapTypes change = unit := by
  have decls : unit.module.decls.map (Decl.mapType change) = unit.module.decls := by
    apply (List.map_congr_left _).trans (List.map_id _)
    intro decl member
    cases decl with
    | type own => exact congrArg Decl.type (same own (List.mem_filterMap.mpr ⟨_, member, rfl⟩))
    | _ => rfl
  rw [mapTypes, decls]

/-- A unit without the definitions that resolution has added. -/
def unresolved (unit : ProgramUnit) : ProgramUnit :=
  unit.mapTypes fun decl => { decl with resolved := none }

/-- A unit is another one with a resolved definition beside each definition, from which it differs
in annotations alone. -/
structure Annotates (unit source : ProgramUnit) : Prop where
  unchanged : unit.unresolved = source
  definitions : ∀ decl ∈ unit.module.declaredTypes,
    ∃ definition, decl.resolved = some definition ∧ definition.erased = decl.definition

end ProgramUnit

/-- A record says what another one says, but for annotations in the definition and the phase. -/
structure TypeRecord.Annotates (info written : TypeRecord) : Prop where
  id : info.id = written.id
  linkage : info.linkage = written.linkage
  moduleId : info.moduleId = written.moduleId
  modulePath : info.modulePath = written.modulePath
  location : info.location = written.location
  declKind : info.declKind = written.declKind
  type : info.type.erased = written.type

namespace ProgramUnit

/-- Before and after a resolution, a unit gives one record for every type it declares, and the
records agree but for annotations. -/
def SameRecords (unit source : ProgramUnit) : Prop :=
  ∃ before after, source.records false = .ok before ∧ unit.records true = .ok after ∧
    before.map TypeRecord.id = source.typeIds ∧
    List.Forall₂ TypeRecord.Annotates after before

variable {scope : Resolve.Scope} {graph : Resolve.AliasGraph} {source : ProgramUnit}

theorem annotates_resolveUnit (parsed : source.module.IsParsed) :
    (Resolve.resolveUnit scope graph source).Annotates source := by
  rw [Resolve.resolveUnit_eq_mapTypes]
  constructor
  · rw [unresolved, mapTypes_mapTypes]
    apply mapTypes_eq_self
    intro decl member
    rw [Resolve.resolvedType, ← parsed.unresolved member]
  · rw [declaredTypes_mapTypes]
    intro decl member
    obtain ⟨written, inside, rfl⟩ := List.mem_map.mp member
    refine ⟨_, rfl, ?_⟩
    rw [TypeDef.erased_resolved, (parsed.isPlain inside).erased]
    rfl

theorem exists_record_of_asWritten (scope : Resolve.Scope) (graph : Resolve.AliasGraph)
    {decl : TypeDecl} (written : decl.AsWritten source.moduleId) (plain : decl.definition.IsPlain) :
    ∃ before after, decl.record source false = .ok before ∧
      (Resolve.resolvedType scope graph decl).record (Resolve.resolveUnit scope graph source) true =
        .ok after ∧
      before.id = qualify source.moduleId decl.name ∧ after.Annotates before := by
  have named := written.named
  refine ⟨_, _, if_pos named, if_pos named, named, ?_⟩
  refine ⟨rfl, rfl, rfl, rfl, rfl, rfl, ?_⟩
  dsimp only
  rw [TypeDef.erased_resolved, plain.erased]

theorem exists_recordsOf_of_asWritten (scope : Resolve.Scope) (graph : Resolve.AliasGraph)
    {decls : List TypeDecl}
    (written : ∀ decl ∈ decls, decl.AsWritten source.moduleId ∧ decl.definition.IsPlain) :
    ∃ before after, source.recordsOf false decls = .ok before ∧
      (Resolve.resolveUnit scope graph source).recordsOf true
        (decls.map (Resolve.resolvedType scope graph)) = .ok after ∧
      before.map TypeRecord.id = decls.map (fun decl => qualify source.moduleId decl.name) ∧
      List.Forall₂ TypeRecord.Annotates after before := by
  induction decls with
  | nil => exact ⟨[], [], rfl, rfl, rfl, .nil⟩
  | cons decl rest ih =>
    obtain ⟨own, others⟩ := List.forall_mem_cons.mp written
    obtain ⟨first, firstAfter, recorded, recordedAfter, id, annotates⟩ :=
      exists_record_of_asWritten scope graph own.1 own.2
    obtain ⟨before, after, rest, restAfter, ids, annotatesRest⟩ := ih others
    refine ⟨first :: before, firstAfter :: after, ?_, ?_, ?_, .cons annotates annotatesRest⟩
    · rw [recordsOf, recorded, rest]
      rfl
    · rw [List.map_cons, recordsOf, recordedAfter, restAfter]
      rfl
    · rw [List.map_cons, List.map_cons, id, ids]

theorem sameRecords_resolveUnit (parsed : source.module.IsParsed) (onDisk : source.path.isSome = true)
    (notInternal : source.isInternal = false) (ownName : source.moduleId = source.module.name) :
    (Resolve.resolveUnit scope graph source).SameRecords source := by
  have hasFile : source.hasNoFile = false := by
    rw [hasNoFile, Option.isNone_eq_false_iff]
    exact onDisk
  have shown : ¬(source.hasNoFile || source.isInternal) = true := by simp [hasFile, notInternal]
  have written : ∀ decl ∈ source.module.declaredTypes,
      decl.AsWritten source.moduleId ∧ decl.definition.IsPlain := fun decl member =>
    ⟨ownName ▸ parsed.asWritten member, parsed.isPlain member⟩
  obtain ⟨before, after, recorded, recordedAfter, ids, annotates⟩ :=
    exists_recordsOf_of_asWritten scope graph written
  refine ⟨before, after, ?_, ?_, ids, annotates⟩
  · rw [records, if_neg shown, recorded]
  · have resolvedTypes : (Resolve.resolveUnit scope graph source).module.declaredTypes =
        source.module.declaredTypes.map (Resolve.resolvedType scope graph) := by
      rw [Resolve.resolveUnit_eq_mapTypes, declaredTypes_mapTypes]
    rw [← resolvedTypes] at recordedAfter
    exact (if_neg shown).trans recordedAfter

end ProgramUnit

/-- Resolution leaves every unit as it was written, adding definitions that are the written ones but
for annotations, whether or not it reports anything. -/
theorem resolution_annotates (units : List ProgramUnit)
    (parsed : ∀ unit ∈ units, unit.module.IsParsed) :
    List.Forall₂ (fun source unit =>
      unit.Annotates source ∧
        (source.path.isSome = true → source.isInternal = false →
          source.moduleId = source.module.name → unit.SameRecords source))
      units (Resolution.ofUnits units).units := by
  rw [Resolution.ofUnits, List.forall₂_map_right_iff, List.forall₂_same]
  intro source member
  exact ⟨ProgramUnit.annotates_resolveUnit (parsed source member),
    ProgramUnit.sameRecords_resolveUnit (parsed source member)⟩

/-- Where resolution reports a cycle that a type argument leads into, it annotates all the same. -/
theorem tangled_resolution_annotates :
    (∀ unit ∈ [ProgramUnit.prelude, tangledUnit], unit.module.IsParsed) ∧
      (Resolution.ofUnits [ProgramUnit.prelude, tangledUnit]).diagnostics ≠ [] ∧
      ∃ unit ∈ (Resolution.ofUnits [ProgramUnit.prelude, tangledUnit]).units,
        unit.Annotates tangledUnit ∧ unit.SameRecords tangledUnit := by
  have parsed : ∀ unit ∈ [ProgramUnit.prelude, tangledUnit], unit.module.IsParsed := by
    simp [ProgramUnit.isParsed_prelude.parsed, isParsed_tangledUnit.parsed]
  refine ⟨parsed, by decide +kernel, ?_⟩
  obtain ⟨_, others, _, annotated, same⟩ := List.forall₂_cons_left_iff.mp
    (resolution_annotates [ProgramUnit.prelude, tangledUnit] parsed)
  obtain ⟨unit, _, ⟨annotates, sameRecords⟩, _, rfl⟩ := List.forall₂_cons_left_iff.mp annotated
  refine ⟨unit, ?_, annotates, sameRecords rfl (by decide) rfl⟩
  rw [same]
  exact .tail _ (.head _)

end WireModules
