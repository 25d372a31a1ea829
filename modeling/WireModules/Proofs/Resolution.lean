import WireModules.Proofs.Declarations

/-!
# Resolution is complete or reported

Resolution of modules that stand in texts gives no diagnostic exactly if it tells the target and
the kind of every node of every reference.
-/

set_option autoImplicit false

namespace WireModules

namespace Resolve

variable {units : List ProgramUnit}

/-- Every reference of a program is bound without error. -/
def AllBound (units : List ProgramUnit) : Prop :=
  ∀ declared ∈ declarations units, ∀ ref ∈ declared.decl.definition.refs,
    (bindRef (scopeOf units declared.unit) ref).2 = []

theorem refs_boundDefinition (declared : Declared) :
    (boundDefinition units declared).refs =
      declared.decl.definition.refs.map fun ref =>
        (bindRef (scopeOf units declared.unit) ref).1 :=
  TypeDef.refs_replaceRefs _ _

theorem bindErrors_eq_nil_iff {scope : Scope} {module : String} {decl : TypeDecl}
    (written : decl.AsWritten module) :
    bindErrors scope decl = [] ↔ ∀ ref ∈ decl.definition.refs, (bindRef scope ref).2 = [] := by
  simp only [bindErrors, TypeDef.refs, written.placed, List.append_eq_nil_iff,
    List.flatMap_eq_nil_iff, List.map_eq_nil_iff, List.mem_append, List.mem_map]
  constructor
  · rintro ⟨fields, target⟩ ref (⟨typed, ⟨field, member, rfl⟩, rfl⟩ | member)
    · exact fields field member
    · exact target ref member
  · intro bound
    exact ⟨fun field member => bound _ (.inl ⟨_, ⟨field, member, rfl⟩, rfl⟩),
      fun ref member => bound ref (.inr member)⟩

/-- Every declaration is one that the text of its module can give. -/
def AllWritten (units : List ProgramUnit) : Prop :=
  ∀ declared ∈ declarations units, declared.decl.AsWritten declared.unit.moduleId

theorem allWritten_of_isParsed (parsed : ∀ unit ∈ units, unit.IsParsed) : AllWritten units := by
  intro declared member
  obtain ⟨unitMember, inside⟩ := mem_declarations_iff.mp member
  rw [(parsed _ unitMember).ownName]
  exact (parsed _ unitMember).parsed.asWritten inside

theorem nameDiagnostics_eq_nil_iff (written : AllWritten units) :
    nameDiagnostics units = [] ↔ AllBound units := by
  simp only [nameDiagnostics, List.flatMap_eq_nil_iff, List.map_eq_nil_iff]
  constructor
  · intro silent declared member
    obtain ⟨unitMember, inside⟩ := mem_declarations_iff.mp member
    exact (bindErrors_eq_nil_iff (written declared member)).mp (silent _ unitMember _ inside)
  · intro bound unit unitMember decl inside
    have member : ⟨decl, unit⟩ ∈ declarations units :=
      mem_declarations_iff.mpr ⟨unitMember, inside⟩
    exact (bindErrors_eq_nil_iff (written _ member)).mpr (bound _ member)

/-- A node is bound to a builtin type or to a declared one. -/
theorem knows_of_bindNode {unit : ProgramUnit} {name id : String} {args : List TypeRef}
    (bound : (bindNode (scopeOf units unit) name args).1.resolved = some id) :
    (aliasGraph units).Knows id := by
  rw [bindNode] at bound
  split at bound
  · next arity generic =>
    split at bound
    · cases bound
      exact .inl (.inr (by simp [generic]))
    · cases bound
  · split at bound
    · cases bound
    · split at bound
      · next scalar =>
        cases bound
        exact .inl (.inl scalar)
      · split at bound
        · next found =>
          cases bound
          obtain ⟨declared, present⟩ := lookup_of_bindName found
          have present : (aliasGraph units).table.lookup id = some declared := present
          exact .inr (by simp only [AliasGraph.declaredKind?, present, Option.map_some,
            Option.isSome_some])
        · cases bound

theorem knows_of_mem_nodes {unit : ProgramUnit} {ref node : TypeRef} {id : String}
    (inside : node ∈ (bindRef (scopeOf units unit) ref).1.nodes)
    (bound : node.resolved = some id) : (aliasGraph units).Knows id := by
  induction ref using TypeRef.argsInduction with
  | node name args resolved kind ih =>
    rw [nodes_bindRef_mk] at inside
    rcases List.mem_cons.mp inside with rfl | below
    · rw [bindRef_mk] at bound
      exact knows_of_bindNode bound
    · obtain ⟨arg, member, inside⟩ := List.mem_flatMap.mp below
      exact ih arg member inside

/-- Once all references are bound, every alias is bound to a known name. -/
theorem AllBound.complete (bound : AllBound units) (parsed : ∀ unit ∈ units, unit.IsParsed) :
    (aliasGraph units).Complete := by
  intro id isAlias
  obtain ⟨declared, found, declaredAlias⟩ := Option.map_eq_some_iff.mp isAlias
  obtain ⟨member, _⟩ := lookup_declTable found
  obtain ⟨unitMember, inside⟩ := mem_declarations_iff.mp member
  have written := (parsed _ unitMember).parsed.asWritten inside
  obtain ⟨target, hasTarget⟩ := Option.isSome_iff_exists.mp (written.aliased declaredAlias)
  have isRef : target ∈ declared.decl.definition.refs := by
    simp [TypeDef.refs, hasTarget]
  have errorFree := (bindRef_errors_eq_nil_iff _ target).mp (bound declared member target isRef)
  let scope := scopeOf units declared.unit
  have rootInside := (bindRef scope target).1.mem_nodes_self
  obtain ⟨next, resolved⟩ := Option.isSome_iff_exists.mp (errorFree _ rootInside)
  refine ⟨next, ?_, knows_of_mem_nodes rootInside resolved⟩
  have listed := lookup_targets parsed found declaredAlias
  rw [AliasGraph.target?, listed]
  have boundTarget : (boundDefinition units declared).target = some (bindRef scope target).1 := by
    simp [boundDefinition, bindDefinition, TypeDef.replaceRefs, hasTarget, scope]
  rw [boundTarget]
  exact resolved

/-- Every node is bound to something whose chain of aliases ends. -/
def AllKnown (units : List ProgramUnit) : Prop :=
  ∀ declared ∈ declarations units, ∀ ref ∈ (boundDefinition units declared).refs,
    ∀ node ∈ ref.nodes, node.resolved.isSome = true ∧
      (node.resolved.bind (aliasGraph units).finalKind).isSome = true

theorem allBound_iff :
    AllBound units ↔ ∀ declared ∈ declarations units, ∀ ref ∈ (boundDefinition units declared).refs,
      ∀ node ∈ ref.nodes, node.resolved.isSome = true := by
  simp only [AllBound, bindRef_errors_eq_nil_iff, refs_boundDefinition, List.forall_mem_map]

/-- The names that references are bound to, in the order in which their chains are walked. -/
def metIds (units : List ProgramUnit) : List String :=
  (units.flatMap (boundDefinitions units)).flatMap fun definition =>
    definition.refs.flatMap boundIds

theorem mem_metIds_iff {id : String} :
    id ∈ metIds units ↔ ∃ declared ∈ declarations units,
      ∃ ref ∈ (boundDefinition units declared).refs, ∃ node ∈ ref.nodes,
        node.resolved = some id := by
  simp only [metIds, flatMap_boundDefinitions, List.flatMap_map, List.mem_flatMap, mem_boundIds_iff]

theorem knows_of_mem_metIds {id : String} (met : id ∈ metIds units) :
    (aliasGraph units).Knows id := by
  obtain ⟨declared, _, ref, isRef, node, inside, bound⟩ := mem_metIds_iff.mp met
  rw [refs_boundDefinition] at isRef
  obtain ⟨source, _, rfl⟩ := List.mem_map.mp isRef
  exact knows_of_mem_nodes inside bound

theorem cycleDiagnostics_eq_nil_iff (bound : AllBound units)
    (parsed : ∀ unit ∈ units, unit.IsParsed) :
    cycleDiagnostics units = [] ↔
      ∀ id ∈ metIds units, ∃ kind, (aliasGraph units).finalKind id = some kind := by
  rw [cycleDiagnostics, AliasGraph.cycleDiagnostics_eq_nil_iff]
  exact AliasGraph.cycles_eq_nil_iff apart_aliasGraph (bound.complete parsed)
    fun id met => knows_of_mem_metIds met

theorem diagnostics_eq_nil_iff_allKnown (parsed : ∀ unit ∈ units, unit.IsParsed) :
    (Resolution.ofUnits units).diagnostics = [] ↔ AllKnown units := by
  rw [Resolution.ofUnits, List.append_eq_nil_iff,
    nameDiagnostics_eq_nil_iff (allWritten_of_isParsed parsed)]
  constructor
  · rintro ⟨bound, acyclic⟩ declared member ref isRef node inside
    obtain ⟨id, resolved⟩ :=
      Option.isSome_iff_exists.mp (allBound_iff.mp bound declared member ref isRef node inside)
    have met := mem_metIds_iff.mpr ⟨declared, member, ref, isRef, node, inside, resolved⟩
    obtain ⟨kind, final⟩ := (cycleDiagnostics_eq_nil_iff bound parsed).mp acyclic id met
    simp [resolved, final]
  · intro known
    have bound : AllBound units := allBound_iff.mpr fun declared member ref isRef node inside =>
      (known declared member ref isRef node inside).1
    refine ⟨bound, (cycleDiagnostics_eq_nil_iff bound parsed).mpr ?_⟩
    intro id met
    obtain ⟨declared, member, ref, isRef, node, inside, resolved⟩ := mem_metIds_iff.mp met
    have final := (known declared member ref isRef node inside).2
    rw [resolved, Option.bind_some] at final
    exact Option.isSome_iff_exists.mp final

theorem declaredTypes_resolveUnit (unit : ProgramUnit) :
    (resolveUnit (scopeOf units unit) (aliasGraph units) unit).module.declaredTypes =
      unit.module.declaredTypes.map (resolvedType (scopeOf units unit) (aliasGraph units)) := by
  rw [resolveUnit_eq_mapTypes, ProgramUnit.declaredTypes_mapTypes]

theorem AllKnown.nodes_resolved (known : AllKnown units) :
    ∀ unit ∈ (Resolution.ofUnits units).units, ∀ decl ∈ unit.module.declaredTypes,
      ∃ definition, decl.resolved = some definition ∧ ∀ ref ∈ definition.refs,
        ∀ node ∈ ref.nodes, node.resolved.isSome = true ∧ node.kind.isSome = true := by
  simp only [Resolution.ofUnits, List.forall_mem_map, declaredTypes_resolveUnit]
  intro unit unitMember decl inside
  refine ⟨_, rfl, ?_⟩
  rw [TypeDef.refs_replaceRefs]
  simp only [List.forall_mem_map, nodes_annotate, resolved_annotate, kind_annotate]
  exact known ⟨decl, unit⟩ (mem_declarations_iff.mpr ⟨unitMember, inside⟩)

end Resolve

/-- Resolution reports nothing exactly if it has told the target and the kind of every node. -/
theorem diagnostics_eq_nil_iff_nodes_resolved (units : List ProgramUnit)
    (parsed : ∀ unit ∈ units, unit.IsParsed) :
    (Resolution.ofUnits units).diagnostics = [] ↔
      ∀ unit ∈ (Resolution.ofUnits units).units, ∀ decl ∈ unit.module.declaredTypes,
        ∃ definition, decl.resolved = some definition ∧ ∀ ref ∈ definition.refs,
          ∀ node ∈ ref.nodes, node.resolved.isSome = true ∧ node.kind.isSome = true := by
  rw [Resolve.diagnostics_eq_nil_iff_allKnown parsed]
  constructor
  · exact Resolve.AllKnown.nodes_resolved
  · simp only [Resolution.ofUnits, List.forall_mem_map, Resolve.declaredTypes_resolveUnit]
    intro resolved declared member
    obtain ⟨unitMember, inside⟩ := Resolve.mem_declarations_iff.mp member
    obtain ⟨definition, same, nodes⟩ := resolved declared.unit unitMember declared.decl inside
    cases same
    rw [TypeDef.refs_replaceRefs] at nodes
    simp only [List.forall_mem_map, Resolve.nodes_annotate, Resolve.resolved_annotate,
      Resolve.kind_annotate] at nodes
    exact nodes

/-- A module in which two aliases stand for one another and a type argument is one of them. -/
def tangledUnit : ProgramUnit where
  moduleId := "m"
  path := some ⟨.relative, ["m.weft"]⟩
  extension := ".weft"
  module :=
    { name := "m"
      position := ⟨1, 1⟩
      decls :=
        [.type {
            name := "A"
            position := ⟨2, 1⟩
            linkage := .internal
            definition := { kind := .alias, name := "m::A", target := some { name := "B" } } },
          .type {
            name := "B"
            position := ⟨3, 1⟩
            linkage := .internal
            definition := { kind := .alias, name := "m::B", target := some { name := "A" } } },
          .type {
            name := "C"
            position := ⟨4, 1⟩
            linkage := .internal
            definition :=
              { kind := .struct
                name := "m::C"
                fields := [⟨"x", { name := "vector", args := [{ name := "A" }] }⟩] }
            fields := [⟨"x", { name := "vector", args := [{ name := "A" }] }, ⟨4, 19⟩⟩] }] }

/-- The text of `tangledUnit`. -/
def tangledText : String :=
  "module m;\ntype A = B;\ntype B = A;\ntype C = struct \x7b x: vector<A>; \x7d;\n"

theorem isParsed_tangledUnit : tangledUnit.IsParsed := by
  have denotes : (Module.ofText tangledText.toList).toOption = some tangledUnit.module := by
    decide +kernel
  exact ⟨rfl, Module.isParsed_of_toOption denotes⟩

/-- A cycle of aliases that a type argument leads into leaves a node without a kind. -/
theorem tangled_nodes_not_resolved :
    (∀ unit ∈ [ProgramUnit.prelude, tangledUnit], unit.IsParsed) ∧
      ¬∀ unit ∈ (Resolution.ofUnits [ProgramUnit.prelude, tangledUnit]).units,
        ∀ decl ∈ unit.module.declaredTypes,
          ∃ definition, decl.resolved = some definition ∧ ∀ ref ∈ definition.refs,
            ∀ node ∈ ref.nodes, node.resolved.isSome = true ∧ node.kind.isSome = true := by
  have parsed : ∀ unit ∈ [ProgramUnit.prelude, tangledUnit], unit.IsParsed := by
    simp [ProgramUnit.isParsed_prelude, isParsed_tangledUnit]
  have reported : (Resolution.ofUnits [ProgramUnit.prelude, tangledUnit]).diagnostics ≠ [] := by
    decide +kernel
  exact ⟨parsed, fun resolved =>
    reported ((diagnostics_eq_nil_iff_nodes_resolved _ parsed).mpr resolved)⟩

end WireModules
