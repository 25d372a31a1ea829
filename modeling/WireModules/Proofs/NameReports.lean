import Mathlib.Data.List.Forall2
import WireModules.Proofs.Annotation
import WireModules.Proofs.BindingRules

/-!
# Reports of names

The nodes of a program come in an order: unit by unit, declaration by declaration, the references of
a declaration's fields before that of its target, and the arguments of a node before the node. In this
order resolution reports the nodes that stay unbound, each at its field, or at the declaration if it is
in the target of an alias.
-/

set_option autoImplicit false

namespace WireModules

namespace TypeRef

mutual

/-- The nodes of a reference, those of the arguments first. -/
def innerFirst : TypeRef → List TypeRef
  | ⟨name, args, resolved, kind⟩ => innerFirstOf args ++ [⟨name, args, resolved, kind⟩]

def innerFirstOf : List TypeRef → List TypeRef
  | [] => []
  | ref :: rest => ref.innerFirst ++ innerFirstOf rest

end

theorem innerFirstOf_eq_flatMap (refs : List TypeRef) :
    innerFirstOf refs = refs.flatMap innerFirst := by
  induction refs with
  | nil => rfl
  | cons ref rest ih => rw [innerFirstOf, ih, List.flatMap_cons]

theorem innerFirst_mk (name : String) (args : List TypeRef) (resolved : Option String)
    (kind : Option TypeKind) :
    innerFirst ⟨name, args, resolved, kind⟩ =
      args.flatMap innerFirst ++ [⟨name, args, resolved, kind⟩] := by
  rw [innerFirst, innerFirstOf_eq_flatMap]

theorem innerFirst_annotate (graph : Resolve.AliasGraph) (ref : TypeRef) :
    (Resolve.annotate graph ref).innerFirst = ref.innerFirst.map (Resolve.annotate graph) := by
  induction ref using argsInduction with
  | node name args resolved kind ih =>
    have inner : (args.map (Resolve.annotate graph)).flatMap innerFirst =
        (args.flatMap innerFirst).map (Resolve.annotate graph) := by
      rw [List.flatMap_map, List.map_flatMap]
      exact List.flatMap_congr ih
    rw [Resolve.annotate_mk, innerFirst_mk, innerFirst_mk, List.map_append, inner, List.map_singleton,
      Resolve.annotate_mk]

def isUnbound (ref : TypeRef) : Bool :=
  ref.resolved.isNone

end TypeRef

/-- The places of a declaration's references in order: the fields, and for a target the declaration. -/
def TypeDecl.places (decl : TypeDecl) : List Position :=
  decl.fields.map PlacedField.position ++ [decl.position]

/-- A node of a reference, the place at which it is reported, and the unit that it is in. -/
structure Site where
  unit : ProgramUnit
  position : Position
  node : TypeRef

/-- The nodes of a declaration of a resolved program. -/
def TypeDecl.sites (unit : ProgramUnit) (decl : TypeDecl) : List Site :=
  decl.resolved.toList.flatMap fun definition =>
    (definition.refs.zip decl.places).flatMap fun (ref, position) =>
      ref.innerFirst.map fun node => ⟨unit, position, node⟩

/-- All nodes of a resolved program that are not bound. -/
def unboundSites (program : List ProgramUnit) : List Site :=
  (program.flatMap fun unit => unit.module.declaredTypes.flatMap (TypeDecl.sites unit)).filter
    fun site => site.node.isUnbound

/-- A diagnostic gives the error that keeps a node from being bound. -/
def Site.ReportedBy (units : List ProgramUnit) (site : Site) (diagnostic : Diagnostic) : Prop :=
  ∃ error, Resolve.Hinders units site.unit.viewpoint site.node.name site.node.args.length error ∧
    diagnostic = error.diagnostic site.unit site.position

namespace Resolve

variable {units : List ProgramUnit} {unit : ProgramUnit}

theorem forall₂_flatMap {α β γ : Type} {related : β → γ → Prop} {items : List α}
    {first : α → List β} {second : α → List γ}
    (each : ∀ item ∈ items, List.Forall₂ related (first item) (second item)) :
    List.Forall₂ related (items.flatMap first) (items.flatMap second) := by
  induction items with
  | nil => exact .nil
  | cons item rest ih =>
    obtain ⟨own, others⟩ := List.forall_mem_cons.mp each
    exact List.rel_append own (ih others)

/-- The errors of a reference are those of its unbound nodes. -/
theorem forall₂_hinders (read : Read units unit) (ref : TypeRef) :
    List.Forall₂ (fun node error =>
        Hinders units unit.viewpoint node.name node.args.length error)
      ((bindRef (scopeOf units unit) ref).1.innerFirst.filter TypeRef.isUnbound)
      (bindRef (scopeOf units unit) ref).2 := by
  induction ref using TypeRef.argsInduction with
  | node name args resolved kind ih =>
    have inner : ((args.map fun arg => (bindRef (scopeOf units unit) arg).1).flatMap
        TypeRef.innerFirst).filter TypeRef.isUnbound = args.flatMap fun arg =>
          (bindRef (scopeOf units unit) arg).1.innerFirst.filter TypeRef.isUnbound := by
      rw [List.flatMap_map, List.filter_flatMap]
    rw [bindRef_mk]
    rcases bindNode_outcome read name (args.map fun arg => (bindRef (scopeOf units unit) arg).1) with
      ⟨own, _, bound⟩ | ⟨error, hinders, unbound⟩
    · rw [bound, TypeRef.innerFirst_mk, List.filter_append, inner]
      exact List.rel_append (forall₂_flatMap ih) .nil
    · rw [unbound, TypeRef.innerFirst_mk, List.filter_append, inner]
      exact List.rel_append (forall₂_flatMap ih) (.cons hinders .nil)

/-- The reports of a reference at a place, for a unit as it stands in the resolved program. -/
theorem forall₂_reportedBy (read : Read units unit) (graph : AliasGraph) {resolved : ProgramUnit}
    (viewpoint : resolved.viewpoint = unit.viewpoint) (file : resolved.file = unit.file)
    (ref : TypeRef) (position : Position) :
    List.Forall₂ (Site.ReportedBy units)
      (((annotate graph (bindRef (scopeOf units unit) ref).1).innerFirst.map fun node =>
        Site.mk resolved position node).filter fun site => site.node.isUnbound)
      ((bindRef (scopeOf units unit) ref).2.map fun error => error.diagnostic unit position) := by
  have unbound : ((fun site : Site => site.node.isUnbound) ∘ Site.mk resolved position) ∘
      annotate graph = TypeRef.isUnbound := by
    funext node
    simp [TypeRef.isUnbound]
  rw [TypeRef.innerFirst_annotate, List.map_map, List.filter_map, ← Function.comp_assoc, unbound,
    List.forall₂_map_left_iff, List.forall₂_map_right_iff]
  refine (forall₂_hinders read ref).imp fun node error hinders => ⟨error, ?_, ?_⟩
  · obtain ⟨name, args, _, _⟩ := node
    simpa [annotate_mk, viewpoint] using hinders
  · rw [ResolveError.diagnostic, ResolveError.diagnostic, ← file]
    rfl

/-- The references of a declaration with their places. -/
theorem zip_refs_places {module : String} {decl : TypeDecl} (written : decl.AsWritten module)
    {α : Type} (change : TypeRef → α) :
    (decl.definition.refs.map change).zip decl.places =
      decl.fields.map (fun field => (change field.ref, field.position)) ++
        decl.definition.target.toList.map fun target => (change target, decl.position) := by
  rw [TypeDef.refs, written.placed, TypeDecl.places, List.map_append, List.zip_append (by simp),
    List.map_map, List.map_map, List.zip_map']
  cases decl.definition.target <;> rfl

theorem viewpoint_resolveUnit (scope : Scope) (graph : AliasGraph) (unit : ProgramUnit) :
    (resolveUnit scope graph unit).viewpoint = unit.viewpoint := by
  rw [ProgramUnit.viewpoint, resolveUnit_eq_mapTypes, ProgramUnit.imports_mapTypes]
  rfl

/-- The reports of a declaration. -/
theorem forall₂_sites (read : Read units unit) {decl : TypeDecl}
    (member : decl ∈ unit.module.declaredTypes) :
    List.Forall₂ (Site.ReportedBy units)
      ((TypeDecl.sites (resolveUnit (scopeOf units unit) (aliasGraph units) unit)
        (resolvedType (scopeOf units unit) (aliasGraph units) decl)).filter fun site =>
          site.node.isUnbound)
      ((bindErrors (scopeOf units unit) decl).map fun (error, position) =>
        error.diagnostic unit position) := by
  have written := (read.parsed unit read.member).parsed.asWritten member
  have sites : TypeDecl.sites (resolveUnit (scopeOf units unit) (aliasGraph units) unit)
      (resolvedType (scopeOf units unit) (aliasGraph units) decl) =
        ((decl.definition.refs.map fun ref =>
          annotate (aliasGraph units) (bindRef (scopeOf units unit) ref).1).zip decl.places).flatMap
            fun (ref, position) => ref.innerFirst.map fun node =>
              ⟨resolveUnit (scopeOf units unit) (aliasGraph units) unit, position, node⟩ := by
    rw [TypeDecl.sites, resolvedType, Option.toList_some, List.flatMap_singleton,
      TypeDef.refs_replaceRefs, bindDefinition, TypeDef.refs_replaceRefs, List.map_map]
    rfl
  have reported := forall₂_reportedBy read (aliasGraph units)
    (viewpoint_resolveUnit (scopeOf units unit) (aliasGraph units) unit) rfl
  rw [sites, zip_refs_places written, bindErrors, List.flatMap_append, List.filter_append,
    List.map_append, List.flatMap_map, List.flatMap_map, List.filter_flatMap, List.filter_flatMap,
    List.map_flatMap, List.map_flatMap]
  simp only [List.map_map]
  exact List.rel_append (forall₂_flatMap fun field _ => reported field.ref field.position)
    (forall₂_flatMap fun target _ => reported target decl.position)

end Resolve

/-- Resolution keeps the units as they were written but for annotations, and binds every node of every
reference by the rules for names. What it reports besides cycles are the nodes that stay unbound, each
once and with the error that keeps it from being bound, in order. -/
theorem names_bound_by_rules (units : List ProgramUnit) (parsed : ∀ unit ∈ units, unit.IsParsed) :
    let resolution := Resolution.ofUnits units
    List.Forall₂ ProgramUnit.Annotates resolution.units units ∧
      (∀ unit ∈ resolution.units, ∀ decl ∈ unit.module.declaredTypes, ∀ definition,
        decl.resolved = some definition → ∀ ref ∈ definition.refs, ∀ node ∈ ref.nodes, ∀ target,
          node.resolved = some target ↔
            Resolve.Binds units unit.viewpoint node.name node.args.length target) ∧
      List.Forall₂ (Site.ReportedBy units) (unboundSites resolution.units)
        (resolution.diagnostics.filter fun diagnostic => !diagnostic.reportsCycle) := by
  intro resolution
  refine ⟨?_, ?_, ?_⟩
  · change List.Forall₂ _ (units.map _) units
    rw [List.forall₂_map_left_iff, List.forall₂_same]
    exact fun unit member => ProgramUnit.annotates_resolveUnit (parsed unit member).parsed
  · intro unit unitMember decl inside definition resolved
    obtain ⟨source, sourceMember, rfl⟩ := List.mem_map.mp unitMember
    rw [Resolve.declaredTypes_resolveUnit] at inside
    obtain ⟨written, _, rfl⟩ := List.mem_map.mp inside
    cases resolved
    rw [TypeDef.refs_replaceRefs, Resolve.bindDefinition, TypeDef.refs_replaceRefs,
      Resolve.viewpoint_resolveUnit]
    simp only [List.forall_mem_map, Resolve.nodes_annotate]
    rintro ref _ ⟨name, args, bound, kind⟩ within target
    have binds := Resolve.resolved_iff_binds ⟨parsed, sourceMember⟩ within target
    simpa [Resolve.annotate_mk] using binds
  · rw [Resolve.filter_not_reportsCycle, unboundSites, List.filter_flatMap, Resolve.nameDiagnostics]
    change List.Forall₂ _ ((units.map _).flatMap _) _
    rw [List.flatMap_map]
    refine Resolve.forall₂_flatMap fun unit member => ?_
    rw [Resolve.declaredTypes_resolveUnit, List.flatMap_map, List.filter_flatMap]
    exact Resolve.forall₂_flatMap fun decl inside => Resolve.forall₂_sites ⟨parsed, member⟩ inside

/-- A module with a public type and a private one. -/
def keepingUnit : ProgramUnit where
  moduleId := "lib"
  path := some ⟨.relative, ["lib.weft"]⟩
  extension := ".weft"
  module :=
    { name := "lib"
      position := ⟨1, 1⟩
      decls :=
        [.type {
            name := "Tag"
            position := ⟨2, 1⟩
            linkage := .external
            definition := { kind := .alias, name := "lib::Tag", target := some { name := "Byte" } } },
          aliasAt "lib" "Own" "Tag" 3] }

/-- A module whose own type goes before one of the prelude, and whose struct goes astray in many
ways. -/
def strayedUnit : ProgramUnit where
  moduleId := "app"
  path := some ⟨.relative, ["app.weft"]⟩
  extension := ".weft"
  module :=
    { name := "app"
      position := ⟨1, 1⟩
      decls :=
        [.imported "lib" ⟨2, 1⟩, aliasAt "app" "Port" "lib::Tag" 3,
          .type {
            name := "S"
            position := ⟨4, 1⟩
            linkage := .internal
            definition :=
              { kind := .struct
                name := "app::S"
                fields :=
                  [⟨"a", { name := "vector", args := [{ name := "far::T" }, { name := "Gone" }] }⟩,
                    ⟨"b", { name := "lib::Own" }⟩,
                    ⟨"c", { name := "bool", args := [{ name := "Port" }] }⟩] }
            fields :=
              [⟨"a", { name := "vector", args := [{ name := "far::T" }, { name := "Gone" }] }, ⟨4, 19⟩⟩,
                ⟨"b", { name := "lib::Own" }, ⟨4, 44⟩⟩,
                ⟨"c", { name := "bool", args := [{ name := "Port" }] }, ⟨4, 57⟩⟩] }] }

def strayedUnits : List ProgramUnit :=
  [.prelude, keepingUnit, strayedUnit]

theorem isParsed_strayedUnits : ∀ unit ∈ strayedUnits, unit.IsParsed := by
  have keeping : (Module.ofText
      "module lib;\npublic type Tag = Byte;\ntype Own = Tag;\n".toList).toOption =
        some keepingUnit.module := by
    decide +kernel
  have strayed : (Module.ofText
      ("module app;\nimport lib;\ntype Port = lib::Tag;\ntype S = struct \x7b" ++
        " a: vector<far::T, Gone>; b: lib::Own; c: bool<Port>; \x7d;\n").toList).toOption =
      some strayedUnit.module := by
    decide +kernel
  simp only [strayedUnits, List.forall_mem_cons, List.not_mem_nil, false_implies, implies_true,
    and_true]
  exact ⟨ProgramUnit.isParsed_prelude, ⟨rfl, Module.isParsed_of_toOption keeping⟩,
    ⟨rfl, Module.isParsed_of_toOption strayed⟩⟩

/-- Five nodes stay unbound and are reported, each for a reason of its own; a plain name within one of
them is bound to the own type and not to that of the prelude. -/
theorem names_bound_by_rules_strayed :
    (∀ unit ∈ strayedUnits, unit.IsParsed) ∧
      (unboundSites (Resolution.ofUnits strayedUnits).units).map (fun site => site.node.name) =
        ["far::T", "Gone", "vector", "lib::Own", "bool"] ∧
      ((Resolution.ofUnits strayedUnits).diagnostics.filter
        fun diagnostic => !diagnostic.reportsCycle).length = 5 ∧
      Resolve.Binds strayedUnits strayedUnit.viewpoint "Port" 0 "app::Port" := by
  let program := (Resolution.ofUnits strayedUnits).units
  obtain ⟨_, bound, reports⟩ := names_bound_by_rules strayedUnits isParsed_strayedUnits
  have unboundNames : (unboundSites program).map (fun site => site.node.name) =
      ["far::T", "Gone", "vector", "lib::Own", "bool"] := by
    decide +kernel
  have five : (unboundSites program).length = 5 := by
    rw [← List.length_map (f := fun site : Site => site.node.name), unboundNames]
    rfl
  refine ⟨isParsed_strayedUnits, unboundNames, reports.length_eq.symm.trans five, ?_⟩
  have found : anyNode program (fun unit node => unit.viewpoint = strayedUnit.viewpoint &&
      node.name = "Port" && node.args.length = 0 && node.resolved = some "app::Port") = true := by
    decide +kernel
  obtain ⟨unit, unitMember, decl, inside, definition, resolved, ref, isRef, node, within, found⟩ :=
    anyNode_eq_true_iff.mp found
  simp only [Bool.and_eq_true, decide_eq_true_eq] at found
  obtain ⟨⟨⟨viewpoint, name⟩, noArgs⟩, target⟩ := found
  rw [← viewpoint, ← name, ← noArgs]
  exact (bound unit unitMember decl inside definition resolved ref isRef node within "app::Port").mp
    target

end WireModules
