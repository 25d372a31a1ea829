import WireModules.Proofs.AliasOrbit
import WireModules.Proofs.Declarations

/-!
# What resolution reads of a program

Of a declaration that a name stands for, resolution reads who may use it, whose it is and of which
kind it is; of an alias, the name that it is bound to. Programs that agree in these respects have
their references bound alike, their chains end alike, and equally many cycles.
-/

set_option autoImplicit false

namespace WireModules

/-- What is read of a declaration that a name stands for. -/
structure Outline where
  linkage : Linkage
  owner : String
  kind : TypeKind

def Declared.outline (declared : Declared) : Outline :=
  ⟨declared.decl.linkage, declared.unit.moduleId, declared.decl.definition.kind⟩

namespace Resolve

open Relation

def outline? (table : DeclTable) (id : String) : Option Outline :=
  (table.lookup id).map Declared.outline

/-! ## Binding -/

/-- Scopes in which every name stands for a declaration of the same outline. -/
structure Scope.Alike (scope other : Scope) : Prop where
  moduleId : scope.moduleId = other.moduleId
  visible : scope.visible = other.visible
  outlines : ∀ id, outline? scope.table id = outline? other.table id

/-- The first of some qualified names that is declared, with the outline of its declaration. -/
def firstOutline? (table : DeclTable) (ids : List String) : Option (String × Outline) :=
  ids.findSome? fun id => (outline? table id).map fun outline => (id, outline)

theorem firstOutline?_eq (table : DeclTable) (ids : List String) :
    firstOutline? table ids =
      (firstDeclared? table ids).map fun found => (found.1, found.2.outline) := by
  rw [firstDeclared?, List.map_findSome?, firstOutline?]
  congr 1
  funext id
  simp [outline?, Function.comp_def]

theorem bindName_eq (scope : Scope) (name : String) :
    bindName scope name =
      match candidates scope name with
      | .error error => .error error
      | .ok ids =>
        match firstOutline? scope.table ids with
        | none => .error (.unknownType name)
        | some (id, outline) =>
          if outline.linkage = .internal ∧ outline.owner ≠ scope.moduleId then
            .error (.privateType id outline.owner)
          else .ok id := by
  rw [bindName]
  cases candidates scope name with
  | error reason => rfl
  | ok ids =>
    simp only [firstOutline?_eq]
    cases firstDeclared? scope.table ids <;> rfl

variable {scope other : Scope}

theorem Scope.Alike.candidates (alike : scope.Alike other) (name : String) :
    Resolve.candidates scope name = Resolve.candidates other name := by
  simp only [Resolve.candidates, alike.moduleId, alike.visible]

theorem Scope.Alike.bindName (alike : scope.Alike other) (name : String) :
    Resolve.bindName scope name = Resolve.bindName other name := by
  simp only [bindName_eq, firstOutline?, alike.candidates, alike.outlines, alike.moduleId]

theorem Scope.Alike.bindNode (alike : scope.Alike other) (name : String) (args : List TypeRef) :
    Resolve.bindNode scope name args = Resolve.bindNode other name args := by
  simp only [Resolve.bindNode, alike.bindName]

theorem Scope.Alike.bindRef (alike : scope.Alike other) (ref : TypeRef) :
    Resolve.bindRef scope ref = Resolve.bindRef other ref := by
  induction ref using TypeRef.argsInduction with
  | node name args resolved kind ih =>
    have boundArgs : (args.map fun arg => (Resolve.bindRef scope arg).1) =
        args.map fun arg => (Resolve.bindRef other arg).1 :=
      List.map_congr_left fun arg member => by rw [ih arg member]
    have errors : (args.flatMap fun arg => (Resolve.bindRef scope arg).2) =
        args.flatMap fun arg => (Resolve.bindRef other arg).2 :=
      List.flatMap_congr fun arg member => by rw [ih arg member]
    rw [bindRef_mk, bindRef_mk, boundArgs, errors, alike.bindNode]

/-! ## Chains of aliases -/

namespace AliasGraph

/-- Graphs in which every name has the same kind, and goes on to the same name if it is an alias. -/
structure Alike (graph other : AliasGraph) : Prop where
  declared : ∀ id, graph.declaredKind? id = other.declaredKind? id
  target : ∀ id, graph.target? id = other.target? id

variable {graph other : AliasGraph}

theorem Alike.symm (alike : graph.Alike other) : other.Alike graph where
  declared id := (alike.declared id).symm
  target id := (alike.target id).symm

theorem Alike.links (alike : graph.Alike other) : Links graph = Links other := by
  funext id next
  simp only [Links, alike.declared, alike.target]

theorem Alike.denotes {id : String} {kind : TypeKind} (alike : graph.Alike other)
    (denotes : Denotes graph id kind) : Denotes other id kind := by
  induction denotes with
  | scalar builtin => exact .scalar builtin
  | vector notScalar builtin => exact .vector notScalar builtin
  | declared notBuiltin declared notAlias =>
    exact .declared notBuiltin (alike.declared _ ▸ declared) notAlias
  | through link _ ih => exact .through (alike.links ▸ link) ih

theorem Alike.finalKind (alike : graph.Alike other) (id : String) :
    graph.finalKind id = other.finalKind id := by
  apply Option.ext
  intro kind
  rw [finalKind_eq_some_iff, finalKind_eq_some_iff]
  constructor
  · exact alike.denotes
  · exact alike.symm.denotes

theorem Alike.annotate (alike : graph.Alike other) (ref : TypeRef) :
    Resolve.annotate graph ref = Resolve.annotate other ref := by
  induction ref using TypeRef.argsInduction with
  | node name args resolved kind ih =>
    have finalKinds : graph.finalKind = other.finalKind := funext alike.finalKind
    rw [annotate_mk, annotate_mk, List.map_congr_left ih, finalKinds]

theorem Alike.orbit (alike : graph.Alike other) : graph.orbit = other.orbit := by
  funext id
  simp only [AliasGraph.orbit, alike.links]

/-- Walks from the same names close equally many cycles, whatever their order. -/
theorem Alike.length_cycles (alike : graph.Alike other) (apart : graph.Apart)
    (otherApart : other.Apart) {ids names : List String} (same : ∀ id, id ∈ ids ↔ id ∈ names) :
    (graph.cycles graph.names ids).length = (other.cycles other.names names).length := by
  have unique := nodup_orbits_cycles apart explored_names ids
  have otherUnique := nodup_orbits_cycles otherApart explored_names names
  have orbits : ((graph.cycles graph.names ids).map graph.orbit).Perm
      ((other.cycles other.names names).map other.orbit) := by
    apply (List.perm_ext_iff_of_nodup unique otherUnique).mpr
    intro cycle
    rw [mem_orbits_cycles_iff apart, mem_orbits_cycles_iff otherApart]
    simp only [OnCycle, alike.links, alike.orbit, same]
  simpa only [List.length_map] using orbits.length_eq

end AliasGraph

end Resolve

end WireModules
