import Mathlib.Data.List.Basic
import WireModules.Program.Resolve

/-!
# Nodes of references

A reference and, at every depth, its arguments are its nodes. Binding and annotating a reference
work node by node: an error stands for exactly one node that stays unbound.
-/

set_option autoImplicit false

namespace WireModules

namespace TypeRef

mutual

/-- The reference itself and the nodes of its arguments. -/
def nodes : TypeRef → List TypeRef
  | ⟨name, args, resolved, kind⟩ => ⟨name, args, resolved, kind⟩ :: nodesOf args

def nodesOf : List TypeRef → List TypeRef
  | [] => []
  | ref :: rest => ref.nodes ++ nodesOf rest

end

/-- What holds of a reference whenever it holds of its arguments holds of all references. -/
theorem argsInduction {motive : TypeRef → Prop}
    (node : ∀ name args resolved kind, (∀ arg ∈ args, motive arg) →
      motive ⟨name, args, resolved, kind⟩) (ref : TypeRef) : motive ref := by
  refine @TypeRef.rec motive (fun args => ∀ arg ∈ args, motive arg) ?_ ?_ ?_ ref
  · intro name args resolved kind args_hold
    exact node name args resolved kind args_hold
  · simp
  · intro arg rest first others other member
    rcases List.mem_cons.mp member with rfl | later
    · exact first
    · exact others other later

theorem nodesOf_eq_flatMap (refs : List TypeRef) : nodesOf refs = refs.flatMap nodes := by
  induction refs with
  | nil => rfl
  | cons ref rest ih => rw [nodesOf, ih, List.flatMap_cons]

theorem nodes_mk (name : String) (args : List TypeRef) (resolved : Option String)
    (kind : Option TypeKind) :
    nodes ⟨name, args, resolved, kind⟩ = ⟨name, args, resolved, kind⟩ :: args.flatMap nodes := by
  rw [nodes, nodesOf_eq_flatMap]

theorem forall_mem_nodes_mk {name : String} {args : List TypeRef} {resolved : Option String}
    {kind : Option TypeKind} {holds : TypeRef → Prop} :
    (∀ node ∈ nodes ⟨name, args, resolved, kind⟩, holds node) ↔
      holds ⟨name, args, resolved, kind⟩ ∧ ∀ arg ∈ args, ∀ node ∈ arg.nodes, holds node := by
  rw [nodes_mk, List.forall_mem_cons, List.forall_mem_flatMap]

theorem mem_nodes_self (ref : TypeRef) : ref ∈ ref.nodes := by
  cases ref
  rw [nodes_mk]
  exact .head _

end TypeRef

namespace Resolve

theorem bindRefs_eq (scope : Scope) (refs : List TypeRef) :
    bindRefs scope refs =
      (refs.map fun ref => (bindRef scope ref).1, refs.flatMap fun ref => (bindRef scope ref).2) := by
  induction refs with
  | nil => rfl
  | cons ref rest ih => rw [bindRefs, ih]; rfl

theorem bindRef_mk (scope : Scope) (name : String) (args : List TypeRef)
    (resolved : Option String) (kind : Option TypeKind) :
    bindRef scope ⟨name, args, resolved, kind⟩ =
      ((bindNode scope name (args.map fun arg => (bindRef scope arg).1)).1,
        (args.flatMap fun arg => (bindRef scope arg).2) ++
          (bindNode scope name (args.map fun arg => (bindRef scope arg).1)).2) := by
  rw [bindRef, bindRefs_eq]

theorem annotateAll_eq_map (graph : AliasGraph) (refs : List TypeRef) :
    annotateAll graph refs = refs.map (annotate graph) := by
  induction refs with
  | nil => rfl
  | cons ref rest ih => rw [annotateAll, ih, List.map_cons]

theorem annotate_mk (graph : AliasGraph) (name : String) (args : List TypeRef)
    (resolved : Option String) (kind : Option TypeKind) :
    annotate graph ⟨name, args, resolved, kind⟩ =
      { name, args := args.map (annotate graph), resolved
        kind := resolved.bind graph.finalKind } := by
  rw [annotate, annotateAll_eq_map]

theorem boundIdsOf_eq_flatMap (refs : List TypeRef) :
    boundIdsOf refs = refs.flatMap boundIds := by
  induction refs with
  | nil => rfl
  | cons ref rest ih => rw [boundIdsOf, ih, List.flatMap_cons]

theorem boundIds_mk (name : String) (args : List TypeRef) (resolved : Option String)
    (kind : Option TypeKind) :
    boundIds ⟨name, args, resolved, kind⟩ = args.flatMap boundIds ++ resolved.toList := by
  rw [boundIds, boundIdsOf_eq_flatMap]

theorem mem_boundIds_iff {id : String} (ref : TypeRef) :
    id ∈ boundIds ref ↔ ∃ node ∈ ref.nodes, node.resolved = some id := by
  induction ref using TypeRef.argsInduction with
  | node name args resolved kind ih =>
    rw [boundIds_mk, TypeRef.nodes_mk]
    simp only [List.mem_append, List.mem_flatMap, Option.mem_toList, List.mem_cons,
      exists_eq_or_imp]
    constructor
    · rintro (⟨arg, member, bound⟩ | own)
      · obtain ⟨node, inside, resolved⟩ := (ih arg member).mp bound
        exact .inr ⟨node, ⟨arg, member, inside⟩, resolved⟩
      · exact .inl own
    · rintro (own | ⟨node, ⟨arg, member, inside⟩, resolved⟩)
      · exact .inr own
      · exact .inl ⟨arg, member, (ih arg member).mpr ⟨node, inside, resolved⟩⟩

/-- Annotating works node by node. -/
theorem nodes_annotate (graph : AliasGraph) (ref : TypeRef) :
    (annotate graph ref).nodes = ref.nodes.map (annotate graph) := by
  induction ref using TypeRef.argsInduction with
  | node name args resolved kind ih =>
    have inner : (args.map (annotate graph)).flatMap TypeRef.nodes =
        (args.flatMap TypeRef.nodes).map (annotate graph) := by
      rw [List.flatMap_map, List.map_flatMap]
      exact List.flatMap_congr ih
    rw [annotate_mk, TypeRef.nodes_mk, TypeRef.nodes_mk, List.map_cons, annotate_mk, inner]

@[simp] theorem resolved_annotate (graph : AliasGraph) (ref : TypeRef) :
    (annotate graph ref).resolved = ref.resolved := by
  cases ref
  rw [annotate_mk]

@[simp] theorem kind_annotate (graph : AliasGraph) (ref : TypeRef) :
    (annotate graph ref).kind = ref.resolved.bind graph.finalKind := by
  cases ref
  rw [annotate_mk]

/-- A name is bound to one of its candidates, which is declared and not kept from the module. -/
theorem exists_of_bindName {scope : Scope} {name id : String}
    (bound : bindName scope name = .ok id) :
    ∃ ids declared, candidates scope name = .ok ids ∧ id ∈ ids ∧
      scope.table.lookup id = some declared ∧
      ¬(declared.decl.linkage = .internal ∧ declared.unit.moduleId ≠ scope.moduleId) := by
  rw [bindName] at bound
  split at bound
  · cases bound
  · next ids listed =>
    split at bound
    · cases bound
    · next first =>
      split at bound
      · cases bound
      · next permitted =>
        cases bound
        obtain ⟨_, member, lookedUp⟩ := List.exists_of_findSome?_eq_some first
        obtain ⟨_, present, same⟩ := Option.map_eq_some_iff.mp lookedUp
        cases same
        exact ⟨ids, _, listed, member, present, permitted⟩

theorem lookup_of_bindName {scope : Scope} {name id : String}
    (bound : bindName scope name = .ok id) : ∃ declared, scope.table.lookup id = some declared := by
  obtain ⟨_, declared, _, _, found, _⟩ := exists_of_bindName bound
  exact ⟨declared, found⟩

theorem bindNode_args (scope : Scope) (name : String) (args : List TypeRef) :
    (bindNode scope name args).1.args = args := by
  unfold bindNode
  repeat' split
  all_goals simp_all

/-- A node gets an error exactly if it stays unbound. -/
theorem bindNode_errors_eq_nil_iff (scope : Scope) (name : String) (args : List TypeRef) :
    (bindNode scope name args).2 = [] ↔ (bindNode scope name args).1.resolved.isSome = true := by
  unfold bindNode
  repeat' split
  all_goals simp

theorem nodes_bindRef_mk (scope : Scope) (name : String) (args : List TypeRef)
    (resolved : Option String) (kind : Option TypeKind) :
    (bindRef scope ⟨name, args, resolved, kind⟩).1.nodes =
      (bindRef scope ⟨name, args, resolved, kind⟩).1 ::
        args.flatMap fun arg => (bindRef scope arg).1.nodes := by
  rw [bindRef_mk]
  have args_eq := bindNode_args scope name (args.map fun arg => (bindRef scope arg).1)
  generalize (bindNode scope name (args.map fun arg => (bindRef scope arg).1)).1 = bound at args_eq
  obtain ⟨name, args', resolved, kind⟩ := bound
  cases args_eq
  rw [TypeRef.nodes_mk, List.flatMap_map]

/-- Binding a reference gives no error exactly if it binds all nodes. -/
theorem bindRef_errors_eq_nil_iff (scope : Scope) (ref : TypeRef) :
    (bindRef scope ref).2 = [] ↔
      ∀ node ∈ (bindRef scope ref).1.nodes, node.resolved.isSome = true := by
  induction ref using TypeRef.argsInduction with
  | node name args resolved kind ih =>
    rw [nodes_bindRef_mk, bindRef_mk]
    simp only [List.append_eq_nil_iff, List.flatMap_eq_nil_iff, List.mem_cons, List.mem_flatMap,
      forall_eq_or_imp, bindNode_errors_eq_nil_iff]
    constructor
    · rintro ⟨argsBound, own⟩
      refine ⟨own, ?_⟩
      rintro node ⟨arg, member, inside⟩
      exact (ih arg member).mp (argsBound arg member) node inside
    · rintro ⟨own, inner⟩
      exact ⟨fun arg member => (ih arg member).mpr fun node inside =>
        inner node ⟨arg, member, inside⟩, own⟩

end Resolve

end WireModules
