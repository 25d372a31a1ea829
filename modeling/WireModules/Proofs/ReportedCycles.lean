import Mathlib.Data.List.Nodup
import WireModules.Proofs.AliasWays
import WireModules.Proofs.UnitOrder

/-!
# One report for each cycle

Every cycle of a program's aliases is reported once, at one of its own aliases, and nothing else is
reported as a cycle: neither an alias that merely leads to one, nor a name of which a later declaration
counts.
-/

set_option autoImplicit false

namespace WireModules

namespace Resolve

open Relation

variable {units program : List ProgramUnit}

/-- A diagnostic reports a cycle through an alias, at the declaration of the alias that counts. -/
def ReportsCycle (program : List ProgramUnit) (name : String) (diagnostic : Diagnostic) : Prop :=
  ∃ declared, Counts program declared ∧ declared.id = name ∧
    diagnostic = (ResolveError.aliasCycle name).diagnostic declared.unit declared.decl.position

theorem filter_reportsCycle :
    (Resolution.ofUnits units).diagnostics.filter Diagnostic.reportsCycle = cycleDiagnostics units := by
  have dropped : ∀ diagnostic ∈ nameDiagnostics units, ¬diagnostic.reportsCycle = true := by
    intro diagnostic member
    simp [not_reportsCycle_of_nameDiagnostics diagnostic member]
  rw [Resolution.ofUnits, List.filter_append, List.filter_eq_nil_iff.mpr dropped,
    List.filter_eq_self.mpr reportsCycle_of_cycleDiagnostics, List.nil_append]

/-- The aliases at which the cycles of a program are closed. -/
def closedAliases (units : List ProgramUnit) : List String :=
  (aliasGraph units).cycles (aliasGraph units).names (metIds units)

theorem forall₂_reportsCycle :
    List.Forall₂ (ReportsCycle (Resolution.ofUnits units).units) (closedAliases units)
      (cycleDiagnostics units) := by
  have reports : ∀ names : List String,
      (∀ name ∈ names, (aliasGraph units).declaredKind? name = some .alias) →
        List.Forall₂ (ReportsCycle (Resolution.ofUnits units).units) names
          (names.filterMap (aliasGraph units).cycleDiagnostic?) := by
    intro names declared
    induction names with
    | nil => exact .nil
    | cons name rest ih =>
      obtain ⟨isAlias, others⟩ := List.forall_mem_cons.mp declared
      obtain ⟨source, counts, rfl, _⟩ := declaredKind?_eq_some_iff.mp isAlias
      have reported : (aliasGraph units).cycleDiagnostic? source.id =
          some ((ResolveError.aliasCycle source.id).diagnostic source.unit source.decl.position) :=
        congrArg (Option.map _) (counts_iff.mp counts)
      rw [List.filterMap_cons_some reported]
      refine .cons ⟨_, counts_resolution_iff.mpr ⟨source, counts, rfl⟩, rfl, rfl⟩ (ih others)
  exact reports _ fun _ => AliasGraph.declared_of_mem_cycles

/-- An alias on a cycle is what another alias of it is bound to. -/
theorem mem_metIds_of_onCycle (parsed : ∀ unit ∈ units, unit.IsParsed) {id : String}
    (cyclic : (aliasGraph units).OnCycle id) : id ∈ metIds units := by
  obtain ⟨before, _, link⟩ := TransGen.tail'_iff.mp cyclic
  obtain ⟨_, standsFor, resolved⟩ := (links_iff parsed).mp link
  obtain ⟨source, bound, counts, _, _, hasTarget, rfl⟩ := standsFor_iff.mp standsFor
  rw [resolved_annotate] at resolved
  have isRef : bound ∈ (boundDefinition units source).refs := by
    rw [TypeDef.refs, hasTarget]
    simp
  exact mem_metIds_iff.mpr ⟨source, counts.mem, bound, isRef, bound, bound.mem_nodes_self, resolved⟩

end Resolve

/-- Resolution reports each cycle of aliases once, by the name of one of its aliases; these are the
aliases that one pass with a table of kinds closes. An alias is on a cycle if its own way comes back to
it. -/
theorem cycles_reported_once (units : List ProgramUnit) (parsed : ∀ unit ∈ units, unit.IsParsed) :
    let resolution := Resolution.ofUnits units
    let leads := Resolve.LeadsTo resolution.units
    ∃ names : List String, names.Nodup ∧
      List.Forall₂ (Resolve.ReportsCycle resolution.units) names
        (resolution.diagnostics.filter Diagnostic.reportsCycle) ∧
      (∀ name ∈ names, Relation.TransGen leads name name) ∧
      (∀ id, Relation.TransGen leads id id →
        ∃! name, name ∈ names ∧ Relation.ReflTransGen leads id name) ∧
      (Resolve.KindTable.resolveKinds units {}).2.closed = names := by
  intro resolution leads
  have apart : (Resolve.aliasGraph units).Apart := Resolve.apart_aliasGraph
  have unique := Resolve.AliasGraph.nodup_orbits_cycles apart
    Resolve.AliasGraph.explored_names (Resolve.metIds units)
  have links : (Resolve.aliasGraph units).Links = leads := Resolve.links_eq parsed
  refine ⟨Resolve.closedAliases units, unique.of_map _, ?_, ?_, ?_, ?_⟩
  · rw [Resolve.filter_reportsCycle]
    exact Resolve.forall₂_reportsCycle
  · intro name member
    rw [← links]
    exact (Resolve.AliasGraph.onCycle_of_mem_cycles apart Resolve.AliasGraph.explored_names member).1
  · rw [← links]
    intro id cyclic
    have cyclic : (Resolve.aliasGraph units).OnCycle id := cyclic
    have closed := (Resolve.AliasGraph.mem_orbits_cycles_iff apart).mpr
      ⟨id, cyclic, rfl, id, Resolve.mem_metIds_of_onCycle parsed cyclic, .refl⟩
    obtain ⟨name, member, sameOrbit⟩ := List.mem_map.mp closed
    have reaches : Relation.ReflTransGen (Resolve.aliasGraph units).Links id name := by
      have own : name ∈ (Resolve.aliasGraph units).orbit name := .refl
      rw [sameOrbit] at own
      exact own
    refine ⟨name, ⟨member, reaches⟩, ?_⟩
    rintro other ⟨otherMember, otherReaches⟩
    -- Both names stand for the orbit of the alias, and no orbit is closed twice.
    refine List.inj_on_of_nodup_map unique otherMember member ?_
    rw [← cyclic.orbit_eq otherReaches, ← cyclic.orbit_eq reaches]
  · obtain ⟨table, ran, closed⟩ := Resolve.KindTable.resolveKinds_eq units
    rw [ran]
    exact closed

/-- Two aliases stand for one another in two modules, and one for itself; an alias that leads to it is
not reported. -/
theorem cycles_reported_once_winding :
    let units := windingUnits ++ crossedUnits
    let leads := Resolve.LeadsTo (Resolution.ofUnits units).units
    (∀ unit ∈ units, unit.IsParsed) ∧
      (Resolve.KindTable.resolveKinds units {}).2.closed = ["m::B", "b::B"] ∧
      ((Resolution.ofUnits units).diagnostics.filter Diagnostic.reportsCycle).length = 2 ∧
      Relation.TransGen leads "m::B" "m::B" ∧ Relation.TransGen leads "b::B" "b::B" := by
  intro units leads
  have parsed : ∀ unit ∈ units, unit.IsParsed :=
    List.forall_mem_append.mpr ⟨isParsed_windingUnits, isParsed_crossedUnits⟩
  have closed : (Resolve.KindTable.resolveKinds units {}).2.closed = ["m::B", "b::B"] := by
    decide +kernel
  obtain ⟨names, _, reports, cyclic, _, rfl⟩ := cycles_reported_once units parsed
  rw [closed] at reports cyclic
  exact ⟨parsed, closed, reports.length_eq.symm, cyclic _ (.head _), cyclic _ (.tail _ (.head _))⟩

end WireModules
