import WireModules.Proofs.CountingDeclarations
import WireModules.Proofs.Grounding
import WireModules.Proofs.KindTable

/-!
# Ways along the aliases of a resolved program

A resolved program tells by itself where its aliases lead: to what the target of the declaration that
counts is bound to. The kind that resolution tells of a reference is the one found by going this way
from what the reference is bound to; it has none exactly if the way comes to an alias without a bound
target or comes back to itself.
-/

set_option autoImplicit false

namespace WireModules

namespace Resolve

open Relation

/-! ## Chains that do not end -/

namespace AliasGraph

variable {graph : AliasGraph} {id : String}

/-- The chain from a name comes to an alias that is not bound or on a cycle. -/
def Blocked (graph : AliasGraph) (id : String) : Prop :=
  ∃ last, ReflTransGen (Links graph) id last ∧ graph.declaredKind? last = some .alias ∧
    (graph.target? last = none ∨ graph.OnCycle last)

theorem Blocked.of_links {next : String} (link : Links graph id next) (blocked : graph.Blocked next) :
    graph.Blocked id := by
  obtain ⟨last, reaches, stops⟩ := blocked
  exact ⟨last, .head link reaches, stops⟩

theorem Denotes.of_reaches {last : String} {kind : TypeKind} (denotes : Denotes graph id kind)
    (reaches : ReflTransGen (Links graph) id last) : Denotes graph last kind := by
  induction reaches with
  | refl => exact denotes
  | tail _ link ih => exact ih.of_links link

theorem blocked_of_follow_eq_none (apart : graph.Apart)
    (knows : ∀ id next, Links graph id next → graph.Knows next) {unvisited way : List String}
    (known : graph.Knows id) (wayTo : graph.WayTo way id)
    (visited : ∀ other, graph.declaredKind? other = some .alias → other ∉ unvisited → other ∈ way)
    (lost : graph.follow unvisited id = none) : graph.Blocked id := by
  induction unvisited, id using follow.induct graph generalizing way with
  | case1 unvisited id scalar =>
    rw [follow, if_pos scalar] at lost
    cases lost
  | case2 unvisited id notScalar vector =>
    rw [follow, if_neg notScalar, if_pos vector] at lost
    cases lost
  | case3 unvisited id notScalar notVector isAlias fresh next target ih =>
    rw [follow, if_neg notScalar, if_neg notVector] at lost
    simp only [isAlias, dif_pos fresh, target] at lost
    have link : Links graph id next := apart.links isAlias target
    refine .of_links link (ih (knows id next link) (.cons wayTo link) ?_ lost)
    intro other otherAlias left
    by_cases same : other = id
    · exact same ▸ .head _
    · exact .tail _ (visited other otherAlias fun remains => left (mem_without.mpr ⟨remains, same⟩))
  | case4 unvisited id notScalar notVector isAlias fresh unbound =>
    exact ⟨id, .refl, isAlias, .inl unbound⟩
  | case5 unvisited id notScalar notVector isAlias left =>
    exact ⟨id, .refl, isAlias, .inr (wayTo.leads (visited id isAlias left))⟩
  | case6 unvisited id notScalar notVector notAlias =>
    rw [follow, if_neg notScalar, if_neg notVector] at lost
    have declared : (graph.declaredKind? id).isSome = true :=
      known.resolve_left (not_or.mpr ⟨notScalar, notVector⟩)
    have undeclared : graph.declaredKind? id = none := by
      split at lost
      · next isAlias => exact absurd isAlias notAlias
      · exact lost
    rw [undeclared] at declared
    cases declared

/-- A known name has no kind exactly if its chain does not end. -/
theorem finalKind_eq_none_iff (apart : graph.Apart)
    (knows : ∀ id next, Links graph id next → graph.Knows next) (known : graph.Knows id) :
    graph.finalKind id = none ↔ graph.Blocked id := by
  constructor
  · refine blocked_of_follow_eq_none apart knows known .nil ?_
    exact fun other isAlias unnamed => absurd (mem_names_of_declaredKind? isAlias) unnamed
  · rintro ⟨last, reaches, isAlias, stops⟩
    rw [Option.eq_none_iff_forall_ne_some]
    intro kind found
    have denotes := (finalKind_eq_some_iff.mp found).of_reaches reaches
    rcases stops with unbound | cyclic
    · have final := finalKind_eq_some_iff.mpr denotes
      rw [finalKind_of_target_eq_none apart isAlias unbound] at final
      cases final
    · exact denotes.not_cyclic cyclic

end AliasGraph

/-! ## Aliases of a resolved program -/

variable {units program : List ProgramUnit} {id : String}

/-- The declaration that counts under a name is an alias for a type. -/
def StandsFor (program : List ProgramUnit) (id : String) (target : TypeRef) : Prop :=
  ∃ declared definition, Counts program declared ∧ declared.id = id ∧
    declared.decl.resolved = some definition ∧ definition.kind = .alias ∧
    definition.target = some target

/-- An alias leads to what its target is bound to. -/
def LeadsTo (program : List ProgramUnit) (id next : String) : Prop :=
  ∃ target, StandsFor program id target ∧ target.resolved = some next

/-- The way along aliases from a name ends at a type of a kind. -/
inductive EndsAt (program : List ProgramUnit) : String → TypeKind → Prop where
  | scalar {id : String} : isBuiltinScalar id = true → EndsAt program id .scalar
  | vector {id : String} : (genericArity? id).isSome = true → EndsAt program id .vector
  | declared {declared : Declared} : Counts program declared →
      declared.decl.definition.kind ≠ .alias →
      EndsAt program declared.id declared.decl.definition.kind
  | through {id next : String} {kind : TypeKind} : LeadsTo program id next →
      EndsAt program next kind → EndsAt program id kind

/-- The way along aliases from a name comes to an alias whose target is not bound, or to one that it
comes back to. -/
def NeverEnds (program : List ProgramUnit) (id : String) : Prop :=
  ∃ last target, ReflTransGen (LeadsTo program) id last ∧ StandsFor program last target ∧
    (target.resolved = none ∨ TransGen (LeadsTo program) last last)

theorem standsFor_iff {target : TypeRef} :
    StandsFor (Resolution.ofUnits units).units id target ↔
      ∃ source bound, Counts units source ∧ source.id = id ∧
        source.decl.definition.kind = .alias ∧ (boundDefinition units source).target = some bound ∧
        annotate (aliasGraph units) bound = target := by
  constructor
  · rintro ⟨_, definition, counts, same, resolved, isAlias, hasTarget⟩
    obtain ⟨source, sourceCounts, rfl⟩ := counts_resolution_iff.mp counts
    cases resolved
    obtain ⟨bound, hasBound, annotated⟩ := Option.map_eq_some_iff.mp hasTarget
    exact ⟨source, bound, sourceCounts, same, isAlias, hasBound, annotated⟩
  · rintro ⟨source, bound, counts, same, isAlias, hasBound, annotated⟩
    refine ⟨resolvedDeclared units source, _, counts_resolution_iff.mpr ⟨source, counts, rfl⟩, same,
      rfl, isAlias, ?_⟩
    exact Option.map_eq_some_iff.mpr ⟨bound, hasBound, annotated⟩

theorem declaredKind?_eq_some_iff {kind : TypeKind} :
    (aliasGraph units).declaredKind? id = some kind ↔
      ∃ source, Counts units source ∧ source.id = id ∧ source.decl.definition.kind = kind := by
  rw [AliasGraph.declaredKind?, Option.map_eq_some_iff]
  exact exists_congr fun source =>
    (and_congr_left' lookup_declTable_iff).trans and_assoc

/-- The target of an alias is what its declaration is bound to. -/
theorem target?_of_counts (parsed : ∀ unit ∈ units, unit.IsParsed) {source : Declared}
    (counts : Counts units source) (isAlias : source.decl.definition.kind = .alias) :
    (aliasGraph units).target? source.id =
      (boundDefinition units source).target.bind TypeRef.resolved := by
  rw [AliasGraph.target?, lookup_targets parsed (counts_iff.mp counts) isAlias, Option.join_some]

theorem not_isBuiltin_id (source : Declared) : ¬AliasGraph.IsBuiltin source.id :=
  not_isBuiltin_qualify source.unit.moduleId source.decl.name

/-- The graph of aliases has the aliases of the resolved program, with what they are bound to. -/
theorem aliases_iff (parsed : ∀ unit ∈ units, unit.IsParsed) {bound : Option String} :
    (aliasGraph units).declaredKind? id = some .alias ∧ (aliasGraph units).target? id = bound ↔
      ∃ target, StandsFor (Resolution.ofUnits units).units id target ∧ target.resolved = bound := by
  constructor
  · rintro ⟨declared, rfl⟩
    obtain ⟨source, counts, rfl, isAlias⟩ := declaredKind?_eq_some_iff.mp declared
    obtain ⟨written, hasTarget⟩ := Option.isSome_iff_exists.mp
      ((grounded_of_isParsed parsed).targets source counts.mem isAlias)
    refine ⟨_, standsFor_iff.mpr ⟨source, written, counts, rfl, isAlias, hasTarget, rfl⟩, ?_⟩
    rw [target?_of_counts parsed counts isAlias, hasTarget, Option.bind_some, resolved_annotate]
  · rintro ⟨_, standsFor, rfl⟩
    obtain ⟨source, written, counts, rfl, isAlias, hasTarget, rfl⟩ := standsFor_iff.mp standsFor
    refine ⟨declaredKind?_eq_some_iff.mpr ⟨source, counts, rfl, isAlias⟩, ?_⟩
    rw [target?_of_counts parsed counts isAlias, hasTarget, Option.bind_some, resolved_annotate]

theorem links_iff (parsed : ∀ unit ∈ units, unit.IsParsed) {next : String} :
    (aliasGraph units).Links id next ↔ LeadsTo (Resolution.ofUnits units).units id next := by
  rw [LeadsTo, ← aliases_iff parsed, AliasGraph.Links]
  refine and_iff_right_of_imp fun isAlias => ?_
  have declared : ((aliasGraph units).declaredKind? id).isSome = true := by
    rw [isAlias.1]
    rfl
  exact apart_aliasGraph id declared

theorem links_eq (parsed : ∀ unit ∈ units, unit.IsParsed) :
    (aliasGraph units).Links = LeadsTo (Resolution.ofUnits units).units := by
  funext id next
  exact propext (links_iff parsed)

theorem denotes_iff (parsed : ∀ unit ∈ units, unit.IsParsed) {kind : TypeKind} :
    (aliasGraph units).Denotes id kind ↔ EndsAt (Resolution.ofUnits units).units id kind := by
  constructor
  · intro denotes
    induction denotes with
    | scalar scalar => exact .scalar scalar
    | vector _ vector => exact .vector vector
    | declared _ declared notAlias =>
      obtain ⟨source, counts, rfl, rfl⟩ := declaredKind?_eq_some_iff.mp declared
      have ends : EndsAt (Resolution.ofUnits units).units (resolvedDeclared units source).id
          (resolvedDeclared units source).decl.definition.kind :=
        .declared (counts_resolution_iff.mpr ⟨source, counts, rfl⟩) notAlias
      exact ends
    | through link _ ih => exact .through ((links_iff parsed).mp link) ih
  · intro ends
    induction ends with
    | scalar scalar => exact .scalar scalar
    | @vector id vector =>
      refine .vector ?_ vector
      rw [genericArity?] at vector
      split at vector
      · next same => rw [same]; decide
      · cases vector
    | declared counts notAlias =>
      obtain ⟨source, sourceCounts, rfl⟩ := counts_resolution_iff.mp counts
      exact .declared (not_isBuiltin_id source)
        (declaredKind?_eq_some_iff.mpr ⟨source, sourceCounts, rfl, rfl⟩) notAlias
    | through link _ ih => exact .through ((links_iff parsed).mpr link) ih

theorem blocked_iff (parsed : ∀ unit ∈ units, unit.IsParsed) :
    (aliasGraph units).Blocked id ↔ NeverEnds (Resolution.ofUnits units).units id := by
  rw [AliasGraph.Blocked, NeverEnds]
  simp only [AliasGraph.OnCycle, links_eq parsed]
  refine exists_congr fun last => ?_
  rw [exists_and_left, and_congr_right_iff]
  intro _
  constructor
  · rintro ⟨isAlias, stops⟩
    obtain ⟨target, standsFor, resolved⟩ := (aliases_iff parsed).mp ⟨isAlias, rfl⟩
    exact ⟨target, standsFor, resolved ▸ stops⟩
  · rintro ⟨target, standsFor, stops⟩
    obtain ⟨isAlias, bound⟩ := (aliases_iff parsed).mpr ⟨target, standsFor, rfl⟩
    exact ⟨isAlias, bound ▸ stops⟩

/-! ## The kinds that are told -/

/-- A node is told the kind of the type at which the way from what it is bound to ends, and none if
that way never ends; so it is never told to be an alias. -/
structure FollowsAliases (program : List ProgramUnit) (node : TypeRef) : Prop where
  ends : ∀ kind, node.kind = some kind ↔ ∃ id, node.resolved = some id ∧ EndsAt program id kind
  never : ∀ id, node.resolved = some id → (node.kind = none ↔ NeverEnds program id)
  notAlias : node.kind ≠ some .alias

theorem EndsAt.ne_alias {kind : TypeKind} (ends : EndsAt program id kind) : kind ≠ .alias := by
  induction ends with
  | scalar => decide
  | vector => decide
  | declared _ notAlias => exact notAlias
  | through _ _ ih => exact ih

theorem followsAliases_annotate (parsed : ∀ unit ∈ units, unit.IsParsed) {node : TypeRef}
    (known : ∀ id, node.resolved = some id → (aliasGraph units).Knows id) :
    FollowsAliases (Resolution.ofUnits units).units (annotate (aliasGraph units) node) := by
  have ends : ∀ kind, (annotate (aliasGraph units) node).kind = some kind ↔
      ∃ id, node.resolved = some id ∧ EndsAt (Resolution.ofUnits units).units id kind := by
    intro kind
    rw [kind_annotate, Option.bind_eq_some_iff]
    simp only [AliasGraph.finalKind_eq_some_iff, denotes_iff parsed]
  constructor
  case ends =>
    rw [resolved_annotate]
    exact ends
  case never =>
    intro id resolved
    rw [resolved_annotate] at resolved
    rw [kind_annotate, resolved, Option.bind_some, ← blocked_iff parsed]
    exact AliasGraph.finalKind_eq_none_iff apart_aliasGraph (fun _ _ => knows_of_links parsed)
      (known id resolved)
  case notAlias =>
    intro isAlias
    obtain ⟨_, _, endsAlias⟩ := (ends .alias).mp isAlias
    exact endsAlias.ne_alias rfl

/-- The resolved definitions of a program, in order. -/
theorem definitions_resolution :
    ((Resolution.ofUnits units).units.flatMap fun unit =>
        unit.module.declaredTypes.filterMap TypeDecl.resolved) =
      (declarations units).map (resolvedDefinition units) := by
  have listed : ∀ program : List ProgramUnit,
      (program.flatMap fun unit => unit.module.declaredTypes.filterMap TypeDecl.resolved) =
        (declarations program).filterMap fun declared => declared.decl.resolved := by
    intro program
    rw [declarations, List.filterMap_flatMap]
    simp only [List.filterMap_map, Function.comp_def]
  rw [listed, declarations_resolution, List.filterMap_map]
  exact congrFun (List.filterMap_eq_map (f := resolvedDefinition units)) _

end Resolve

/-- Every node of a resolved program is told the kind found by following aliases from what it is bound
to. It is also the kind that a table of kinds gives, whatever searches have filled the table; and one
pass over the program, with one table for all references in order, gives the definitions of the resolved
program. -/
theorem kinds_follow_aliases (units : List ProgramUnit) (parsed : ∀ unit ∈ units, unit.IsParsed) :
    let program := (Resolution.ofUnits units).units
    let graph := Resolve.aliasGraph units
    (∀ unit ∈ program, ∀ decl ∈ unit.module.declaredTypes, ∃ definition,
      decl.resolved = some definition ∧ ∀ ref ∈ definition.refs, ∀ node ∈ ref.nodes,
        Resolve.FollowsAliases program node ∧
          ∀ table, Resolve.KindTable.Searched graph table →
            node.kind = node.resolved.bind fun id => (table.find graph [] id).1) ∧
      (Resolve.KindTable.resolveKinds units {}).1 =
        program.flatMap fun unit => unit.module.declaredTypes.filterMap TypeDecl.resolved := by
  intro program graph
  constructor
  · intro unit unitMember decl inside
    obtain ⟨source, sourceMember, rfl⟩ := List.mem_map.mp unitMember
    rw [Resolve.declaredTypes_resolveUnit] at inside
    obtain ⟨written, listed, rfl⟩ := List.mem_map.mp inside
    refine ⟨_, rfl, ?_⟩
    rw [TypeDef.refs_replaceRefs]
    simp only [List.forall_mem_map, Resolve.nodes_annotate]
    intro ref isRef node within
    refine ⟨Resolve.followsAliases_annotate parsed fun id resolved => ?_, fun table searched => ?_⟩
    · rw [Resolve.bindDefinition, TypeDef.refs_replaceRefs] at isRef
      obtain ⟨_, _, rfl⟩ := List.mem_map.mp isRef
      exact Resolve.knows_of_mem_nodes within resolved
    · rw [Resolve.kind_annotate, Resolve.resolved_annotate]
      simp only [graph, searched.find_eq Resolve.apart_aliasGraph]
  · obtain ⟨table, ran, _⟩ := Resolve.KindTable.resolveKinds_eq units
    rw [ran, Resolve.definitions_resolution]
    rfl

/-- Whether some node of a resolved program passes a test. -/
def anyNode (program : List ProgramUnit) (test : ProgramUnit → TypeRef → Bool) : Bool :=
  program.any fun unit => unit.module.declaredTypes.any fun decl =>
    decl.resolved.any fun definition => definition.refs.any fun ref => ref.nodes.any (test unit)

theorem anyNode_eq_true_iff {program : List ProgramUnit} {test : ProgramUnit → TypeRef → Bool} :
    anyNode program test = true ↔ ∃ unit ∈ program, ∃ decl ∈ unit.module.declaredTypes,
      ∃ definition, decl.resolved = some definition ∧ ∃ ref ∈ definition.refs, ∃ node ∈ ref.nodes,
        test unit node = true := by
  simp only [anyNode, List.any_eq_true, Option.any_eq_true]

def aliasAt (module name target : String) (line : Nat) : Decl :=
  .type {
    name
    position := ⟨line, 1⟩
    linkage := .internal
    definition := { kind := .alias, name := qualify module name, target := some { name := target } } }

/-- A module with an alias for an alias for itself, an alias for one of the prelude, and an alias for
one that stands for nothing. -/
def windingUnit : ProgramUnit where
  moduleId := "m"
  path := some ⟨.relative, ["m.weft"]⟩
  extension := ".weft"
  module :=
    { name := "m"
      position := ⟨1, 1⟩
      decls :=
        [aliasAt "m" "A" "B" 2, aliasAt "m" "B" "B" 3, aliasAt "m" "C" "Port" 4,
          aliasAt "m" "D" "E" 5, aliasAt "m" "E" "Missing" 6,
          .type {
            name := "S"
            position := ⟨7, 1⟩
            linkage := .internal
            definition :=
              { kind := .struct
                name := "m::S"
                fields :=
                  [⟨"a", { name := "A" }⟩, ⟨"c", { name := "vector", args := [{ name := "C" }] }⟩,
                    ⟨"d", { name := "D" }⟩] }
            fields :=
              [⟨"a", { name := "A" }, ⟨7, 19⟩⟩,
                ⟨"c", { name := "vector", args := [{ name := "C" }] }, ⟨7, 25⟩⟩,
                ⟨"d", { name := "D" }, ⟨7, 39⟩⟩] }] }

def windingUnits : List ProgramUnit :=
  [.prelude, windingUnit]

theorem isParsed_windingUnits : ∀ unit ∈ windingUnits, unit.IsParsed := by
  have denotes : (Module.ofText
      ("module m;\ntype A = B;\ntype B = B;\ntype C = Port;\ntype D = E;\ntype E = Missing;\n" ++
        "type S = struct \x7b a: A; c: vector<C>; d: D; \x7d;\n").toList).toOption =
      some windingUnit.module := by
    decide +kernel
  simp only [windingUnits, List.forall_mem_cons, List.not_mem_nil, false_implies, implies_true,
    and_true]
  exact ⟨ProgramUnit.isParsed_prelude, rfl, Module.isParsed_of_toOption denotes⟩

/-- The way from one alias ends at a scalar in the prelude, those from two others never end. -/
theorem kinds_follow_aliases_winding :
    (∀ unit ∈ windingUnits, unit.IsParsed) ∧
      Resolve.EndsAt (Resolution.ofUnits windingUnits).units "m::C" .scalar ∧
      Resolve.NeverEnds (Resolution.ofUnits windingUnits).units "m::A" ∧
      Resolve.NeverEnds (Resolution.ofUnits windingUnits).units "m::D" := by
  let program := (Resolution.ofUnits windingUnits).units
  have told : ∀ id kind,
      anyNode program (fun _ node => node.resolved = some id && node.kind = kind) = true →
        ∃ node, (node.resolved = some id ∧ node.kind = kind) ∧
          Resolve.FollowsAliases program node := by
    intro id kind found
    obtain ⟨unit, unitMember, decl, inside, definition, resolved, ref, isRef, node, within, tells⟩ :=
      anyNode_eq_true_iff.mp found
    obtain ⟨_, same, follows⟩ :=
      (kinds_follow_aliases windingUnits isParsed_windingUnits).1 unit unitMember decl inside
    cases resolved.symm.trans same
    exact ⟨node, by simpa using tells, (follows ref isRef node within).1⟩
  obtain ⟨ending, ⟨boundC, isScalar⟩, followsC⟩ := told "m::C" (some .scalar) (by decide +kernel)
  obtain ⟨looping, ⟨boundA, lostA⟩, followsA⟩ := told "m::A" none (by decide +kernel)
  obtain ⟨dangling, ⟨boundD, lostD⟩, followsD⟩ := told "m::D" none (by decide +kernel)
  refine ⟨isParsed_windingUnits, ?_, (followsA.never _ boundA).mp lostA,
    (followsD.never _ boundD).mp lostD⟩
  obtain ⟨id, bound, ends⟩ := (followsC.ends .scalar).mp isScalar
  cases boundC.symm.trans bound
  exact ends

end WireModules
