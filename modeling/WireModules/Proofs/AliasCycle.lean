import WireModules.Proofs.AliasChain

/-!
# Walks along aliases

The walks that look for cycles share what they have visited. A walk closes no cycle exactly if the
chain it is on ends, provided that every alias visited before has a chain that ends too, or is on
the way of this walk.
-/

set_option autoImplicit false

namespace WireModules.Resolve.AliasGraph

open Relation

variable {graph : AliasGraph}

/-- A name that can be a target: a builtin type or a declared one. -/
def Knows (graph : AliasGraph) (id : String) : Prop :=
  IsBuiltin id ∨ (graph.declaredKind? id).isSome = true

/-- No declaration takes the name of a builtin type. -/
def Apart (graph : AliasGraph) : Prop :=
  ∀ id, (graph.declaredKind? id).isSome = true → ¬IsBuiltin id

/-- Every alias is bound to a name that is known. -/
def Complete (graph : AliasGraph) : Prop :=
  ∀ id, graph.declaredKind? id = some .alias → ∃ next, graph.target? id = some next ∧
    graph.Knows next

/-- Every alias that is not to be visited any more has a chain that ends, or is on the way. -/
def Settled (graph : AliasGraph) (unvisited way : List String) : Prop :=
  ∀ id, graph.declaredKind? id = some .alias → id ∉ unvisited →
    id ∈ way ∨ ∃ kind, Denotes graph id kind

theorem Apart.links (apart : graph.Apart) {id next : String}
    (isAlias : graph.declaredKind? id = some .alias) (target : graph.target? id = some next) :
    Links graph id next :=
  ⟨apart id (by simp [isAlias]), isAlias, target⟩

theorem Knows.denotes_of_not_alias {id : String} (known : graph.Knows id)
    (notAlias : graph.declaredKind? id ≠ some .alias) : ∃ kind, Denotes graph id kind := by
  by_cases builtin : IsBuiltin id
  · by_cases scalar : isBuiltinScalar id = true
    · exact ⟨_, .scalar scalar⟩
    · exact ⟨_, .vector (by simpa using scalar) (builtin.resolve_left scalar)⟩
  · obtain ⟨kind, declared⟩ := Option.isSome_iff_exists.mp (known.resolve_left builtin)
    exact ⟨kind, .declared builtin declared fun isAlias => notAlias (isAlias ▸ declared)⟩

theorem settled_names : graph.Settled graph.names [] := by
  intro id isAlias unnamed
  exact absurd (mem_names_of_declaredKind? isAlias) unnamed

/-- A walk that closes no cycle shows that the chain it was on ends. -/
theorem walk_open (apart : graph.Apart) (complete : graph.Complete)
    {unvisited way rest : List String} {id : String} (known : graph.Knows id)
    (settled : graph.Settled unvisited way)
    (walked : graph.walk unvisited way id = (rest, none)) :
    (∃ kind, Denotes graph id kind) ∧ graph.Settled rest way := by
  induction unvisited, way, id using walk.induct graph with
  | case1 unvisited way id notAlias =>
    rw [walk, if_pos notAlias] at walked
    cases walked
    exact ⟨known.denotes_of_not_alias notAlias, settled⟩
  | case2 unvisited way id isAlias fresh next target ih =>
    rw [walk, if_neg isAlias, dif_pos fresh] at walked
    simp only [target] at walked
    have isAlias : graph.declaredKind? id = some .alias := Decidable.not_not.mp isAlias
    obtain ⟨next', target', knownNext⟩ := complete id isAlias
    cases target.symm.trans target'
    -- The alias itself joins the way, so it may leave the names still to be visited.
    have settledNext : graph.Settled (without unvisited id) (id :: way) := by
      intro other otherAlias visited
      by_cases same : other = id
      · exact .inl (same ▸ .head _)
      · have visited : other ∉ unvisited := fun unvisitedOther =>
          visited (mem_without.mpr ⟨unvisitedOther, same⟩)
        exact (settled other otherAlias visited).imp_left (.tail _)
    obtain ⟨⟨kind, denotes⟩, settledRest⟩ := ih knownNext settledNext walked
    have own : Denotes graph id kind := .through (apart.links isAlias target) denotes
    refine ⟨⟨kind, own⟩, ?_⟩
    intro other otherAlias visited
    rcases settledRest other otherAlias visited with onWay | ends
    · rcases List.mem_cons.mp onWay with rfl | onWay
      · exact .inr ⟨kind, own⟩
      · exact .inl onWay
    · exact .inr ends
  | case3 unvisited way id isAlias fresh target =>
    obtain ⟨next, bound, _⟩ := complete id (Decidable.not_not.mp isAlias)
    rw [target] at bound
    cases bound
  | case4 unvisited way id isAlias visited =>
    rw [walk, if_neg isAlias, dif_neg visited] at walked
    have notOnWay : id ∉ way := by
      intro onWay
      simp [onWay] at walked
    simp only [notOnWay, ↓reduceIte] at walked
    cases walked
    have ends := (settled id (Decidable.not_not.mp isAlias) visited).resolve_left notOnWay
    exact ⟨ends, settled⟩

/-- A walk on a chain that ends closes no cycle, if its way leads to where it is. -/
theorem Denotes.walk_open (apart : graph.Apart) {unvisited way : List String} {id : String}
    {kind : TypeKind} (denotes : Denotes graph id kind)
    (leads : ∀ earlier ∈ way, TransGen (Links graph) earlier id) :
    (graph.walk unvisited way id).2 = none := by
  induction unvisited, way, id using walk.induct graph with
  | case1 unvisited way id notAlias => rw [walk, if_pos notAlias]
  | case2 unvisited way id isAlias fresh next target ih =>
    rw [walk, if_neg isAlias, dif_pos fresh]
    simp only [target]
    have link : Links graph id next := apart.links (Decidable.not_not.mp isAlias) target
    apply ih (denotes.of_links link)
    intro earlier onWay
    rcases List.mem_cons.mp onWay with rfl | onWay
    · exact .single link
    · exact (leads earlier onWay).tail link
  | case3 unvisited way id isAlias fresh target =>
    rw [walk, if_neg isAlias, dif_pos fresh]
    simp only [target]
  | case4 unvisited way id isAlias visited =>
    rw [walk, if_neg isAlias, dif_neg visited]
    have notOnWay : id ∉ way := fun onWay => denotes.not_cyclic (leads id onWay)
    simp only [notOnWay, ↓reduceIte]

theorem cycles_eq_nil_of_denotes (apart : graph.Apart) {unvisited ids : List String}
    (denotes : ∀ id ∈ ids, ∃ kind, Denotes graph id kind) : graph.cycles unvisited ids = [] := by
  induction ids generalizing unvisited with
  | nil => rfl
  | cons id rest ih =>
    obtain ⟨kind, ends⟩ := denotes id (.head _)
    have closesNone : (graph.walk unvisited [] id).2 = none := ends.walk_open apart (by simp)
    simp only [cycles, closesNone, Option.toList_none, List.nil_append]
    exact ih fun other member => denotes other (.tail _ member)

theorem denotes_of_cycles_eq_nil (apart : graph.Apart) (complete : graph.Complete)
    {unvisited ids : List String} (settled : graph.Settled unvisited [])
    (known : ∀ id ∈ ids, graph.Knows id) (acyclic : graph.cycles unvisited ids = []) :
    ∀ id ∈ ids, ∃ kind, Denotes graph id kind := by
  induction ids generalizing unvisited with
  | nil => simp
  | cons id rest ih =>
    simp only [cycles, List.append_eq_nil_iff, Option.toList_eq_nil_iff] at acyclic
    have walked : graph.walk unvisited [] id = ((graph.walk unvisited [] id).1, none) :=
      Prod.ext rfl acyclic.1
    obtain ⟨ends, settledRest⟩ :=
      AliasGraph.walk_open apart complete (known id (.head _)) settled walked
    intro other member
    rcases List.mem_cons.mp member with rfl | member
    · exact ends
    · exact ih settledRest (fun name later => known name (.tail _ later)) acyclic.2 other member

/-- The walks from some names close no cycle exactly if all their chains end. -/
theorem cycles_eq_nil_iff (apart : graph.Apart) (complete : graph.Complete) {ids : List String}
    (known : ∀ id ∈ ids, graph.Knows id) :
    graph.cycles graph.names ids = [] ↔ ∀ id ∈ ids, ∃ kind, graph.finalKind id = some kind := by
  simp only [finalKind_eq_some_iff]
  exact ⟨denotes_of_cycles_eq_nil apart complete settled_names known,
    cycles_eq_nil_of_denotes apart⟩

/-- A name at which a walk closes a cycle is declared. -/
theorem declared_of_walk_closed {unvisited way rest : List String} {id closed : String}
    (walked : graph.walk unvisited way id = (rest, some closed)) :
    graph.declaredKind? closed = some .alias := by
  induction unvisited, way, id using walk.induct graph with
  | case1 unvisited way id notAlias =>
    rw [walk, if_pos notAlias] at walked
    cases walked
  | case2 unvisited way id isAlias fresh next target ih =>
    rw [walk, if_neg isAlias, dif_pos fresh] at walked
    simp only [target] at walked
    exact ih walked
  | case3 unvisited way id isAlias fresh target =>
    rw [walk, if_neg isAlias, dif_pos fresh] at walked
    simp [target] at walked
  | case4 unvisited way id isAlias visited =>
    rw [walk, if_neg isAlias, dif_neg visited] at walked
    have isAlias : graph.declaredKind? id = some .alias := Decidable.not_not.mp isAlias
    split at walked
    · cases walked
      exact isAlias
    · cases walked

theorem declared_of_mem_cycles {unvisited ids : List String} {closed : String}
    (member : closed ∈ graph.cycles unvisited ids) :
    graph.declaredKind? closed = some .alias := by
  induction ids generalizing unvisited with
  | nil => simp [cycles] at member
  | cons id rest ih =>
    simp only [cycles, List.mem_append, Option.mem_toList] at member
    rcases member with here | later
    · exact declared_of_walk_closed (Prod.ext rfl here)
    · exact ih later

/-- Every cycle found has its diagnostic. -/
theorem cycleDiagnostics_eq_nil_iff {unvisited ids : List String} :
    (graph.cycles unvisited ids).filterMap graph.cycleDiagnostic? = [] ↔
      graph.cycles unvisited ids = [] := by
  constructor
  · intro silent
    rw [List.filterMap_eq_nil_iff] at silent
    refine List.eq_nil_iff_forall_not_mem.mpr fun closed member => ?_
    have declared := declared_of_mem_cycles member
    have unreported := silent closed member
    simp only [cycleDiagnostic?, Option.map_eq_none_iff] at unreported
    simp [declaredKind?, unreported] at declared
  · intro acyclic
    rw [acyclic, List.filterMap_nil]

end WireModules.Resolve.AliasGraph
