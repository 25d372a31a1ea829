import WireModules.Proofs.AliasOrbit
import WireModules.Proofs.Resolution

/-!
# Kinds found in one pass

The kinds of types can be found with a table that keeps what was found before: a name is followed until
it comes to one that is in the table, and every name on the way is entered. Where the way comes back to
itself, nothing is entered for the name at which it closes until the whole way has been given up, so
that the aliases on it and those that lead to it end without a kind. Whatever was looked for before, the
table gives the kind that following aliases without a table gives, and it closes the same cycles at the
same aliases.
-/

set_option autoImplicit false

namespace WireModules.Resolve

open Relation

/-! ## What a name has at the end of its chain -/

namespace AliasGraph

variable {graph : AliasGraph} {id : String}

theorem finalKind_of_links {next : String} (link : Links graph id next) :
    graph.finalKind id = graph.finalKind next := by
  apply Option.ext
  intro kind
  rw [finalKind_eq_some_iff, finalKind_eq_some_iff]
  exact ⟨.of_links link, .through link⟩

theorem finalKind_of_onCycle (cyclic : graph.OnCycle id) : graph.finalKind id = none := by
  rw [Option.eq_none_iff_forall_ne_some]
  intro kind found
  exact (finalKind_eq_some_iff.mp found).not_cyclic cyclic

theorem finalKind_of_target_eq_none (apart : graph.Apart)
    (isAlias : graph.declaredKind? id = some .alias) (unbound : graph.target? id = none) :
    graph.finalKind id = none := by
  obtain ⟨notScalar, notVector⟩ := not_or.mp (apart id (by simp [isAlias]))
  rw [finalKind, follow, if_neg notScalar, if_neg notVector]
  simp only [isAlias, unbound]
  split <;> rfl

theorem finalKind_of_not_alias (notBuiltin : ¬IsBuiltin id)
    (notAlias : graph.declaredKind? id ≠ some .alias) :
    graph.finalKind id = graph.declaredKind? id := by
  obtain ⟨notScalar, notVector⟩ := not_or.mp notBuiltin
  rw [finalKind, follow, if_neg notScalar, if_neg notVector]
  split
  · next isAlias => exact absurd isAlias notAlias
  · rfl

section Walks

variable {unvisited way : List String}

theorem walk_of_not_alias (notAlias : graph.declaredKind? id ≠ some .alias) :
    graph.walk unvisited way id = (unvisited, none) := by
  rw [walk, if_pos notAlias]

theorem walk_of_visited (isAlias : graph.declaredKind? id = some .alias) (visited : id ∉ unvisited) :
    graph.walk unvisited way id = (unvisited, if id ∈ way then some id else none) := by
  rw [walk, if_neg (not_not.mpr isAlias), dif_neg visited]

theorem walk_of_target {next : String} (isAlias : graph.declaredKind? id = some .alias)
    (fresh : id ∈ unvisited) (target : graph.target? id = some next) :
    graph.walk unvisited way id = graph.walk (without unvisited id) (id :: way) next := by
  rw [walk, if_neg (not_not.mpr isAlias), dif_pos fresh]
  simp only [target]

theorem walk_of_unbound (isAlias : graph.declaredKind? id = some .alias) (fresh : id ∈ unvisited)
    (unbound : graph.target? id = none) :
    graph.walk unvisited way id = (without unvisited id, none) := by
  rw [walk, if_neg (not_not.mpr isAlias), dif_pos fresh]
  simp only [unbound]

end Walks

theorem Apart.not_alias_of_isBuiltin (apart : graph.Apart) (builtin : IsBuiltin id) :
    graph.declaredKind? id ≠ some .alias :=
  fun isAlias => apart id (by simp [isAlias]) builtin

theorem WayTo.isAlias {way : List String} {earlier : String} (wayTo : graph.WayTo way id)
    (onWay : earlier ∈ way) : graph.declaredKind? earlier = some .alias := by
  obtain ⟨_, link, _⟩ := TransGen.head'_iff.mp (wayTo.leads onWay)
  exact link.2.1

theorem length_filter_lt {names way : List String} (named : id ∈ names) (fresh : id ∉ way) :
    (names.filter fun name => name ∉ id :: way).length <
      (names.filter fun name => name ∉ way).length := by
  have fewer : (names.filter fun name => name ∉ id :: way) =
      without (names.filter fun name => name ∉ way) id := by
    rw [without, List.filter_filter]
    apply List.filter_congr
    simp
  rw [fewer]
  exact length_without_lt (List.mem_filter.mpr ⟨named, decide_eq_true fresh⟩)

end AliasGraph

/-- What has been found: the kinds of names, the aliases on ways that came back to themselves, and the
aliases at which they did. -/
structure KindTable where
  kinds : List (String × Option TypeKind) := []
  reported : List String := []
  closed : List String := []

namespace KindTable

def note (table : KindTable) (id : String) (kind : Option TypeKind) : KindTable :=
  { table with kinds := (id, kind) :: table.kinds }

/-- A way has come back to one of its aliases, which is reported unless the alias is on a way for which
another one was. -/
def close (table : KindTable) (way : List String) (id : String) : KindTable :=
  if id ∈ table.reported then table
  else { table with reported := way ++ table.reported, closed := table.closed ++ [id] }

/-- The kind that a name at the end of a way denotes, and the table with what was found for it. -/
def find (graph : AliasGraph) (way : List String) (table : KindTable) (id : String) :
    Option TypeKind × KindTable :=
  if isBuiltinScalar id then (some .scalar, table)
  else if (genericArity? id).isSome then (some .vector, table)
  else
    match table.kinds.lookup id with
    | some kind => (kind, table)
    | none =>
      if _isAlias : graph.declaredKind? id = some .alias then
        if _onWay : id ∈ way then (none, table.close way id)
        else
          match graph.target? id with
          | some next =>
            let (kind, table) := find graph (id :: way) table next
            (kind, table.note id kind)
          | none => (none, table.note id none)
      else (graph.declaredKind? id, table.note id (graph.declaredKind? id))
termination_by (graph.names.filter fun name => name ∉ way).length
decreasing_by
  exact AliasGraph.length_filter_lt (AliasGraph.mem_names_of_declaredKind? _isAlias) _onWay

/-! ## The table and the walks -/

variable {graph : AliasGraph} {table : KindTable} {unvisited way : List String} {id : String}

theorem lookup_note (kind : Option TypeKind) (other : String) :
    (table.note id kind).kinds.lookup other =
      if other = id then some kind else table.kinds.lookup other := by
  rw [note, List.lookup_cons]
  by_cases same : other = id
  · simp [same]
  · have differs : (other == id) = false := by simpa using same
    simp [differs, same]

/-- A table holds what is true, and what walks have not visited is neither in it nor on the way. -/
structure Sound (graph : AliasGraph) (table : KindTable) (unvisited way : List String) : Prop where
  kinds : ∀ id kind, table.kinds.lookup id = some kind → kind = graph.finalKind id
  unvisited : ∀ id, graph.declaredKind? id = some .alias →
    (id ∈ unvisited ↔ table.kinds.lookup id = none ∧ id ∉ way)
  way : ∀ id ∈ way, table.kinds.lookup id = none

/-- What a search for a kind does: it finds the kind, and closes the cycle that the walk closes. -/
structure Finds (graph : AliasGraph) (unvisited way : List String) (table : KindTable) (id : String)
    (found : Option TypeKind × KindTable) : Prop where
  kind : found.1 = graph.finalKind id
  closed : found.2.closed = table.closed ++ (graph.walk unvisited way id).2.toList
  sound : Sound graph found.2 (graph.walk unvisited way id).1 way
  reported : ∀ other ∈ found.2.reported, (found.2.kinds.lookup other).isSome = true ∨ other ∈ way

theorem sound_empty : Sound graph {} graph.names [] where
  kinds _ _ found := nomatch found
  unvisited id isAlias := by simp [AliasGraph.mem_names_of_declaredKind? isAlias]
  way := by simp

/-- A name that no walk goes on from is looked up or noted, and nothing is closed. -/
theorem Sound.finds_of_walked (sound : Sound graph table unvisited way)
    (walked : graph.walk unvisited way id = (unvisited, none))
    (reported : ∀ other ∈ table.reported, (table.kinds.lookup other).isSome = true)
    {kind : Option TypeKind} (final : kind = graph.finalKind id) :
    Finds graph unvisited way table id (kind, table) where
  kind := final
  closed := by simp [walked]
  sound := by simpa [walked] using sound
  reported other member := .inl (reported other member)

/-- A name that is not in the table joins the way and leaves what is to be visited. -/
theorem Sound.enter (sound : Sound graph table unvisited way)
    (unknown : table.kinds.lookup id = none) {rest : List String}
    (left : ∀ other, graph.declaredKind? other = some .alias →
      (other ∈ rest ↔ other ∈ unvisited ∧ other ≠ id)) : Sound graph table rest (id :: way) where
  kinds := sound.kinds
  unvisited other isAlias := by
    rw [left other isAlias, sound.unvisited other isAlias, List.mem_cons, not_or, and_assoc,
      and_comm (b := other ≠ id)]
  way := List.forall_mem_cons.mpr ⟨unknown, sound.way⟩

/-- The last name of the way is noted and leaves the way. -/
theorem Sound.note (sound : Sound graph table unvisited (id :: way)) (offWay : id ∉ way)
    {kind : Option TypeKind} (final : kind = graph.finalKind id) :
    Sound graph (table.note id kind) unvisited way where
  kinds other kind' found := by
    rw [lookup_note] at found
    split at found
    · next same => exact same ▸ (Option.some.inj found) ▸ final
    · exact sound.kinds other kind' found
  unvisited other isAlias := by
    rw [sound.unvisited other isAlias, lookup_note, List.mem_cons, not_or]
    by_cases same : other = id
    · simp [same]
    · simp [same]
  way other onWay := by
    rw [lookup_note, if_neg (ne_of_mem_of_not_mem onWay offWay)]
    exact sound.way other (.tail _ onWay)

theorem isSome_lookup_note {other : String} (kind : Option TypeKind)
    (known : (table.kinds.lookup other).isSome = true ∨ other ∈ id :: way) :
    ((table.note id kind).kinds.lookup other).isSome = true ∨ other ∈ way := by
  rw [lookup_note]
  split
  · exact .inl rfl
  · next differs =>
    refine known.imp_right fun onWay => ?_
    exact (List.mem_cons.mp onWay).resolve_left differs

/-- When all that a name needs has been found, the name is noted and leaves the way. -/
theorem finds_of_entered {after : KindTable} {rest : List String} {closed : Option String}
    {kind : Option TypeKind} (walked : graph.walk unvisited way id = (rest, closed))
    (offWay : id ∉ way) (closes : after.closed = table.closed ++ closed.toList)
    (sound : Sound graph after rest (id :: way))
    (reported : ∀ other ∈ after.reported,
      (after.kinds.lookup other).isSome = true ∨ other ∈ id :: way)
    (final : kind = graph.finalKind id) :
    Finds graph unvisited way table id (kind, after.note id kind) where
  kind := final
  closed := by
    rw [walked]
    exact closes
  sound := by
    rw [walked]
    exact sound.note offWay final
  reported other member := isSome_lookup_note kind (reported other member)

/-- A way that has come back to one of its aliases is closed there. -/
theorem Sound.finds_of_onWay (sound : Sound graph table unvisited way) (wayTo : graph.WayTo way id)
    (isAlias : graph.declaredKind? id = some .alias) (onWay : id ∈ way)
    (reported : ∀ other ∈ table.reported, (table.kinds.lookup other).isSome = true) :
    Finds graph unvisited way table id (none, table.close way id) := by
  have unknown : table.kinds.lookup id = none := sound.way id onWay
  have unreported : id ∉ table.reported := by
    intro member
    have known := reported id member
    rw [unknown] at known
    cases known
  have visited : id ∉ unvisited := by
    rw [sound.unvisited id isAlias]
    simp [onWay]
  have walked : graph.walk unvisited way id = (unvisited, some id) := by
    rw [AliasGraph.walk_of_visited isAlias visited, if_pos onWay]
  rw [close, if_neg unreported]
  constructor
  case kind => exact (AliasGraph.finalKind_of_onCycle (wayTo.leads onWay)).symm
  case closed => simp [walked]
  case sound =>
    rw [walked]
    exact ⟨sound.kinds, sound.unvisited, sound.way⟩
  case reported =>
    intro other member
    rcases List.mem_append.mp member with onOwn | before
    · exact .inr onOwn
    · exact .inl (reported other before)

/-- What is in the table is not walked again. -/
theorem Sound.walk_of_known (sound : Sound graph table unvisited way) {kind : Option TypeKind}
    (known : table.kinds.lookup id = some kind) :
    graph.walk unvisited way id = (unvisited, none) := by
  by_cases isAlias : graph.declaredKind? id = some .alias
  · have visited : id ∉ unvisited := by
      rw [sound.unvisited id isAlias, known]
      simp
    have offWay : id ∉ way := by
      intro onWay
      rw [sound.way id onWay] at known
      cases known
    rw [AliasGraph.walk_of_visited isAlias visited, if_neg offWay]
  · exact AliasGraph.walk_of_not_alias isAlias

/-- A table finds the kind that following aliases without it gives, and closes the cycle that the walk
over the names not in the table closes. -/
theorem Sound.finds (apart : graph.Apart) (sound : Sound graph table unvisited way)
    (wayTo : graph.WayTo way id)
    (reported : ∀ other ∈ table.reported, (table.kinds.lookup other).isSome = true) :
    Finds graph unvisited way table id (find graph way table id) := by
  induction way, id using find.induct graph table generalizing unvisited with
  | case1 way id scalar =>
    rw [find, if_pos scalar]
    refine sound.finds_of_walked (AliasGraph.walk_of_not_alias ?_) reported ?_
    · exact apart.not_alias_of_isBuiltin (.inl scalar)
    · exact (AliasGraph.finalKind_eq_some_iff.mpr (.scalar scalar)).symm
  | case2 way id notScalar vector =>
    rw [find, if_neg notScalar, if_pos vector]
    refine sound.finds_of_walked (AliasGraph.walk_of_not_alias ?_) reported ?_
    · exact apart.not_alias_of_isBuiltin (.inr vector)
    · exact (AliasGraph.finalKind_eq_some_iff.mpr (.vector (by simpa using notScalar) vector)).symm
  | case3 way id notScalar notVector kind known =>
    rw [find, if_neg notScalar, if_neg notVector]
    simp only [known]
    exact sound.finds_of_walked (sound.walk_of_known known) reported (sound.kinds id kind known)
  | case4 way id notScalar notVector unknown isAlias onWay =>
    rw [find, if_neg notScalar, if_neg notVector]
    simp only [unknown, isAlias, onWay, dif_pos]
    exact sound.finds_of_onWay wayTo isAlias onWay reported
  | case5 way id notScalar notVector unknown isAlias offWay next target kind later found ih =>
    rw [find, if_neg notScalar, if_neg notVector]
    simp only [unknown, isAlias, offWay, target, dif_pos, dif_neg, not_false_eq_true]
    have link : graph.Links id next := apart.links isAlias target
    have fresh : id ∈ unvisited := (sound.unvisited id isAlias).mpr ⟨unknown, offWay⟩
    have entered : Sound graph table (AliasGraph.without unvisited id) (id :: way) :=
      sound.enter unknown fun other _ => AliasGraph.mem_without
    have finds := ih entered (.cons wayTo link)
    exact finds_of_entered (AliasGraph.walk_of_target isAlias fresh target) offWay finds.closed
      finds.sound finds.reported (finds.kind.trans (AliasGraph.finalKind_of_links link).symm)
  | case6 way id notScalar notVector unknown isAlias offWay unbound =>
    rw [find, if_neg notScalar, if_neg notVector]
    simp only [unknown, isAlias, offWay, unbound, dif_pos, dif_neg, not_false_eq_true]
    have fresh : id ∈ unvisited := (sound.unvisited id isAlias).mpr ⟨unknown, offWay⟩
    have entered : Sound graph table (AliasGraph.without unvisited id) (id :: way) :=
      sound.enter unknown fun other _ => AliasGraph.mem_without
    exact finds_of_entered (AliasGraph.walk_of_unbound isAlias fresh unbound) offWay
      (List.append_nil _).symm entered (fun other member => .inl (reported other member))
      (AliasGraph.finalKind_of_target_eq_none apart isAlias unbound).symm
  | case7 way id notScalar notVector unknown notAlias =>
    rw [find, if_neg notScalar, if_neg notVector]
    simp only [unknown, notAlias, dif_neg, not_false_eq_true]
    have offWay : id ∉ way := fun onWay => notAlias (wayTo.isAlias onWay)
    -- A name that is no alias was not to be visited either.
    have entered : Sound graph table unvisited (id :: way) := by
      refine sound.enter unknown fun other isAlias => (and_iff_left ?_).symm
      rintro rfl
      exact notAlias isAlias
    exact finds_of_entered (AliasGraph.walk_of_not_alias notAlias) offWay
      (List.append_nil _).symm entered (fun other member => .inl (reported other member))
      (AliasGraph.finalKind_of_not_alias (not_or.mpr ⟨notScalar, notVector⟩) notAlias).symm

/-! ## One pass over a program -/

mutual

/-- Tell the kinds in a reference, those of its arguments first. -/
def annotate (graph : AliasGraph) : TypeRef → StateM KindTable TypeRef
  | ⟨name, args, resolved, _⟩ => do
    let args ← annotateAll graph args
    match resolved with
    | none => return { name, args }
    | some id =>
      let kind ← modifyGet fun table => find graph [] table id
      return { name, args, resolved := some id, kind }

def annotateAll (graph : AliasGraph) : List TypeRef → StateM KindTable (List TypeRef)
  | [] => return []
  | ref :: rest => return (← annotate graph ref) :: (← annotateAll graph rest)

end

def annotateField (graph : AliasGraph) (field : TypedField) : StateM KindTable TypedField :=
  return { field with ref := ← annotate graph field.ref }

def annotateDefinition (graph : AliasGraph) (definition : TypeDef) : StateM KindTable TypeDef := do
  let fields ← definition.fields.mapM (annotateField graph)
  let target ← definition.target.mapM (annotate graph)
  return { definition with fields, target }

/-- Tell the kinds in all definitions of a program, with one table for all. -/
def resolveKinds (units : List ProgramUnit) : StateM KindTable (List TypeDef) :=
  (units.flatMap (boundDefinitions units)).mapM (annotateDefinition (aliasGraph units))

/-- A table between two searches. -/
structure Steady (graph : AliasGraph) (table : KindTable) (unvisited : List String) : Prop where
  sound : Sound graph table unvisited []
  reported : ∀ other ∈ table.reported, (table.kinds.lookup other).isSome = true

theorem steady_empty : Steady graph {} graph.names :=
  ⟨sound_empty, by simp⟩

/-- With any table, an action gives a value, and closes the cycles that the walks from some names
close. -/
def Passes {α : Type} (graph : AliasGraph) (action : StateM KindTable α) (value : α)
    (ids : List String) : Prop :=
  ∀ table unvisited, Steady graph table unvisited →
    ∃ after rest, action table = (value, after) ∧ Steady graph after rest ∧
      after.closed = table.closed ++ graph.cycles unvisited ids ∧
      ∀ more, graph.cycles unvisited (ids ++ more) =
        graph.cycles unvisited ids ++ graph.cycles rest more

namespace Passes

variable {α β : Type}

theorem pure (value : α) : Passes graph (Pure.pure value) value [] := by
  intro table unvisited steady
  exact ⟨table, unvisited, rfl, steady, (List.append_nil _).symm, fun _ => rfl⟩

theorem bind {first : StateM KindTable α} {next : α → StateM KindTable β} {value : α} {result : β}
    {ids more : List String} (own : Passes graph first value ids)
    (later : Passes graph (next value) result more) :
    Passes graph (first >>= next) result (ids ++ more) := by
  intro table unvisited steady
  obtain ⟨between, left, ran, steadyBetween, closed, splits⟩ := own table unvisited steady
  obtain ⟨after, rest, ranLater, steadyAfter, closedLater, splitsLater⟩ :=
    later between left steadyBetween
  refine ⟨after, rest, ?_, steadyAfter, ?_, fun others => ?_⟩
  · change (first table >>= fun pair => next pair.1 pair.2) = _
    rw [ran]
    exact ranLater
  · rw [closedLater, closed, splits, List.append_assoc]
  · rw [List.append_assoc, splits, splits, splitsLater, List.append_assoc]

theorem map {action : StateM KindTable α} {value : α} {ids : List String} (change : α → β)
    (passes : Passes graph action value ids) :
    Passes graph (action >>= fun given => Pure.pure (change given)) (change value) ids := by
  have composed : Passes graph (action >>= fun given => Pure.pure (change given)) (change value)
      (ids ++ []) := passes.bind (pure (change value))
  rwa [List.append_nil] at composed

theorem mapM {items : List α} {step : α → StateM KindTable β} {change : α → β}
    {ids : α → List String} (each : ∀ item ∈ items, Passes graph (step item) (change item) (ids item)) :
    Passes graph (items.mapM step) (items.map change) (items.flatMap ids) := by
  induction items with
  | nil => exact pure []
  | cons item rest ih =>
    obtain ⟨own, others⟩ := List.forall_mem_cons.mp each
    rw [List.mapM_cons]
    exact own.bind ((ih others).map fun more => change item :: more)

theorem find (apart : graph.Apart) (id : String) :
    Passes graph (modifyGet fun table => find graph [] table id) (graph.finalKind id) [id] := by
  intro table unvisited steady
  have finds : Finds graph unvisited [] table id (KindTable.find graph [] table id) :=
    steady.sound.finds apart .nil steady.reported
  refine ⟨(KindTable.find graph [] table id).2, (graph.walk unvisited [] id).1, ?_, ⟨finds.sound, ?_⟩,
    ?_, fun more => ?_⟩
  · exact Prod.ext finds.kind rfl
  · exact fun other member => (finds.reported other member).resolve_right List.not_mem_nil
  · simp only [finds.closed, AliasGraph.cycles, List.append_nil]
  · simp only [List.singleton_append, AliasGraph.cycles, List.append_nil]

end Passes

theorem annotateAll_eq_mapM (refs : List TypeRef) :
    annotateAll graph refs = refs.mapM (annotate graph) := by
  induction refs with
  | nil => rfl
  | cons ref rest ih => rw [annotateAll, ih, List.mapM_cons]

theorem passes_annotate (apart : graph.Apart) (ref : TypeRef) :
    Passes graph (annotate graph ref) (Resolve.annotate graph ref) (boundIds ref) := by
  induction ref using TypeRef.argsInduction with
  | node name args resolved kind ih =>
    rw [annotate, annotateAll_eq_mapM, annotate_mk, boundIds_mk]
    refine (Passes.mapM ih).bind ?_
    cases resolved with
    | none => exact .pure _
    | some id => exact (Passes.find apart id).map _

theorem passes_annotateDefinition (apart : graph.Apart) (definition : TypeDef) :
    Passes graph (annotateDefinition graph definition)
      (definition.replaceRefs (Resolve.annotate graph)) (definition.refs.flatMap boundIds) := by
  have field : ∀ field : TypedField, Passes graph (annotateField graph field)
      { field with ref := Resolve.annotate graph field.ref } (boundIds field.ref) :=
    fun field => (passes_annotate apart field.ref).map _
  have target : Passes graph (definition.target.mapM (annotate graph))
      (definition.target.map (Resolve.annotate graph)) (definition.target.toList.flatMap boundIds) := by
    cases definition.target with
    | none => exact .pure none
    | some target =>
      rw [Option.toList_some, List.flatMap_singleton]
      exact (passes_annotate apart target).map some
  rw [TypeDef.refs, List.flatMap_append, List.flatMap_map]
  exact (Passes.mapM fun own _ => field own).bind (target.map _)

/-- One pass over a program, with one table for all references, gives the definitions that resolution
gives and closes the cycles that it reports. -/
theorem resolveKinds_eq (units : List ProgramUnit) :
    ∃ table, resolveKinds units {} =
        ((declarations units).map fun declared =>
          (boundDefinition units declared).replaceRefs (Resolve.annotate (aliasGraph units)), table) ∧
      table.closed = (aliasGraph units).cycles (aliasGraph units).names (metIds units) := by
  have passes : Passes (aliasGraph units) (resolveKinds units)
      ((units.flatMap (boundDefinitions units)).map fun definition =>
        definition.replaceRefs (Resolve.annotate (aliasGraph units))) (metIds units) :=
    Passes.mapM fun definition _ => passes_annotateDefinition apart_aliasGraph definition
  obtain ⟨table, _, ran, _, closed, _⟩ := passes {} (aliasGraph units).names steady_empty
  refine ⟨table, ran.trans ?_, closed⟩
  rw [flatMap_boundDefinitions, List.map_map]
  rfl

/-- A table that holds what some searches have found, in whatever order they were made. -/
inductive Searched (graph : AliasGraph) : KindTable → Prop where
  | empty : Searched graph {}
  | find {table : KindTable} (id : String) : Searched graph table →
      Searched graph (KindTable.find graph [] table id).2

/-- The kind found does not depend on what was found before. -/
theorem Searched.find_eq (apart : graph.Apart) (searched : Searched graph table) (id : String) :
    (KindTable.find graph [] table id).1 = graph.finalKind id := by
  have steady : ∃ unvisited, Steady graph table unvisited := by
    induction searched with
    | empty => exact ⟨_, steady_empty⟩
    | find other _ ih =>
      obtain ⟨unvisited, steady⟩ := ih
      obtain ⟨_, rest, ran, steadyAfter, _⟩ := Passes.find apart other _ _ steady
      exact ⟨rest, (congrArg Prod.snd ran) ▸ steadyAfter⟩
  obtain ⟨unvisited, steady⟩ := steady
  obtain ⟨_, _, ran, _⟩ := Passes.find apart id _ _ steady
  exact congrArg Prod.fst ran

end KindTable

end WireModules.Resolve
