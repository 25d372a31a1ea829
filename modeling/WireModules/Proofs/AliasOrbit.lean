import Mathlib.Data.Set.Defs
import WireModules.Proofs.AliasCycle

/-!
# Every cycle of aliases is closed once

An alias goes on to one name only, so a cycle that a chain enters is all that the chain goes on to.
The walks that look for cycles share what they have visited and leave nothing behind: what was
visited leads to what was visited. Hence each cycle that can be reached is closed by one walk, at
one of its aliases, whichever names the walks begin at.
-/

set_option autoImplicit false

namespace WireModules.Resolve.AliasGraph

open Relation

variable {graph : AliasGraph}

/-- An alias that its own chain comes back to. -/
def OnCycle (graph : AliasGraph) (id : String) : Prop :=
  TransGen (Links graph) id id

/-- The names that the chain from a name comes by: of an alias on a cycle, the cycle. -/
def orbit (graph : AliasGraph) (id : String) : Set String :=
  {other | ReflTransGen (Links graph) id other}

theorem OnCycle.isAlias {id : String} (cyclic : graph.OnCycle id) :
    graph.declaredKind? id = some .alias := by
  obtain ⟨_, link, _⟩ := TransGen.head'_iff.mp cyclic
  exact link.2.1

theorem OnCycle.target_isSome {id : String} (cyclic : graph.OnCycle id) :
    ∃ next, graph.target? id = some next := by
  obtain ⟨next, link, _⟩ := TransGen.head'_iff.mp cyclic
  exact ⟨next, link.2.2⟩

/-- A chain that begins on a cycle stays on it. -/
theorem OnCycle.comes_back {id other : String} (cyclic : graph.OnCycle id)
    (reaches : ReflTransGen (Links graph) id other) :
    graph.OnCycle other ∧ ReflTransGen (Links graph) other id := by
  induction reaches with
  | refl => exact ⟨cyclic, .refl⟩
  | tail _ link ih =>
    obtain ⟨cyclicBefore, back⟩ := ih
    obtain ⟨next, first, rest⟩ := TransGen.head'_iff.mp cyclicBefore
    cases link.unique first
    constructor
    · exact TransGen.tail' rest link
    · exact rest.trans back

theorem OnCycle.orbit_eq {id other : String} (cyclic : graph.OnCycle id)
    (reaches : ReflTransGen (Links graph) id other) : graph.orbit id = graph.orbit other := by
  have back := (cyclic.comes_back reaches).2
  apply Set.ext
  intro name
  constructor
  · exact back.trans
  · exact reaches.trans

theorem OnCycle.isAlias_of_reaches {id name : String} (cyclic : graph.OnCycle name)
    (reaches : ReflTransGen (Links graph) id name) : graph.declaredKind? id = some .alias := by
  rcases reaches.cases_head with rfl | ⟨_, link, _⟩
  · exact cyclic.isAlias
  · exact link.2.1

/-- The aliases of a way, last first, go on to one another and then to a name. -/
inductive WayTo (graph : AliasGraph) : List String → String → Prop where
  | nil {id : String} : WayTo graph [] id
  | cons {way : List String} {id next : String} : WayTo graph way id → Links graph id next →
      WayTo graph (id :: way) next

theorem WayTo.leads {way : List String} {id earlier : String} (wayTo : graph.WayTo way id)
    (onWay : earlier ∈ way) : TransGen (Links graph) earlier id := by
  induction wayTo with
  | nil => cases onWay
  | cons _ link ih =>
    rcases List.mem_cons.mp onWay with rfl | before
    · exact .single link
    · exact (ih before).tail link

theorem WayTo.goes_on {way : List String} {id earlier next : String} (wayTo : graph.WayTo way id)
    (onWay : earlier ∈ way) (link : Links graph earlier next) : next ∈ way ∨ next = id := by
  induction wayTo with
  | nil => cases onWay
  | cons _ last ih =>
    rcases List.mem_cons.mp onWay with rfl | before
    · exact .inr (link.unique last)
    · rcases ih before with inside | rfl
      · exact .inl (.tail _ inside)
      · exact .inl (.head _)

/-- What was visited and is not on the way goes on to such names only. -/
def Explored (graph : AliasGraph) (unvisited way : List String) : Prop :=
  ∀ id next, id ∉ unvisited → id ∉ way → Links graph id next →
    graph.declaredKind? next = some .alias → next ∉ unvisited ∧ next ∉ way

theorem explored_names : graph.Explored graph.names [] := by
  intro id next unnamed _ link _
  exact absurd (mem_names_of_declaredKind? link.2.1) unnamed

theorem Explored.reaches {unvisited way : List String} {id other : String}
    (explored : graph.Explored unvisited way) (visited : id ∉ unvisited) (left : id ∉ way)
    (reaches : ReflTransGen (Links graph) id other)
    (isAlias : graph.declaredKind? other = some .alias) : other ∉ unvisited ∧ other ∉ way := by
  induction reaches with
  | refl => exact ⟨visited, left⟩
  | tail _ link ih =>
    obtain ⟨visitedBefore, leftBefore⟩ := ih link.2.1
    exact explored _ _ visitedBefore leftBefore link isAlias

/-- What a walk has come to: its way leads to where it is, and all that was visited besides is
explored. -/
structure Walking (graph : AliasGraph) (unvisited way : List String) (id : String) : Prop where
  wayTo : graph.WayTo way id
  visited : ∀ earlier ∈ way, earlier ∉ unvisited
  explored : graph.Explored unvisited way

theorem Walking.step {unvisited way : List String} {id next : String}
    (walking : graph.Walking unvisited way id) (fresh : id ∈ unvisited)
    (link : Links graph id next) :
    graph.Walking (without unvisited id) (id :: way) next where
  wayTo := .cons walking.wayTo link
  visited := by
    intro earlier onWay unvisitedEarlier
    obtain ⟨remains, differs⟩ := mem_without.mp unvisitedEarlier
    rcases List.mem_cons.mp onWay with same | before
    · exact differs same
    · exact walking.visited earlier before remains
  explored := by
    intro other after visited left otherLink isAlias
    obtain ⟨differs, leftBefore⟩ := not_or.mp (mt List.mem_cons.mpr left)
    have visitedBefore : other ∉ unvisited := fun remains =>
      visited (mem_without.mpr ⟨remains, differs⟩)
    obtain ⟨visitedAfter, leftAfter⟩ :=
      walking.explored other after visitedBefore leftBefore otherLink isAlias
    constructor
    · exact fun remains => visitedAfter (mem_without.mp remains).1
    · intro onWay
      rcases List.mem_cons.mp onWay with rfl | before
      · exact visitedAfter fresh
      · exact leftAfter before

/-- What a walk has done once it ends: it has explored all it came to, and if a cycle is among what
it visited, it has closed that cycle. -/
structure Walked (graph : AliasGraph) (unvisited way : List String) (id : String)
    (rest : List String) (closed : Option String) : Prop where
  fewer : ∀ other ∈ rest, other ∈ unvisited
  left : graph.declaredKind? id = some .alias → id ∉ rest
  explored : graph.Explored rest []
  cyclic : ∀ name, closed = some name →
    graph.OnCycle name ∧ ReflTransGen (Links graph) id name ∧ (name ∈ way ∨ name ∈ unvisited)
  complete : ∀ name, graph.OnCycle name → name ∉ rest → name ∈ way ∨ name ∈ unvisited →
    ∃ other, closed = some other ∧ ReflTransGen (Links graph) name other

variable {unvisited way : List String} {id : String}

/-- A walk may end where no cycle is on its way, if what it leaves behind goes nowhere. -/
theorem Walking.stop {rest : List String} (walking : graph.Walking unvisited way id)
    (fewer : ∀ other ∈ rest, other ∈ unvisited)
    (nowhere : ∀ other ∈ unvisited, other ∉ rest → ∀ next, ¬Links graph other next)
    (left : graph.declaredKind? id = some .alias → id ∉ rest)
    (acyclic : ∀ earlier ∈ way, ¬graph.OnCycle earlier) :
    Walked graph unvisited way id rest none where
  fewer := fewer
  left := left
  explored := by
    intro other next visited _ link isAlias
    refine ⟨?_, List.not_mem_nil⟩
    by_cases onWay : other ∈ way
    · rcases walking.wayTo.goes_on onWay link with inside | rfl
      · exact mt (fewer next) (walking.visited next inside)
      · exact left isAlias
    · have visitedBefore : other ∉ unvisited := fun remains => nowhere other remains visited next link
      exact mt (fewer next) (walking.explored other next visitedBefore onWay link isAlias).1
  cyclic := by simp
  complete := by
    intro name cyclic visited met
    rcases met with onWay | remains
    · exact absurd cyclic (acyclic name onWay)
    · obtain ⟨next, link, _⟩ := TransGen.head'_iff.mp cyclic
      exact absurd link (nowhere name remains visited next)

/-- A cycle on the way of a walk leads to where the walk is. -/
theorem Walking.onCycle {earlier : String} (walking : graph.Walking unvisited way id)
    (onWay : earlier ∈ way) (cyclic : graph.OnCycle earlier) :
    graph.OnCycle id ∧ ReflTransGen (Links graph) id earlier :=
  cyclic.comes_back (walking.wayTo.leads onWay).to_reflTransGen

theorem Walking.walked (apart : graph.Apart) (walking : graph.Walking unvisited way id) :
    Walked graph unvisited way id (graph.walk unvisited way id).1
      (graph.walk unvisited way id).2 := by
  induction unvisited, way, id using walk.induct graph with
  | case1 unvisited way id notAlias =>
    rw [walk, if_pos notAlias]
    apply walking.stop
    case fewer => exact fun _ remains => remains
    case nowhere => exact fun other remains visited => absurd remains visited
    case left => exact fun isAlias => absurd isAlias notAlias
    case acyclic =>
      intro earlier onWay cyclic
      exact notAlias (walking.onCycle onWay cyclic).1.isAlias
  | case2 unvisited way id isAlias fresh next target ih =>
    rw [walk, if_neg isAlias, dif_pos fresh]
    simp only [target]
    have link : Links graph id next := apart.links (Decidable.not_not.mp isAlias) target
    have walked := ih (walking.step fresh link)
    constructor
    case fewer =>
      intro other remains
      exact (mem_without.mp (walked.fewer other remains)).1
    case left =>
      intro _ remains
      exact (mem_without.mp (walked.fewer id remains)).2 rfl
    case explored => exact walked.explored
    case cyclic =>
      intro name closed
      obtain ⟨cyclic, reached, met⟩ := walked.cyclic name closed
      refine ⟨cyclic, .head link reached, ?_⟩
      rcases met with onWay | remains
      · rcases List.mem_cons.mp onWay with rfl | before
        · exact .inr fresh
        · exact .inl before
      · exact .inr (mem_without.mp remains).1
    case complete =>
      intro name cyclic visited met
      apply walked.complete name cyclic visited
      by_cases same : name = id
      · exact .inl (same ▸ .head _)
      · rcases met with onWay | remains
        · exact .inl (.tail _ onWay)
        · exact .inr (mem_without.mpr ⟨remains, same⟩)
  | case3 unvisited way id isAlias fresh noTarget =>
    rw [walk, if_neg isAlias, dif_pos fresh]
    simp only [noTarget]
    apply walking.stop
    case fewer => exact fun other remains => (mem_without.mp remains).1
    case nowhere =>
      intro other remains visited next link
      by_cases same : other = id
      · rw [← same, link.2.2] at noTarget
        cases noTarget
      · exact visited (mem_without.mpr ⟨remains, same⟩)
    case left => exact fun _ remains => (mem_without.mp remains).2 rfl
    case acyclic =>
      intro earlier onWay cyclic
      obtain ⟨next, target⟩ := (walking.onCycle onWay cyclic).1.target_isSome
      rw [target] at noTarget
      cases noTarget
  | case4 unvisited way id isAlias visited =>
    rw [walk, if_neg isAlias, dif_neg visited]
    by_cases onWay : id ∈ way
    · -- The walk has come back to its own way, and closes the cycle here.
      rw [if_pos onWay]
      constructor
      case fewer => exact fun _ remains => remains
      case left => exact fun _ => visited
      case explored =>
        intro other next left _ link nextAlias
        refine ⟨?_, List.not_mem_nil⟩
        by_cases otherOnWay : other ∈ way
        · rcases walking.wayTo.goes_on otherOnWay link with inside | rfl
          · exact walking.visited next inside
          · exact visited
        · exact (walking.explored other next left otherOnWay link nextAlias).1
      case cyclic =>
        intro name closed
        cases closed
        exact ⟨walking.wayTo.leads onWay, .refl, .inl onWay⟩
      case complete =>
        intro name cyclic left met
        rcases met with nameOnWay | remains
        · exact ⟨id, rfl, (walking.wayTo.leads nameOnWay).to_reflTransGen⟩
        · exact absurd remains left
    · rw [if_neg onWay]
      apply walking.stop
      case fewer => exact fun _ remains => remains
      case nowhere => exact fun other remains left => absurd remains left
      case left => exact fun _ => visited
      case acyclic =>
        intro earlier earlierOnWay cyclic
        have back := (walking.onCycle earlierOnWay cyclic).2
        exact (walking.explored.reaches visited onWay back cyclic.isAlias).2 earlierOnWay

/-! ## The cycles that some names lead to -/

theorem walked_of_explored (apart : graph.Apart) (explored : graph.Explored unvisited [])
    (id : String) :
    Walked graph unvisited [] id (graph.walk unvisited [] id).1 (graph.walk unvisited [] id).2 :=
  Walking.walked apart ⟨.nil, by simp, explored⟩

/-- No cycle that a walk came to has a name left to visit. -/
theorem Walked.not_mem_rest {rest : List String} {closed : Option String} {name : String}
    (walked : Walked graph unvisited [] id rest closed) (cyclic : graph.OnCycle name)
    (reaches : ReflTransGen (Links graph) id name) : name ∉ rest := by
  have left := walked.left (cyclic.isAlias_of_reaches reaches)
  exact (walked.explored.reaches left List.not_mem_nil reaches cyclic.isAlias).1

theorem onCycle_of_mem_cycles (apart : graph.Apart) (explored : graph.Explored unvisited [])
    {ids : List String} {name : String} (member : name ∈ graph.cycles unvisited ids) :
    graph.OnCycle name ∧ name ∈ unvisited ∧
      ∃ id ∈ ids, ReflTransGen (Links graph) id name := by
  induction ids generalizing unvisited with
  | nil => cases member
  | cons id rest ih =>
    have walked := walked_of_explored apart explored id
    rcases List.mem_append.mp member with here | later
    · obtain ⟨cyclic, reached, met⟩ := walked.cyclic name (Option.mem_toList.mp here)
      exact ⟨cyclic, met.resolve_left List.not_mem_nil, id, .head _, reached⟩
    · obtain ⟨cyclic, remains, other, listed, reached⟩ := ih walked.explored later
      exact ⟨cyclic, walked.fewer name remains, other, .tail _ listed, reached⟩

theorem exists_mem_cycles (apart : graph.Apart) (explored : graph.Explored unvisited [])
    {ids : List String} {id name : String} (cyclic : graph.OnCycle name)
    (remains : name ∈ unvisited) (listed : id ∈ ids)
    (reaches : ReflTransGen (Links graph) id name) :
    ∃ other ∈ graph.cycles unvisited ids, ReflTransGen (Links graph) name other := by
  induction ids generalizing unvisited with
  | nil => cases listed
  | cons first rest ih =>
    have walked := walked_of_explored apart explored first
    by_cases left : name ∈ (graph.walk unvisited [] first).1
    · have later : id ∈ rest := by
        rcases List.mem_cons.mp listed with rfl | later
        · exact absurd left (walked.not_mem_rest cyclic reaches)
        · exact later
      obtain ⟨other, member, reached⟩ := ih walked.explored left later
      exact ⟨other, List.mem_append_right _ member, reached⟩
    · obtain ⟨other, closed, reached⟩ := walked.complete name cyclic left (.inr remains)
      exact ⟨other, List.mem_append_left _ (Option.mem_toList.mpr closed), reached⟩

/-- No cycle is closed twice. -/
theorem nodup_orbits_cycles (apart : graph.Apart) (explored : graph.Explored unvisited [])
    (ids : List String) : ((graph.cycles unvisited ids).map graph.orbit).Nodup := by
  induction ids generalizing unvisited with
  | nil => exact List.nodup_nil
  | cons id rest ih =>
    have walked := walked_of_explored apart explored id
    have unique := ih walked.explored
    change ((_ ++ graph.cycles _ rest).map graph.orbit).Nodup
    cases closed : (graph.walk unvisited [] id).2 with
    | none => simpa using unique
    | some name =>
      obtain ⟨cyclic, reached, _⟩ := walked.cyclic name closed
      simp only [Option.toList_some, List.singleton_append, List.map_cons, List.nodup_cons]
      refine ⟨?_, unique⟩
      intro repeated
      obtain ⟨other, member, same⟩ := List.mem_map.mp repeated
      obtain ⟨otherCyclic, remains, _⟩ := onCycle_of_mem_cycles apart walked.explored member
      have meets : ReflTransGen (Links graph) name other := by
        change other ∈ graph.orbit name
        rw [← same]
        exact .refl
      exact walked.not_mem_rest otherCyclic (reached.trans meets) remains

/-- The cycles that walks from some names close are the cycles that the names lead to. -/
theorem mem_orbits_cycles_iff (apart : graph.Apart) {ids : List String} {cycle : Set String} :
    cycle ∈ (graph.cycles graph.names ids).map graph.orbit ↔
      ∃ name, graph.OnCycle name ∧ graph.orbit name = cycle ∧
        ∃ id ∈ ids, ReflTransGen (Links graph) id name := by
  constructor
  · intro member
    obtain ⟨name, closed, same⟩ := List.mem_map.mp member
    obtain ⟨cyclic, _, reached⟩ := onCycle_of_mem_cycles apart explored_names closed
    exact ⟨name, cyclic, same, reached⟩
  · rintro ⟨name, cyclic, rfl, id, listed, reaches⟩
    have named := mem_names_of_declaredKind? cyclic.isAlias
    obtain ⟨other, closed, meets⟩ := exists_mem_cycles apart explored_names cyclic named listed reaches
    exact List.mem_map.mpr ⟨other, closed, (cyclic.orbit_eq meets).symm⟩

end WireModules.Resolve.AliasGraph
