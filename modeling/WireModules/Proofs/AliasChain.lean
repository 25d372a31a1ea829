import Mathlib.Logic.Relation
import WireModules.Program.Resolve

/-!
# Chains of aliases

What a name denotes, said without a list of visited names: the chain of aliases from the name ends
at a builtin type or at a declaration that is no alias. A chain that ends never comes back to where
it began, so following it over all declared names finds its end, and walking it closes no cycle.
-/

set_option autoImplicit false

namespace WireModules.Resolve.AliasGraph

open Relation

variable {graph : AliasGraph}

/-- A builtin type, with or without arguments. -/
def IsBuiltin (id : String) : Prop :=
  isBuiltinScalar id = true ∨ (genericArity? id).isSome = true

/-- An alias goes on to the name it is bound to. -/
def Links (graph : AliasGraph) (id next : String) : Prop :=
  ¬IsBuiltin id ∧ graph.declaredKind? id = some .alias ∧ graph.target? id = some next

/-- The chain of aliases from a name ends at a type of a kind. -/
inductive Denotes (graph : AliasGraph) : String → TypeKind → Prop where
  | scalar {id : String} : isBuiltinScalar id = true → Denotes graph id .scalar
  | vector {id : String} :
      isBuiltinScalar id = false → (genericArity? id).isSome = true → Denotes graph id .vector
  | declared {id : String} {kind : TypeKind} :
      ¬IsBuiltin id → graph.declaredKind? id = some kind → kind ≠ .alias → Denotes graph id kind
  | through {id next : String} {kind : TypeKind} :
      Links graph id next → Denotes graph next kind → Denotes graph id kind

theorem Links.unique {id first second : String} (left : Links graph id first)
    (right : Links graph id second) : first = second :=
  Option.some.inj (left.2.2.symm.trans right.2.2)

theorem Denotes.of_links {id next : String} {kind : TypeKind} (link : Links graph id next)
    (denotes : Denotes graph id kind) : Denotes graph next kind := by
  cases denotes with
  | scalar builtin => exact absurd (Or.inl builtin) link.1
  | vector _ builtin => exact absurd (Or.inr builtin) link.1
  | declared _ declared notAlias =>
    rw [link.2.1] at declared
    exact absurd (Option.some.inj declared).symm notAlias
  | through other denotes => exact link.unique other ▸ denotes

/-- A chain that ends does not come back to its beginning. -/
theorem Denotes.not_cyclic {id : String} {kind : TypeKind} (denotes : Denotes graph id kind) :
    ¬TransGen (Links graph) id id := by
  induction denotes with
  | scalar builtin =>
    intro cycle
    obtain ⟨_, link, _⟩ := TransGen.head'_iff.mp cycle
    exact link.1 (Or.inl builtin)
  | vector _ builtin =>
    intro cycle
    obtain ⟨_, link, _⟩ := TransGen.head'_iff.mp cycle
    exact link.1 (Or.inr builtin)
  | declared _ declared notAlias =>
    intro cycle
    obtain ⟨_, link, _⟩ := TransGen.head'_iff.mp cycle
    rw [link.2.1] at declared
    exact notAlias (Option.some.inj declared).symm
  | through link _ ih =>
    intro cycle
    obtain ⟨_, first, back⟩ := TransGen.head'_iff.mp cycle
    cases link.unique first
    exact ih (TransGen.tail' back link)

theorem mem_without {ids : List String} {id other : String} :
    other ∈ without ids id ↔ other ∈ ids ∧ other ≠ id := by
  simp [without]

/-- Following aliases from a name gives the kind it denotes, whatever names are left to visit. -/
theorem denotes_of_follow {unvisited : List String} {id : String} {kind : TypeKind}
    (found : graph.follow unvisited id = some kind) : Denotes graph id kind := by
  induction unvisited, id using follow.induct graph with
  | case1 unvisited id scalar =>
    rw [follow, if_pos scalar] at found
    exact Option.some.inj found ▸ .scalar scalar
  | case2 unvisited id notScalar vector =>
    rw [follow, if_neg notScalar, if_pos vector] at found
    exact Option.some.inj found ▸ .vector (by simpa using notScalar) vector
  | case3 unvisited id notScalar notVector isAlias fresh next target ih =>
    rw [follow, if_neg notScalar, if_neg notVector] at found
    simp only [isAlias, dif_pos fresh, target] at found
    exact .through ⟨not_or.mpr ⟨notScalar, notVector⟩, isAlias, target⟩ (ih found)
  | case4 unvisited id notScalar notVector isAlias fresh target =>
    rw [follow, if_neg notScalar, if_neg notVector] at found
    simp [isAlias, fresh, target] at found
  | case5 unvisited id notScalar notVector isAlias visited =>
    rw [follow, if_neg notScalar, if_neg notVector] at found
    simp [isAlias, visited] at found
  | case6 unvisited id notScalar notVector notAlias =>
    rw [follow, if_neg notScalar, if_neg notVector] at found
    have declared : graph.declaredKind? id = some kind := by
      split at found
      · next isAlias => exact absurd isAlias notAlias
      · exact found
    exact .declared (not_or.mpr ⟨notScalar, notVector⟩) declared fun isAlias =>
      notAlias (isAlias ▸ declared)

/-- A chain that ends is followed to its end if none of its aliases was visited before. -/
theorem Denotes.follow {unvisited : List String} {id : String} {kind : TypeKind}
    (denotes : Denotes graph id kind)
    (fresh : ∀ other next, ReflTransGen (Links graph) id other → Links graph other next →
      other ∈ unvisited) :
    graph.follow unvisited id = some kind := by
  induction denotes generalizing unvisited with
  | scalar builtin => rw [AliasGraph.follow, if_pos builtin]
  | vector notScalar builtin =>
    rw [AliasGraph.follow, if_neg (by simp [notScalar]), if_pos builtin]
  | @declared id kind notBuiltin declared notAlias =>
    obtain ⟨notScalar, notVector⟩ := not_or.mp notBuiltin
    rw [AliasGraph.follow, if_neg notScalar, if_neg notVector]
    split
    · next isAlias =>
      rw [isAlias] at declared
      exact absurd (Option.some.inj declared).symm notAlias
    · exact declared
  | @through id next kind link denotes ih =>
    obtain ⟨notScalar, notVector⟩ := not_or.mp link.1
    have unfollowed : id ∈ unvisited := fresh id next .refl link
    rw [AliasGraph.follow, if_neg notScalar, if_neg notVector]
    simp only [link.2.1, dif_pos unfollowed, link.2.2]
    apply ih
    intro other after reaches link'
    refine mem_without.mpr ⟨fresh other after (.head link reaches) link', ?_⟩
    rintro rfl
    exact (Denotes.through link denotes).not_cyclic (TransGen.head' link reaches)

theorem mem_names_of_declaredKind? {id : String} {kind : TypeKind}
    (declared : graph.declaredKind? id = some kind) : id ∈ graph.names := by
  obtain ⟨found, lookedUp, _⟩ := Option.map_eq_some_iff.mp declared
  obtain ⟨before, after, split, _⟩ := List.lookup_eq_some_iff.mp lookedUp
  rw [names, split]
  simp

/-- The final kind of a name is the kind at the end of its chain. -/
theorem finalKind_eq_some_iff {id : String} {kind : TypeKind} :
    graph.finalKind id = some kind ↔ Denotes graph id kind := by
  constructor
  · exact denotes_of_follow
  · intro denotes
    exact denotes.follow fun other next _ link => mem_names_of_declaredKind? link.2.1

end WireModules.Resolve.AliasGraph
