import WireModules.Proofs.AliasOrbit
import WireModules.Proofs.Annotation
import WireModules.Proofs.Delivery

/-!
# What compiling takes for granted

Reading gives units whose types go by their qualified names, and resolution gives each of these types
a definition, so that their records can be made. An alias has a target, and the way along aliases from
a bound name never leaves the names that are known.
-/

set_option autoImplicit false

namespace WireModules

namespace Resolve

open Relation

variable {units : List ProgramUnit}

/-- What resolution relies on when it tells the kinds of types: an alias has something to stand for,
and all names that are come to, from those that references are bound to, are builtin or declared. -/
structure Grounded (units : List ProgramUnit) : Prop where
  targets : ∀ declared ∈ declarations units, (boundDefinition units declared).kind = .alias →
    (boundDefinition units declared).target.isSome = true
  known : ∀ met ∈ metIds units, ∀ id ∈ (aliasGraph units).orbit met, (aliasGraph units).Knows id

/-- An alias stands for a known name. -/
theorem knows_of_links (parsed : ∀ unit ∈ units, unit.IsParsed) {id next : String}
    (link : (aliasGraph units).Links id next) : (aliasGraph units).Knows next := by
  obtain ⟨_, isAlias, target⟩ := link
  obtain ⟨declared, found, declaredAlias⟩ := Option.map_eq_some_iff.mp isAlias
  rw [AliasGraph.target?, lookup_targets parsed found declaredAlias, Option.join_some] at target
  obtain ⟨bound, isTarget, resolved⟩ := Option.bind_eq_some_iff.mp target
  obtain ⟨source, _, rfl⟩ := Option.map_eq_some_iff.mp isTarget
  exact knows_of_mem_nodes (TypeRef.mem_nodes_self _) resolved

theorem grounded_of_isParsed (parsed : ∀ unit ∈ units, unit.IsParsed) : Grounded units where
  targets declared member isAlias := by
    obtain ⟨unitMember, inside⟩ := mem_declarations_iff.mp member
    have written := (parsed _ unitMember).parsed.asWritten inside
    rw [boundDefinition, bindDefinition, TypeDef.replaceRefs, Option.isSome_map]
    exact written.aliased isAlias
  known met member id inside := by
    have way : ReflTransGen (aliasGraph units).Links met id := inside
    cases way with
    | refl => exact knows_of_mem_metIds member
    | tail _ link => exact knows_of_links parsed link

end Resolve

/-- The records of every parsed unit can be made, and once it is resolved they can be made again. -/
theorem ProgramUnit.exists_records (scope : Resolve.Scope) (graph : Resolve.AliasGraph)
    {source : ProgramUnit} (parsed : source.IsParsed) :
    ∃ before after, source.records false = .ok before ∧
      (Resolve.resolveUnit scope graph source).records true = .ok after := by
  by_cases hidden : (source.hasNoFile || source.isInternal) = true
  · exact ⟨[], [], if_pos hidden, if_pos hidden⟩
  · have onDisk : source.path.isSome = true := by
      simp only [Bool.or_eq_true, not_or, hasNoFile, Option.isNone_iff_eq_none] at hidden
      exact Option.isSome_iff_ne_none.mpr hidden.1
    have notInternal : source.isInternal = false := by
      simp only [Bool.or_eq_true, not_or, Bool.not_eq_true] at hidden
      exact hidden.2
    obtain ⟨before, after, recorded, recordedAfter, _⟩ :=
      ProgramUnit.sameRecords_resolveUnit parsed.parsed onDisk notInternal parsed.ownName
    exact ⟨before, after, recorded, recordedAfter⟩

theorem ProgramUnit.isSome_path {unit : ProgramUnit} (visible : unit.isUserVisible = true) :
    unit.path.isSome = true := by
  cases placed : unit.path with
  | none => simp [isUserVisible, hasNoFile, placed] at visible
  | some path => rfl

/-- What a session relies on when it is told of an event: the types of a unit have records, and a unit
that users see stands in a file. -/
def CompileEvent.Extracts : CompileEvent → Prop
  | .parsed unit => ∃ infos, unit.records false = .ok infos
  | .resolved unit =>
    (∃ infos, unit.records true = .ok infos) ∧
      (unit.isUserVisible = true → unit.path.isSome = true)
  | _ => True

namespace Compilation

variable {files : FileSystem} {options : Options} {queue : Queue}

theorem extracts_of_mem_events {event : CompileEvent}
    (member : event ∈ (ofQueue files options queue).events) : event.Extracts := by
  have parsed := (Loading.ended_ofQueue files options queue).isParsed
  have hooks : (ofQueue files options queue).events.filter CompileEvent.isHook ⊆
      (Loading.ofQueue files options queue).hooks := by
    rcases hooks_ofQueue files options queue with ⟨_, hooks⟩ | ⟨_, _, hooks⟩
    · rw [hooks, Loading.hooks, List.append_assoc]
      exact List.subset_append_left _ _
    · exact hooks ▸ List.Subset.refl _
  cases event with
  | logged record => trivial
  | finished program => trivial
  | parsed unit =>
    have listed := hooks (List.mem_filter.mpr ⟨member, rfl⟩)
    simp only [Loading.hooks, List.mem_append, List.mem_map, List.mem_singleton,
      CompileEvent.parsed.injEq, reduceCtorEq, and_false, exists_false, or_false,
      exists_eq_right] at listed
    obtain ⟨before, _, recorded, _⟩ := ProgramUnit.exists_records (Resolve.scopeOf [] unit)
      (Resolve.aliasGraph []) (parsed unit listed)
    exact ⟨before, recorded⟩
  | resolved unit =>
    have listed := hooks (List.mem_filter.mpr ⟨member, rfl⟩)
    simp only [Loading.hooks, List.mem_append, List.mem_map, List.mem_singleton,
      CompileEvent.resolved.injEq, reduceCtorEq, and_false, exists_false, or_false, false_or,
      exists_eq_right] at listed
    obtain ⟨source, inside, rfl⟩ := List.mem_map.mp listed
    obtain ⟨_, after, _, recorded⟩ := ProgramUnit.exists_records _ _ (parsed source inside)
    exact ⟨⟨after, recorded⟩, ProgramUnit.isSome_path⟩

end Compilation

end WireModules
