import WireModules.Glue.Binder
import WireModules.Proofs.Resolution
import WireModules.Proofs.SessionHistory
import WireModules.Session.Query

/-!
# The types that a session has recorded

After a compilation that gives a program, a session has the resolved types of the program's visible
modules, the last declaration of each name, and beside them what it had before.
-/

set_option autoImplicit false

namespace WireModules

namespace Loading

variable {sources : Sources} {loading : Loading}

/-- The events of reading have the records of the units that were read. -/
theorem Steps.records (steps : Steps sources opening loading) {infos : List TypeRecord}
    (recorded : CompileEvent.Records loading.events infos) :
    CompileEvent.Records (loading.units.map .parsed) infos := by
  induction steps generalizing infos with
  | refl => exact recorded
  | tail _ step ih =>
    cases step with
    | logged text =>
      obtain ⟨earlier, own, rfl, before, logged⟩ := recorded.append_inv
      cases logged with
      | cons silent rest =>
        cases silent
        cases rest
        rw [List.append_nil, List.append_nil]
        exact ih before
    | linked queued => exact ih recorded
    | input queued absent loaded =>
      obtain ⟨earlier, own, rfl, before, parsed⟩ := recorded.append_inv
      rw [units_withUnit, List.map_append]
      exact (ih before).append parsed
    | imported asks located absent loaded named =>
      obtain ⟨earlier, own, rfl, before, parsed⟩ := recorded.append_inv
      rw [units_withUnit, List.map_append]
      exact (ih before).append parsed

end Loading

namespace ProgramUnit

variable {units : List ProgramUnit}

theorem visibleIds_append (first second : List ProgramUnit) :
    visibleIds (first ++ second) = visibleIds first ++ visibleIds second := by
  rw [visibleIds, List.filter_append, List.flatMap_append]
  rfl

theorem typeIds_resolveUnit (unit : ProgramUnit) :
    typeIds (Resolve.resolveUnit (Resolve.scopeOf units unit) (Resolve.aliasGraph units) unit) =
      typeIds unit := by
  rw [typeIds, Resolve.declaredTypes_resolveUnit, List.map_map]
  rfl

/-- Resolution leaves alone what types are declared. -/
theorem visibleIds_resolution :
    visibleIds (Resolution.ofUnits units).units = visibleIds units := by
  simp only [visibleIds, Resolution.ofUnits, List.filter_map, List.flatMap_map, typeIds_resolveUnit]
  rfl

theorem nodup_names_of_mem_resolution (parsed : ∀ unit ∈ units, unit.IsParsed)
    {unit : ProgramUnit} (member : unit ∈ (Resolution.ofUnits units).units) :
    (unit.module.declaredTypes.map TypeDecl.name).Nodup := by
  obtain ⟨source, listed, rfl⟩ := List.mem_map.mp member
  rw [Resolve.declaredTypes_resolveUnit, List.map_map]
  exact (parsed source listed).parsed.nodup_names

end ProgramUnit

namespace CompileEvent.Records

open ProgramUnit

variable {units : List ProgramUnit} {infos : List TypeRecord} {event : ProgramUnit → CompileEvent}
  {phase : Bool}

theorem ids (about : ∀ unit, (event unit).records = unit.shownRecords phase)
    (recorded : Records (units.map event) infos) : infos.map TypeRecord.id = visibleIds units := by
  induction units generalizing infos with
  | nil =>
    cases recorded
    rfl
  | cons unit rest ih =>
    cases recorded with
    | cons own others =>
      rw [List.map_append, ids_of_shownRecords (about unit ▸ own), ih others]
      exact (visibleIds_append [unit] rest).symm

theorem phases (about : ∀ unit, (event unit).records = unit.shownRecords phase)
    (recorded : Records (units.map event) infos) : ∀ info ∈ infos, info.isResolved = phase := by
  induction units generalizing infos with
  | nil =>
    cases recorded
    simp
  | cons unit rest ih =>
    cases recorded with
    | cons own others =>
      exact List.forall_mem_append.mpr ⟨phase_of_shownRecords (about unit ▸ own), ih others⟩

/-- Among the records of some units, a name has the last declaration that users see. -/
theorem exists_last (about : ∀ unit, (event unit).records = unit.shownRecords phase)
    {earlier later : List ProgramUnit} {unit : ProgramUnit} {decl : TypeDecl}
    (recorded : Records ((earlier ++ unit :: later).map event) infos)
    (visible : unit.isUserVisible = true) (member : decl ∈ unit.module.declaredTypes)
    (distinct : (unit.module.declaredTypes.map TypeDecl.name).Nodup)
    (last : qualify unit.moduleId decl.name ∉ visibleIds later) :
    ∃ info, infos.reverse.find? (fun info => info.id = qualify unit.moduleId decl.name) =
      some info ∧ info.Describes unit decl phase := by
  rw [List.map_append, List.map_cons] at recorded
  obtain ⟨before, after, rfl, _, recorded⟩ := recorded.append_inv
  cases recorded with
  | @cons _ _ own more ownRecorded others =>
    have described := described_of_shownRecords visible (about unit ▸ ownRecorded)
    obtain ⟨first, info, rest, rfl, describes, fresh⟩ :=
      exists_split_of_described described member distinct
    -- Nothing recorded after it has its name: neither in its own unit nor in a later one.
    have absentRest : rest.reverse.find? (fun other =>
        decide (other.id = qualify unit.moduleId decl.name)) = none := by
      rw [List.find?_eq_none]
      intro other inside same
      exact fresh (List.mem_map.mpr ⟨other, List.mem_reverse.mp inside,
        (of_decide_eq_true same).trans describes.id.symm⟩)
    have absentMore : more.reverse.find? (fun other =>
        decide (other.id = qualify unit.moduleId decl.name)) = none := by
      rw [List.find?_eq_none]
      intro other inside same
      rw [← ids about others] at last
      exact last (List.mem_map.mpr ⟨other, List.mem_reverse.mp inside, of_decide_eq_true same⟩)
    refine ⟨info, ?_, describes⟩
    simp [List.find?_append, absentRest, absentMore, describes.id]

end CompileEvent.Records

/-- The records of a compilation's events: first the types of its units as written, then those of
its program. -/
theorem Compilation.records_of_ofQueue {files : FileSystem} {options : Options} {queue : Queue}
    {program : Program} {infos : List TypeRecord}
    (compiled : (ofQueue files options queue).outcome = .ok program)
    (recorded : CompileEvent.Records (ofQueue files options queue).events infos) :
    ∃ units written resolved, (∀ unit ∈ units, ProgramUnit.IsParsed unit) ∧
      program.units = (Resolution.ofUnits units).units ∧ infos = written ++ resolved ∧
      CompileEvent.Records (units.map .parsed) written ∧
      CompileEvent.Records (program.units.map .resolved) resolved := by
  obtain ⟨loading, read, rfl, events⟩ := ofQueue_ok compiled
  obtain ⟨steps, _⟩ := Loading.readProgram_ok read
  rw [events] at recorded
  obtain ⟨others, _, rfl, compiling, finished⟩ := recorded.append_inv
  obtain ⟨others, resolved, rfl, reading, resolvedRecorded⟩ := compiling.append_inv
  obtain ⟨written, _, rfl, writtenRecorded, logged⟩ := reading.append_inv
  cases finished with
  | cons silent rest =>
    cases silent
    cases rest
    cases logged with
    | cons silent rest =>
      cases silent
      cases rest
      refine ⟨loading.units, written, resolved, steps.isParsed, rfl, ?_,
        steps.records writtenRecorded, resolvedRecorded⟩
      simp

/-- What a registry has after a compilation, by the program and by what it had before. -/
structure Program.RecordedIn (program : Program) (before after : Registry) : Prop where
  latest : ∀ earlier unit later, program.units = earlier ++ unit :: later →
    unit.isUserVisible = true → ∀ decl ∈ unit.module.declaredTypes,
      qualify unit.moduleId decl.name ∉ ProgramUnit.visibleIds later →
        ∃ info, after.find? (qualify unit.moduleId decl.name) = some info ∧
          info.Describes unit decl true
  others : ∀ id, id ∉ ProgramUnit.visibleIds program.units → after.find? id = before.find? id
  resolved : ∀ info ∈ after.types, info.isResolved = true
  order : after.types.map TypeRecord.id =
    before.types.map TypeRecord.id ++ ((ProgramUnit.visibleIds program.units).filter fun id =>
      id ∉ before.types.map TypeRecord.id).eraseDups

namespace Session

variable {γ : Type} {environment : Environment γ} {before after : Session γ}

/-- The records of a session that has not failed. -/
structure Settled (session : Session γ) : Prop where
  resolved : ∀ info ∈ session.registry.types, info.isResolved = true
  distinct : (session.registry.types.map TypeRecord.id).Nodup

theorem recordedIn_of_compile (standard : environment.frontEnd = .standard)
    (calm : environment.host.IsCalm) {files : FileSystem} {program : Program}
    (ran : (compile environment files).run before = .ok (some program) after)
    (settled : Settled before) :
    program.RecordedIn before.registry after.registry ∧ Settled after := by
  obtain ⟨infos, compiled, recorded, _, took⟩ := compile_ok calm ran
  rw [compilation, standard] at compiled recorded
  obtain ⟨units, written, resolved, parsed, sameUnits, rfl, writtenRecorded, resolvedRecorded⟩ :=
    Compilation.records_of_ofQueue compiled recorded
  have types : after.registry.types =
      (written ++ resolved).foldl Registry.recordIn before.registry.types := congrArg Prod.fst took
  have writtenIds := writtenRecorded.ids fun _ => rfl
  have resolvedIds := resolvedRecorded.ids fun _ => rfl
  have phases := resolvedRecorded.phases fun _ => rfl
  have sameIds : written.map TypeRecord.id = resolved.map TypeRecord.id := by
    rw [writtenIds, resolvedIds, sameUnits, ProgramUnit.visibleIds_resolution]
  -- The second pass is over the same names and is resolved, so it hides all of the first.
  have found : ∀ id, after.registry.find? id =
      (resolved.reverse.find? fun info => info.id = id).or (before.registry.find? id) := by
    intro id
    rw [Registry.find?, types]
    exact Registry.find?_two_passes sameIds phases id
  have allResolved : ∀ info ∈ after.registry.types, info.isResolved = true := by
    rw [types]
    exact Registry.isResolved_two_passes sameIds phases settled.resolved settled.distinct
  have distinct : (after.registry.types.map TypeRecord.id).Nodup := by
    rw [types]
    exact Registry.nodup_ids_foldl_recordIn settled.distinct
  refine ⟨⟨?_, ?_, allResolved, ?_⟩, ⟨allResolved, distinct⟩⟩
  · intro earlier unit later split visible decl member last
    have listed : unit ∈ (Resolution.ofUnits units).units := by
      rw [← sameUnits, split]
      simp
    have names := ProgramUnit.nodup_names_of_mem_resolution parsed listed
    rw [split] at resolvedRecorded
    obtain ⟨info, isLast, describes⟩ :=
      resolvedRecorded.exists_last (fun _ => rfl) visible member names last
    exact ⟨info, by rw [found, isLast, Option.some_or], describes⟩
  · intro id undeclared
    rw [← resolvedIds] at undeclared
    have absent : resolved.reverse.find? (fun info => decide (info.id = id)) = none := by
      rw [List.find?_eq_none]
      intro info member same
      exact undeclared (List.mem_map.mpr ⟨info, List.mem_reverse.mp member, of_decide_eq_true same⟩)
    rw [found, absent, Option.none_or]
  · rw [types, Registry.ids_two_passes sameIds, resolvedIds]

theorem Settled.of_holdings (settled : Settled before) (same : after.holdings = before.holdings) :
    Settled after := by
  have types : after.registry.types = before.registry.types := congrArg Prod.fst same
  exact ⟨types ▸ settled.resolved, types ▸ settled.distinct⟩

/-- A session that has not failed holds resolved records only, one for a name. -/
theorem settled_of_reached (standard : environment.frontEnd = .standard)
    (calm : environment.host.IsCalm) {session : Session γ} (reached : Reached environment session) :
    session.isFailed = true ∨ Settled session := by
  induction reached with
  | start options glue => exact .inr ⟨by simp [start], by simp [start]⟩
  | @load session files requested base _ ih =>
    have keeps : Action.Keeps holdings (load environment files requested base) :=
      keeps_load files requested base
    have same := keeps session
    rcases ih with failed | settled
    · exact .inl ((congrArg Prod.snd same).trans failed)
    · exact .inr (settled.of_holdings same)
  | @compile session files _ ih =>
    rcases compile_cases files session with ⟨program, after, ran, ended⟩ | same | failed
    · obtain ⟨_, _, _, ongoing, _⟩ := compile_ok calm ran
      have settled := ih.resolve_left (by simp [ongoing])
      rw [ended]
      exact .inr (recordedIn_of_compile standard calm ran settled).2
    · rcases ih with failed | settled
      · exact .inl ((congrArg Prod.snd same).trans failed)
      · exact .inr (settled.of_holdings same)
    · exact .inl failed

/-- Whatever was loaded and compiled before, a compilation that gives a program leaves the types of
that program in the registry and all other types as they were. -/
theorem recordedIn_of_reached (standard : environment.frontEnd = .standard)
    (calm : environment.host.IsCalm) {files : FileSystem} {program : Program}
    (reached : Reached environment before)
    (ran : (compile environment files).run before = .ok (some program) after) :
    program.RecordedIn before.registry after.registry := by
  obtain ⟨_, _, _, ongoing, _⟩ := compile_ok calm ran
  have settled := (settled_of_reached standard calm reached).resolve_left (by simp [ongoing])
  exact (recordedIn_of_compile standard calm ran settled).1

end Session

/-- A directory with one module. -/
def moduleDirectory (text : String) : FileSystem :=
  .ofEntries [("m.weft", .file text.toUTF8.toList)]

def firstEdition : FileSystem :=
  moduleDirectory "module m;\ntype A = bool;\ntype B = A;\n"

def secondEdition : FileSystem :=
  moduleDirectory "module m;\ntype C = real;\ntype A = C;\n"

namespace Session

theorem isCalm_silent : Host.silent.IsCalm := by
  intro earlier event closes
  cases closes

/-- A session that has compiled a module and has loaded it again after an edit. -/
def reloading : Session GlueBinder :=
  let loaded := (load .standard firstEdition (.ofString "m.weft") none).finalState
    (start .standard .plain {})
  let compiled := (compile .standard firstEdition).finalState loaded
  (load .standard secondEdition (.ofString "m.weft") none).finalState compiled

theorem reached_reloading : Reached .standard reloading :=
  .load _ _ _ (.compile _ (.load _ _ _ (.start _ _)))

/-- The edited module is compiled: it is recorded beside a type that it does not declare any
more. -/
theorem recordedIn_reloading :
    reloading.types.map TypeRecord.id = ["m::A", "m::B"] ∧
      ∃ program after, (compile .standard secondEdition).run reloading = .ok (some program) after ∧
        program.RecordedIn reloading.registry after.registry := by
  have compiled : ((compile .standard secondEdition).outcome? reloading).join.isSome = true := by
    decide +kernel
  obtain ⟨program, given⟩ := Option.isSome_iff_exists.mp compiled
  obtain ⟨after, ran⟩ := Action.exists_of_outcome?_eq_some (Option.join_eq_some_iff.mp given)
  refine ⟨by decide +kernel, program, after, ran, ?_⟩
  exact recordedIn_of_reached rfl isCalm_silent reached_reloading ran

end Session

end WireModules
