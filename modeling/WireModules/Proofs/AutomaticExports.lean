import WireModules.Proofs.RecordedTypes

/-!
# Types exported without being asked for

A name is exported to the host from when an enum was declared under it that is public. It stays so,
and what is exported is the record that the name has, whatever was declared under it since.
-/

set_option autoImplicit false

namespace WireModules

namespace Session

variable {γ : Type} {environment : Environment γ} {session : Session γ} {record : TypeRecord}

theorem mem_types_iff_governing (calm : environment.host.IsCalm)
    (reached : Reached environment session) :
    record ∈ session.registry.types ↔
      Registry.governing session.toldTypes record.id = some record := by
  obtain ⟨log, replays, _⟩ := replayed_of_reached calm reached
  have types : session.registry.types = session.toldTypes.foldl Registry.recordIn [] :=
    replays.types
  rw [← Registry.find?_foldl_recordIn, ← types]
  constructor
  · intro member
    refine Registry.find?_of_mem ?_ member
    rw [types]
    exact Registry.nodup_ids_foldl_recordIn (by simp)
  · exact List.mem_of_find?_eq_some

theorem listed_iff_told (calm : environment.host.IsCalm) (reached : Reached environment session)
    (id : String) :
    (∃ listed ∈ session.registry.listedEnums, listed.id = id) ↔
      ∃ info ∈ session.toldTypes, info.id = id ∧ info.isResolved = false ∧ isPublicEnum info := by
  obtain ⟨log, replays, _⟩ := replayed_of_reached calm reached
  have listed := replays.listed id
  simpa using listed

theorem mem_of_governing {infos : List TypeRecord} {id : String}
    (governs : Registry.governing infos id = some record) : record ∈ infos := by
  rcases Option.or_eq_some_iff.mp governs with resolved | ⟨_, last⟩
  · exact List.mem_reverse.mp (List.mem_of_find?_eq_some resolved)
  · exact List.mem_reverse.mp (List.mem_of_find?_eq_some last)

/-- Where no export asks for a name, its record is exported if the host was told of a public enum of the
name at any time, when it was recorded unresolved, and the record is the one that counts of all of the
name that it was told of. So it is a public enum itself as long as the host is told of nothing else of
the name. What could not be recorded, the host is not told of. -/
theorem exported_unasked (calm : environment.host.IsCalm) (reached : Reached environment session)
    (unasked : record.id ∉ (session.requestedExports environment).map Prod.fst) :
    (record ∈ session.exportedRecords environment ↔
      Registry.governing session.toldTypes record.id = some record ∧
        ∃ info ∈ session.toldTypes, info.id = record.id ∧ info.isResolved = false ∧
          isPublicEnum info) ∧
      (record ∈ session.exportedRecords environment →
        (∀ info ∈ session.toldTypes, info.id = record.id → isPublicEnum info) →
          isPublicEnum record) := by
  have exported : record ∈ session.exportedRecords environment ↔
      record ∈ session.registry.types ∧
        ∃ listed ∈ session.registry.listedEnums, listed.id = record.id := by
    rw [exportedRecords, Registry.exportedTypes, List.mem_filter]
    simp [unasked]
  rw [exported, mem_types_iff_governing calm reached, listed_iff_told calm reached]
  refine ⟨Iff.rfl, ?_⟩
  rintro ⟨governs, _⟩ all
  exact all record (mem_of_governing governs) rfl

end Session

def enumEdition : FileSystem :=
  moduleDirectory "module m;\npublic type T = enum \x7b X \x7d;\n"

def structEdition : FileSystem :=
  moduleDirectory "module m;\ntype T = struct \x7b \x7d;\n"

namespace Session

/-- A session that has compiled a module with a public enum and then the same module with a struct
of that name. -/
def retyped : Session GlueBinder :=
  let loaded := (load .standard enumEdition (.ofString "m.weft") none).finalState
    (start .standard .plain {})
  let compiled := (compile .standard enumEdition).finalState loaded
  let reloaded := (load .standard structEdition (.ofString "m.weft") none).finalState compiled
  (compile .standard structEdition).finalState reloaded

theorem reached_retyped : Reached .standard retyped :=
  .compile _ (.load _ _ _ (.compile _ (.load _ _ _ (.start _ _))))

theorem exists_exported_retyped : ∃ record ∈ retyped.exportedRecords .standard,
    record.id ∉ (retyped.requestedExports .standard).map Prod.fst ∧ ¬ isPublicEnum record := by
  decide +kernel

theorem exported_unasked_retyped : Reached .standard retyped ∧
    ∃ record : TypeRecord, record.id ∉ (retyped.requestedExports .standard).map Prod.fst ∧
      (record ∈ retyped.exportedRecords .standard ↔
        Registry.governing retyped.toldTypes record.id = some record ∧
          ∃ info ∈ retyped.toldTypes, info.id = record.id ∧ info.isResolved = false ∧
            isPublicEnum info) ∧
      (record ∈ retyped.exportedRecords .standard →
        (∀ info ∈ retyped.toldTypes, info.id = record.id → isPublicEnum info) →
          isPublicEnum record) := by
  obtain ⟨record, _, unasked, _⟩ := exists_exported_retyped
  exact ⟨reached_retyped, record, unasked, exported_unasked isCalm_silent reached_retyped unasked⟩

/-- A private struct is exported unasked, since a public enum went by its name before. -/
theorem exported_not_public_enum :
    ¬ ∀ (session : Session GlueBinder), Reached .standard session →
      ∀ record ∈ session.exportedRecords .standard,
        record.id ∉ (session.requestedExports .standard).map Prod.fst → isPublicEnum record := by
  intro always
  obtain ⟨record, exported, unasked, other⟩ := exists_exported_retyped
  exact other (always retyped reached_retyped record exported unasked)

end Session

end WireModules
