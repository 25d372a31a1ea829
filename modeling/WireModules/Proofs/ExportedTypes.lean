import WireModules.Proofs.CompileSteps
import WireModules.Proofs.FailedSessions
import WireModules.Proofs.HostNames

/-!
# Two ways to ask for the exported types

A session can be asked for the records that are exported and for the exports with their host names.
The one goes over the registry, the other over what glue files ask for and over the list of public
enums. Both find the same names, because an enum is recorded before it is listed, and a registry
that forgets its records forgets the list too.
-/

set_option autoImplicit false

namespace WireModules

/-! ## The list of enums and the records -/

namespace Registry

/-- Every enum on the list has a record under its name, and is listed once for each file. -/
structure Coherent (registry : Registry) : Prop where
  recorded : ∀ listed ∈ registry.listedEnums, registry.contains listed.id = true
  distinct : registry.listedEnums.Pairwise fun first second =>
    ¬(first.id = second.id ∧ first.modulePath = second.modulePath)

variable {registry : Registry} {info : TypeRecord}

theorem coherent_of_unlisted (unlisted : registry.listedEnums = []) : registry.Coherent := by
  constructor
  · simp [unlisted]
  · simp [unlisted]

theorem contains_iff_mem {id : String} :
    registry.contains id = true ↔ id ∈ registry.types.map TypeRecord.id := by
  rw [contains, find?, List.find?_isSome, List.mem_map]
  simp

/-- Recording forgets no name. -/
theorem contains_of_record {recording : Recording} (recorded : registry.record info = .ok recording)
    (id : String) :
    recording.registry.contains id = true ↔ registry.contains id = true ∨ id = info.id := by
  rw [contains_iff_mem, contains_iff_mem, types_of_record recorded, ids_recordIn]
  split
  · next known =>
    constructor
    · exact .inl
    · rintro (held | rfl)
      · exact held
      · exact known
  · rw [List.mem_append, List.mem_singleton]

theorem Coherent.record (coherent : registry.Coherent) {recording : Recording}
    (recorded : registry.record info = .ok recording) : recording.registry.Coherent := by
  obtain ⟨_, sameList, _⟩ := record_ok recorded
  constructor
  · rw [sameList]
    intro listed member
    exact (contains_of_record recorded listed.id).mpr (.inl (coherent.recorded listed member))
  · rw [sameList]
    exact coherent.distinct

theorem Coherent.listEnum (coherent : registry.Coherent) (known : registry.contains info.id = true) :
    (registry.listEnum info).Coherent := by
  rw [Registry.listEnum]
  split
  · exact coherent
  · next fresh =>
    constructor
    · exact List.forall_mem_append.mpr ⟨coherent.recorded, List.forall_mem_singleton.mpr known⟩
    · refine List.pairwise_append.mpr ⟨coherent.distinct, List.pairwise_singleton .., ?_⟩
      intro listed member other own same
      cases List.mem_singleton.mp own
      exact fresh (List.any_eq_true.mpr ⟨listed, member, by simpa using same⟩)

end Registry

namespace Session

variable {γ : Type} {environment : Environment γ} {session : Session γ}

/-! ## What every step keeps -/

/-- Wherever an action ends that begins with a coherent registry, the registry is coherent. -/
def Coheres {α : Type} (action : Action (Session γ) α) : Prop :=
  Action.Reaches (fun before after => before.registry.Coherent → after.registry.Coherent) action

namespace Coheres

variable {α β : Type} {action : Action (Session γ) α} {next : α → Action (Session γ) β}

theorem of_keeps (keeps : Action.Keeps registry action) : Coheres action := by
  intro before coherent
  rw [keeps before]
  exact coherent

theorem bind (first : Coheres action) (later : ∀ value, Coheres (next value)) :
    Coheres (action >>= next) := by
  have composed : Action.Reaches _ (action >>= next) :=
    .bind (fun _ _ _ own others coherent => others (own coherent)) first later
  exact composed

theorem forM {items : List α} {step : α → Action (Session γ) PUnit}
    (each : ∀ item, Coheres (step item)) : Coheres (items.forM step) := by
  have composed : Action.Reaches _ (items.forM step) :=
    .forM (fun _ coherent => coherent)
      (fun _ _ _ own others coherent => others (own coherent)) each
  exact composed

end Coheres

theorem keeps_registry_ask {α : Type} (request : GlueRequest) (consult : γ → Reply γ α)
    (granted : α → Bool) : Action.Keeps registry (ask request consult granted) := by
  intro before
  obtain ⟨_, ended⟩ := finalState_ask request consult granted before
  rw [ended]
  rfl

theorem coheres_say (text : String) : Coheres (say text : Action (Session γ) _) :=
  .of_keeps fun _ => rfl

theorem coheres_close : Coheres (close : Action (Session γ) _) :=
  fun _ _ => Registry.coherent_of_unlisted rfl

theorem coheres_tell (event : HostEvent) : Coheres (tell environment event) := by
  refine .bind (.of_keeps .get) fun session => ?_
  refine .bind (.of_keeps fun _ => rfl) fun _ => ?_
  split
  · exact .of_keeps (.pure _)
  · exact coheres_close
  · exact .of_keeps (.throw _)

theorem coheres_record (info : TypeRecord) : Coheres (record info : Action (Session γ) _) := by
  intro before coherent
  rw [Action.finalState, run_record]
  cases recorded : before.registry.record info with
  | error reason => exact coherent
  | ok recording => exact coherent.record recorded

/-- An enum is listed only after it has been recorded. -/
theorem coheres_noteWritten (info : TypeRecord) : Coheres (noteWritten environment info) := by
  refine .bind (coheres_say _) fun _ before coherent => ?_
  rw [Action.finalState, EStateM.run_bind, run_record]
  cases recorded : before.registry.record info with
  | error reason => exact coherent
  | ok recording =>
    have kept : recording.registry.Coherent := coherent.record recorded
    have known : recording.registry.contains info.id = true :=
      (Registry.contains_of_record recorded info.id).mpr (.inr rfl)
    have told : Coheres (tell environment (.newType info)) := coheres_tell _
    dsimp only
    by_cases isListed : isPublicEnum info = true
    · rw [if_pos isListed]
      exact told { before.withRecording recording with
        registry := recording.registry.listEnum info
        trace := _ } (kept.listEnum known)
    · rw [if_neg isListed]
      exact told (before.withRecording recording) kept

theorem coheres_noteResolved (info : TypeRecord) : Coheres (noteResolved environment info) := by
  refine .bind (coheres_say _) fun _ => .bind (coheres_record info) fun _ => ?_
  refine .bind (coheres_tell _) fun _ => ?_
  split
  · exact coheres_tell _
  · exact .of_keeps (.pure _)

theorem coheres_programFinished : Coheres (programFinished environment) := by
  refine .bind (.of_keeps .get) fun session => ?_
  split
  · exact .of_keeps (.pure _)
  refine .bind (.of_keeps fun _ => rfl) fun _ => .bind (coheres_say _) fun _ => ?_
  refine .bind (.of_keeps (keeps_registry_ask _ _ _)) fun granted => ?_
  split
  · exact .of_keeps (.throw _)
  · exact .of_keeps (.pure _)

theorem compileSteps_coheres : CompileSteps environment fun before after : Session γ =>
    before.registry.Coherent → after.registry.Coherent where
  refl _ coherent := coherent
  trans _ _ _ own others coherent := others (own coherent)
  written := coheres_noteWritten
  resolved := coheres_noteResolved
  announced _ _ := Coheres.of_keeps (keeps_registry_ask _ _ _)
  finished := coheres_programFinished
  begun _ coherent := coherent
  settled _ coherent := coherent
  failed _ coherent := coherent

theorem coheres_compile (files : FileSystem) : Coheres (compile environment files) :=
  fun _ => compileSteps_coheres.compile fun _ _ => Coheres.of_keeps fun _ => rfl

theorem coherent_perform (session : Session γ) (operation : Operation)
    (coherent : session.registry.Coherent) :
    (perform environment session operation).registry.Coherent := by
  cases operation with
  | load files requested base =>
    have same : (perform environment session (.load files requested base)).registry =
        session.registry :=
      congrArg Prod.fst (keeps_registry_load files requested base session)
    rw [same]
    exact coherent
  | compile files => exact coheres_compile files session coherent
  | parsed unit => exact compileSteps_coheres.unitParsed unit session coherent
  | resolved unit => exact compileSteps_coheres.unitResolved unit session coherent
  | finished program => exact coheres_programFinished session coherent
  | close => exact coheres_close session coherent

theorem coherent_performAll (operations : List Operation) (coherent : session.registry.Coherent) :
    (performAll environment session operations).registry.Coherent := by
  induction operations generalizing session with
  | nil => exact coherent
  | cons operation rest ih => exact ih (coherent_perform session operation coherent)

/-! ## The answers -/

theorem nodup_ids_firstOfEach (seen : List String) (infos : List TypeRecord) :
    ((firstOfEach seen infos).map TypeRecord.id).Nodup ∧
      ∀ kept ∈ firstOfEach seen infos, kept.id ∉ seen := by
  induction infos generalizing seen with
  | nil => simp [firstOfEach]
  | cons first rest ih =>
    rw [firstOfEach]
    split
    · exact ih seen
    · next fresh =>
      obtain ⟨distinct, unseen⟩ := ih (first.id :: seen)
      have own : first.id ∉ (firstOfEach (first.id :: seen) rest).map TypeRecord.id := by
        intro member
        obtain ⟨kept, inside, same⟩ := List.mem_map.mp member
        exact unseen kept inside (same ▸ .head _)
      refine ⟨List.nodup_cons.mpr ⟨own, distinct⟩, List.forall_mem_cons.mpr ⟨?_, ?_⟩⟩
      · simpa using fresh
      · exact fun kept inside known => unseen kept inside (.tail _ known)

theorem hosts_automaticExports :
    session.automaticExports.map Prod.snd =
      (firstOfEach [] session.listedEnums).map TypeRecord.id := by
  rw [automaticExports, List.map_map]
  rfl

theorem mem_hosts_automaticExports (id : String) :
    id ∈ session.automaticExports.map Prod.snd ↔ id ∈ session.listedEnums.map TypeRecord.id := by
  constructor
  · intro member
    obtain ⟨⟨info, host⟩, exported, rfl⟩ := List.mem_map.mp member
    obtain ⟨_, listed, isListed, named⟩ := mem_automaticExports exported
    exact List.mem_map.mpr ⟨listed, isListed, named⟩
  · intro member
    obtain ⟨listed, isListed, rfl⟩ := List.mem_map.mp member
    obtain ⟨info, exported⟩ := exists_automaticExport isListed
    exact List.mem_map_of_mem exported

/-- An enum that has a record is exported by that record, whatever it was when it was listed. -/
theorem find?_of_automaticExport (coherent : session.registry.Coherent)
    {entry : TypeRecord × String} (exported : entry ∈ session.automaticExports) :
    session.registry.find? entry.2 = some entry.1 := by
  obtain ⟨listed, kept, rfl⟩ := List.mem_map.mp exported
  have known := coherent.recorded listed (mem_of_mem_firstOfEach kept)
  obtain ⟨present, found⟩ := Option.isSome_iff_exists.mp known
  simp [found]

/-- The names under which records are exported: those that are asked for and recorded, and those of
listed enums. -/
theorem mem_ids_exports (id : String) :
    id ∈ (session.exports environment).map (fun entry => entry.1.id) ↔
      id ∈ (session.requestedExports environment).map Prod.fst ∧
          session.registry.contains id = true ∨
        id ∈ session.listedEnums.map TypeRecord.id := by
  rw [exports, List.map_append, List.mem_append]
  refine or_congr ⟨?_, ?_⟩ ⟨?_, ?_⟩
  · intro member
    obtain ⟨⟨info, host⟩, exported, rfl⟩ := List.mem_map.mp member
    obtain ⟨asked, found⟩ := mem_recordedExports.mp exported
    exact ⟨List.mem_map_of_mem asked, by simp [Registry.contains, found]⟩
  · rintro ⟨asked, known⟩
    obtain ⟨⟨_, host⟩, requested, rfl⟩ := List.mem_map.mp asked
    obtain ⟨info, found⟩ := Option.isSome_iff_exists.mp known
    have named : info.id = _ := id_of_find? found
    refine List.mem_map.mpr ⟨(info, host), mem_recordedExports.mpr ?_, named⟩
    rw [named]
    exact ⟨requested, found⟩
  · intro member
    obtain ⟨⟨info, host⟩, exported, rfl⟩ := List.mem_map.mp member
    rw [(mem_automaticExports exported).1, ← mem_hosts_automaticExports]
    exact List.mem_map_of_mem exported
  · intro member
    obtain ⟨listed, isListed, rfl⟩ := List.mem_map.mp member
    obtain ⟨info, exported⟩ := exists_automaticExport isListed
    exact List.mem_map.mpr ⟨_, exported, (mem_automaticExports exported).1⟩

theorem mem_ids_exportedRecords (id : String) :
    id ∈ (session.exportedRecords environment).map TypeRecord.id ↔
      session.registry.contains id = true ∧
        (id ∈ (session.requestedExports environment).map Prod.fst ∨
          id ∈ session.listedEnums.map TypeRecord.id) := by
  rw [exportedRecords, Registry.exportedTypes, Registry.contains_iff_mem]
  constructor
  · intro member
    obtain ⟨info, kept, rfl⟩ := List.mem_map.mp member
    obtain ⟨recorded, exported⟩ := List.mem_filter.mp kept
    refine ⟨List.mem_map_of_mem recorded, ?_⟩
    simpa [listedEnums] using exported
  · rintro ⟨known, exported⟩
    obtain ⟨info, recorded, rfl⟩ := List.mem_map.mp known
    refine List.mem_map_of_mem (List.mem_filter.mpr ⟨recorded, ?_⟩)
    simpa [listedEnums] using exported

/-- Whatever is done with a session, in whatever order and with whatever host and coordinator: the
exports and the exported records are of the same names; every listed enum is recorded, so that it is
exported by its present record; the exports made unasked are one for each name on the list; and the
list has no two entries for one name and file. -/
theorem exports_agree (environment : Environment γ) (options : Options) (glue : γ)
    (operations : List Operation) :
    let session := performAll environment (start environment options glue) operations
    (∀ id, id ∈ (session.exports environment).map (fun entry => entry.1.id) ↔
        id ∈ (session.exportedRecords environment).map TypeRecord.id) ∧
      (∀ listed ∈ session.listedEnums, session.registry.contains listed.id = true) ∧
      (∀ entry ∈ session.automaticExports, session.registry.find? entry.2 = some entry.1) ∧
      (session.automaticExports.map Prod.snd).Nodup ∧
      (∀ id, id ∈ session.automaticExports.map Prod.snd ↔
        id ∈ session.listedEnums.map TypeRecord.id) ∧
      session.listedEnums.Pairwise fun first second =>
        ¬(first.id = second.id ∧ first.modulePath = second.modulePath) := by
  intro session
  have coherent : session.registry.Coherent :=
    coherent_performAll operations (Registry.coherent_of_unlisted rfl)
  refine ⟨fun id => ?_, coherent.recorded, fun _ => find?_of_automaticExport coherent, ?_,
    mem_hosts_automaticExports, coherent.distinct⟩
  · rw [mem_ids_exports, mem_ids_exportedRecords, and_or_left, and_comm]
    refine or_congr_right (and_iff_right_of_imp fun member => ?_).symm
    obtain ⟨listed, isListed, rfl⟩ := List.mem_map.mp member
    exact coherent.recorded listed isListed
  · rw [hosts_automaticExports]
    exact (nodup_ids_firstOfEach [] session.listedEnums).1

end Session

end WireModules
