import WireModules.Proofs.GlueCompilation
import WireModules.Proofs.RecordedTypes

/-!
# Names by which the host knows types

Glue code that compiles asks for known types only and never for two types under one host name. Public
enums are exported beside what it asks for, under their own names, and these are not looked at when
the glue code is compiled.
-/

set_option autoImplicit false

namespace WireModules

namespace Glue

variable {registry : Registry} {holders : Holders} {directive : ExportDirective}
  {exports : List ExportDirective}

/-- One host name stands for one type in some exports. -/
def Agree (exports : List ExportDirective) : Prop :=
  ∀ first ∈ exports, ∀ second ∈ exports, first.host = second.host → first.source = second.source

theorem Agree.of_subset {some : List ExportDirective} (agree : Agree exports)
    (subset : some ⊆ exports) : Agree some :=
  fun first member second memberToo => agree first (subset member) second (subset memberToo)

theorem Agree.cons (agree : Agree holders)
    (fits : ∀ held ∈ holders, held.host = directive.host → held.source = directive.source) :
    Agree (directive :: holders) := by
  intro first member second memberToo sameHost
  rcases List.mem_cons.mp member with rfl | held
  · rcases List.mem_cons.mp memberToo with rfl | heldToo
    · rfl
    · exact (fits second heldToo sameHost.symm).symm
  · rcases List.mem_cons.mp memberToo with rfl | heldToo
    · exact fits first held sameHost
    · exact agree first held second heldToo sameHost

theorem exportDefect?_eq_none (agree : Agree holders) :
    exportDefect? registry holders directive = none ↔
      registry.contains directive.source = true ∧ Agree (directive :: holders) := by
  rw [exportDefect?]
  cases known : registry.contains directive.source with
  | false => simp
  | true =>
    rw [if_neg (by simp)]
    cases found : holder? holders directive.host with
    | none =>
      have free : ∀ held ∈ holders, held.host = directive.host → held.source = directive.source := by
        intro held member same
        exact absurd (decide_eq_true same) (List.find?_eq_none.mp found held member)
      simpa using agree.cons free
    | some held =>
      have sameHost : held.host = directive.host := by simpa using List.find?_some found
      have member : held ∈ holders := List.mem_of_find?_eq_some found
      dsimp only
      constructor
      · intro accepted
        have sameSource : held.source = directive.source := by
          by_contra other
          rw [if_neg other] at accepted
          cases accepted
        refine ⟨rfl, agree.cons fun other inside sameToo => ?_⟩
        exact (agree other inside held member (sameToo.trans sameHost.symm)).trans sameSource
      · rintro ⟨_, agreeMore⟩
        exact if_pos (agreeMore held (.tail _ member) directive (.head _) sameHost)

/-- Exports have no defect exactly if their types are known and no host name is given to two. -/
theorem exportDefects_eq_nil (agree : Agree holders) :
    exportDefects registry holders exports = [] ↔
      (∀ directive ∈ exports, registry.contains directive.source = true) ∧
        Agree (exports ++ holders) := by
  induction exports generalizing holders with
  | nil => simp [exportDefects, agree]
  | cons directive rest ih =>
    have own : exportDefect? registry holders directive = none ↔ _ := exportDefect?_eq_none agree
    rw [exportDefects, List.forall_mem_cons]
    cases found : exportDefect? registry holders directive with
    | some defect =>
      rw [found] at own
      constructor
      · intro empty
        cases empty
      · rintro ⟨⟨known, _⟩, agreeAll⟩
        have agreeMore : Agree (directive :: holders) :=
          agreeAll.of_subset (List.cons_subset_cons _ (List.subset_append_right ..))
        cases own.mpr ⟨known, agreeMore⟩
    | none =>
      obtain ⟨known, agreeMore⟩ := own.mp found
      dsimp only
      rw [ih agreeMore]
      constructor
      · rintro ⟨knownRest, agreeAll⟩
        exact ⟨⟨known, knownRest⟩, agreeAll.of_subset (by simp)⟩
      · rintro ⟨⟨_, knownRest⟩, agreeAll⟩
        exact ⟨knownRest, agreeAll.of_subset (by simp)⟩

end Glue

/-- The coordinator grants the compilation of the glue code if no directive has a defect, and it then
binds the analyzers. -/
theorem GlueBinder.compile_ok {registry : Registry} {binder : GlueBinder}
    (granted : (coordinator.compile registry binder).answer = .ok true) :
    (Glue.exportDefects registry [] binder.exports = [] ∧
        Glue.analyzerDefects registry binder.analyzers = []) ∧
      (coordinator.compile registry binder).state =
        { binder with bindings := Glue.bindings registry binder.analyzers, compiled := true } := by
  change (compile registry binder).answer = .ok true at granted
  change _ ∧ (compile registry binder).state = _
  rw [compile] at granted ⊢
  split at granted
  · cases granted
  · next attached =>
    rw [if_neg attached]
    split at granted
    · next sound =>
      rw [defectDiagnostics, List.map_eq_nil_iff, List.append_eq_nil_iff] at sound
      exact ⟨sound, rfl⟩
    · cases granted

/-- Glue code that compiles asks for known types, and for one type only under each host name. -/
theorem GlueBinder.compile_granted {registry : Registry} {binder : GlueBinder}
    (granted : (coordinator.compile registry binder).answer = .ok true) :
    (coordinator.compile registry binder).state.exports = binder.exports ∧
      (∀ directive ∈ binder.exports, registry.contains directive.source = true) ∧
        Glue.Agree binder.exports := by
  obtain ⟨⟨sound, _⟩, state⟩ := compile_ok granted
  obtain ⟨known, agree⟩ := (Glue.exportDefects_eq_nil (by simp [Glue.Agree])).mp sound
  rw [state]
  exact ⟨rfl, known, by simpa using agree⟩

def HostNamesUnique (exports : List (TypeRecord × String)) : Prop :=
  ∀ first ∈ exports, ∀ second ∈ exports, first.2 = second.2 → first.1.id = second.1.id

namespace Session

section Exports

variable {γ : Type} {environment : Environment γ} {session : Session γ} {info : TypeRecord}
  {host : String}

theorem mem_of_mem_firstOfEach {seen : List String} {infos : List TypeRecord}
    (kept : info ∈ firstOfEach seen infos) : info ∈ infos := by
  induction infos generalizing seen with
  | nil => cases kept
  | cons first rest ih =>
    rw [firstOfEach] at kept
    split at kept
    · exact .tail _ (ih kept)
    · rcases List.mem_cons.mp kept with rfl | later
      · exact .head _
      · exact .tail _ (ih later)

theorem exists_mem_firstOfEach {seen : List String} {infos : List TypeRecord} (member : info ∈ infos)
    (fresh : info.id ∉ seen) : ∃ kept ∈ firstOfEach seen infos, kept.id = info.id := by
  induction infos generalizing seen with
  | nil => cases member
  | cons first rest ih =>
    rw [firstOfEach]
    by_cases same : first.id = info.id
    · rw [if_neg (by simpa [same] using fresh)]
      exact ⟨first, .head _, same⟩
    · have inRest : info ∈ rest := by
        rcases List.mem_cons.mp member with rfl | later
        · exact absurd rfl same
        · exact later
      split
      · exact ih inRest fresh
      · have freshMore : info.id ∉ first.id :: seen := by
          simp [fresh, Ne.symm same]
        obtain ⟨kept, inside, named⟩ := ih inRest freshMore
        exact ⟨kept, .tail _ inside, named⟩

theorem id_of_find? {registry : Registry} {id : String} (found : registry.find? id = some info) :
    info.id = id := by
  simpa using List.find?_some found

theorem mem_recordedExports :
    (info, host) ∈ session.recordedExports environment ↔
      (info.id, host) ∈ session.requestedExports environment ∧
        session.registry.find? info.id = some info := by
  rw [recordedExports, List.mem_filterMap]
  constructor
  · rintro ⟨⟨id, name⟩, asked, recorded⟩
    obtain ⟨found, isFound, same⟩ := Option.map_eq_some_iff.mp recorded
    cases same
    rw [id_of_find? isFound]
    exact ⟨asked, isFound⟩
  · rintro ⟨asked, found⟩
    exact ⟨(info.id, host), asked, by simp [found]⟩

theorem mem_automaticExports (exported : (info, host) ∈ session.automaticExports) :
    info.id = host ∧ ∃ listed ∈ session.listedEnums, listed.id = host := by
  obtain ⟨listed, kept, same⟩ := List.mem_map.mp exported
  cases same
  refine ⟨?_, listed, mem_of_mem_firstOfEach kept, rfl⟩
  cases found : session.registry.find? listed.id with
  | none => rfl
  | some present => exact id_of_find? found

theorem exists_automaticExport {listed : TypeRecord} (member : listed ∈ session.listedEnums) :
    ∃ info, (info, listed.id) ∈ session.automaticExports := by
  obtain ⟨kept, inside, named⟩ := exists_mem_firstOfEach member List.not_mem_nil
  refine ⟨(session.registry.find? kept.id).getD kept, ?_⟩
  rw [← named]
  exact List.mem_map_of_mem inside

end Exports

variable {environment : Environment GlueBinder} {before after : Session GlueBinder}

/-- Once the glue code is compiled, every type that it asks for is known, and no host name is asked for
two of them. -/
theorem requestedExports_of_compile (glue : environment.coordinator = GlueBinder.coordinator)
    (standard : environment.frontEnd = .standard) {files : FileSystem} {program : Program}
    (pending : before.needsGlue = true)
    (ran : (compile environment files).run before = .ok (some program) after) :
    (∀ requested ∈ after.requestedExports environment,
        ∃ info, info.id = requested.1 ∧ (info, requested.2) ∈ after.recordedExports environment) ∧
      ∀ first ∈ after.requestedExports environment, ∀ second ∈ after.requestedExports environment,
        first.2 = second.2 → first.1 = second.1 := by
  obtain ⟨binder, granted, state⟩ := glue_compiled standard pending ran
  rw [glue] at granted state
  obtain ⟨sameExports, known, agree⟩ := GlueBinder.compile_granted granted
  -- Compiling the glue code leaves what it asks for as it is, so the checks were about these exports.
  have requests : after.requestedExports environment =
      binder.exports.map fun directive => (directive.source, directive.host) := by
    rw [requestedExports, glue, state]
    change List.map _ (GlueBinder.coordinator.compile after.registry binder).state.exports = _
    rw [sameExports]
  constructor
  · intro requested asked
    obtain ⟨directive, member, same⟩ := List.mem_map.mp (requests ▸ asked)
    obtain ⟨info, found⟩ := Option.isSome_iff_exists.mp (known directive member)
    have named : info.id = requested.1 := by
      rw [← same]
      exact id_of_find? found
    have recorded : after.registry.find? info.id = some info := by
      rw [id_of_find? found]
      exact found
    exact ⟨info, named, mem_recordedExports.mpr ⟨named ▸ asked, recorded⟩⟩
  · intro first asked second askedToo sameHost
    obtain ⟨directive, member, rfl⟩ := List.mem_map.mp (requests ▸ asked)
    obtain ⟨other, memberToo, rfl⟩ := List.mem_map.mp (requests ▸ askedToo)
    exact agree directive member other memberToo sameHost

/-- After a compilation that has compiled the glue code, no host name stands for two types if and
only if no export gives a type the name of a public enum that is another type. The enums are exported
unasked, and compiling the glue code does not look at them. -/
theorem hostNamesUnique_iff (glue : environment.coordinator = GlueBinder.coordinator)
    (standard : environment.frontEnd = .standard) {files : FileSystem} {program : Program}
    (pending : before.needsGlue = true)
    (ran : (compile environment files).run before = .ok (some program) after) :
    HostNamesUnique (after.exports environment) ↔
      ∀ requested ∈ after.requestedExports environment, ∀ listed ∈ after.listedEnums,
        requested.2 = listed.id → requested.1 = listed.id := by
  obtain ⟨known, agree⟩ := requestedExports_of_compile glue standard pending ran
  constructor
  · intro unique requested asked listed isListed sameName
    obtain ⟨info, named, recorded⟩ := known requested asked
    obtain ⟨enum, automatic⟩ := exists_automaticExport isListed
    rw [← named, ← (mem_automaticExports automatic).1]
    exact unique _ (List.mem_append_left _ recorded) _ (List.mem_append_right _ automatic) sameName
  · intro apart
    -- What the checks leave open: a name asked for on one side, that of an enum on the other.
    have crossing : ∀ {info enum : TypeRecord} {host : String},
        (info, host) ∈ after.recordedExports environment → (enum, host) ∈ after.automaticExports →
          info.id = enum.id := by
      intro info enum host recorded automatic
      obtain ⟨named, listed, isListed, sameName⟩ := mem_automaticExports automatic
      rw [named, ← sameName]
      exact apart _ (mem_recordedExports.mp recorded).1 listed isListed sameName.symm
    rintro ⟨first, host⟩ exported ⟨second, _⟩ exportedToo rfl
    rcases List.mem_append.mp exported with recorded | automatic
    · rcases List.mem_append.mp exportedToo with recordedToo | automaticToo
      · exact agree _ (mem_recordedExports.mp recorded).1 _ (mem_recordedExports.mp recordedToo).1 rfl
      · exact crossing recorded automaticToo
    · rcases List.mem_append.mp exportedToo with recordedToo | automaticToo
      · exact (crossing recordedToo automatic).symm
      · exact (mem_automaticExports automatic).1.trans (mem_automaticExports automaticToo).1.symm

end Session

/-- A directory with a module and a glue file that gives the name of an enum to another type. -/
def takenNameDirectory : FileSystem :=
  let module := "module a;\npublic type E = enum \x7b X \x7d;\ntype S = struct \x7b \x7d;\n"
  let glue := "export a::S as a::E;\n"
  .ofEntries [("a.weft", .file module.toUTF8.toList), ("p.glue", .file glue.toUTF8.toList)]

namespace Session

/-- A session that has loaded the glue file and the module. -/
def takenName : Session GlueBinder :=
  let loaded := (load .standard takenNameDirectory (.ofString "p.glue") none).finalState
    (start .standard .plain {})
  (load .standard takenNameDirectory (.ofString "a.weft") none).finalState loaded

theorem reached_takenName : Reached .standard takenName :=
  .load _ _ _ (.load _ _ _ (.start _ _))

theorem run_compile_takenName : ∃ program,
    (compile .standard takenNameDirectory).run takenName =
      .ok (some program) ((compile .standard takenNameDirectory).finalState takenName) := by
  have compiled : ((compile .standard takenNameDirectory).outcome? takenName).join.isSome = true := by
    decide +kernel
  obtain ⟨program, given⟩ := Option.isSome_iff_exists.mp compiled
  exact ⟨program, Action.run_eq_ok_of_outcome? (Option.join_eq_some_iff.mp given)⟩

theorem hostNamesUnique_iff_takenName :
    Environment.standard.coordinator = GlueBinder.coordinator ∧ takenName.needsGlue = true ∧ ∃ program after,
      (compile .standard takenNameDirectory).run takenName = .ok (some program) after ∧
        (HostNamesUnique (after.exports .standard) ↔
          ∀ requested ∈ after.requestedExports .standard, ∀ listed ∈ after.listedEnums,
            requested.2 = listed.id → requested.1 = listed.id) := by
  obtain ⟨program, ran⟩ := run_compile_takenName
  have pending : takenName.needsGlue = true := by decide +kernel
  exact ⟨rfl, pending, program, _, ran, hostNamesUnique_iff rfl rfl pending ran⟩

/-- The glue code compiles though it gives a struct the name of a public enum. -/
theorem hostNames_not_unique :
    ¬ ∀ (before after : Session GlueBinder) (files : FileSystem) (program : Program),
        Reached .standard before → before.needsGlue = true →
      (compile .standard files).run before = .ok (some program) after →
      HostNamesUnique (after.exports .standard) := by
  intro unique
  obtain ⟨program, ran⟩ := run_compile_takenName
  have taken : ∃ first ∈ ((compile .standard takenNameDirectory).finalState takenName).exports .standard,
      ∃ second ∈ ((compile .standard takenNameDirectory).finalState takenName).exports .standard,
        first.2 = second.2 ∧ first.1.id ≠ second.1.id := by
    decide +kernel
  obtain ⟨first, exported, second, exportedToo, sameHost, differ⟩ := taken
  have pending : takenName.needsGlue = true := by decide +kernel
  exact differ (unique _ _ _ _ reached_takenName pending ran first exported second exportedToo sameHost)

end Session

end WireModules
