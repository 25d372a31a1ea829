import WireModules.Proofs.GlueCompilation
import WireModules.Proofs.ReadingFaults
import WireModules.Proofs.ReportedCollisions

/-!
# Names in strict mode

In strict mode a name stays with the file that declared it first. A type of the name from another file
ends the compilation that comes to it, and ends it there: the types before it have been noted, also of
the module that it stands in, and nothing is taken back.
-/

set_option autoImplicit false

namespace WireModules

namespace Registry

variable {first last registry noted : Registry} {infos : List TypeRecord} {log : List LogRecord}
  {info : TypeRecord} {id : String} {path : Option Path}

/-- A note in a strict registry without collisions is of the file that the name has already, be the
record kept or dropped. -/
theorem IsNote.file_of_strict (isNote : IsNote registry info noted log)
    (strict : registry.strict = true) (fresh : registry.collisions = []) :
    ∀ previous, registry.find? info.id = some previous → previous.modulePath = info.modulePath := by
  intro previous found
  by_contra differ
  have met := isNote.met previous found differ
  have none : noted.collisions = [] := by
    rcases isNote.collisions with kept | ⟨lax, _⟩
    · exact kept.trans fresh
    · cases lax.symm.trans strict
  rw [none] at met
  cases met

/-- After a note its name has a record, either the new one or the one before. -/
theorem IsNote.find?_own (isNote : IsNote registry info noted log) :
    noted.find? info.id = some info ∨
      noted.find? info.id = registry.find? info.id ∧ (registry.find? info.id).isSome = true := by
  rw [find?, isNote.types, recordIn]
  cases found : registry.types.find? fun other => other.id = info.id with
  | none => exact .inl (by simp [find?_putAmong])
  | some previous =>
    dsimp only
    split
    · exact .inr ⟨rfl, by rw [find?, found]; rfl⟩
    · exact .inl (by simp [find?_putAmong])

theorem IsNote.find?_other (isNote : IsNote registry info noted log) (other : info.id ≠ id) :
    noted.find? id = registry.find? id := by
  rw [find?, isNote.types]
  exact find?_recordIn_of_ne other

/-- In a strict registry without collisions every file that a name has a type of is the file of its
record. -/
theorem Replays.file_of_strict (replays : Replays first infos log last) (strict : first.strict = true)
    (fresh : first.collisions = []) (isFile : IsFileOf first infos id path) :
    ∃ present, last.find? id = some present ∧ present.modulePath = path := by
  induction replays generalizing path with
  | nil => exact isFile.resolve_right fun ⟨_, member, _⟩ => by cases member
  | @cons first between last info rest own log noted later ih =>
    have isNote := isNote_of_note noted
    have sameFile := isNote.file_of_strict strict fresh
    refine ih (isNote.strict.trans strict) ?_ ?_
    · rcases isNote.collisions with kept | ⟨lax, _⟩
      · exact kept.trans fresh
      · cases lax.symm.trans strict
    have ownFile : ∃ present, between.find? info.id = some present ∧
        present.modulePath = info.modulePath := by
      rcases isNote.find?_own with new | ⟨same, some⟩
      · exact ⟨info, new, rfl⟩
      · obtain ⟨previous, found⟩ := Option.isSome_iff_exists.mp some
        exact ⟨previous, same.trans found, sameFile previous found⟩
    rcases isFile with ⟨previous, found, placed⟩ | ⟨other, member, named, placed⟩
    · by_cases own : info.id = id
      · subst own
        rw [← placed, sameFile previous found]
        exact .inl ownFile
      · exact .inl ⟨previous, (isNote.find?_other own).trans found, placed⟩
    · rcases List.mem_cons.mp member with rfl | later
      · subst named placed
        exact .inl ownFile
      · exact .inr ⟨other, later, named, placed⟩

end Registry

namespace CompileEvent

/-- A type is reached in some events: these are the types of all events and declarations before it. -/
inductive Offers (events : List CompileEvent) (offered : List TypeRecord) (info : TypeRecord) :
    Prop where
  | mk {earlier later : List CompileEvent} {event : CompileEvent}
      {infos done rest : List TypeRecord} : events = earlier ++ event :: later →
      Records earlier infos → event.records = .ok (done ++ info :: rest) →
      offered = infos ++ done → Offers events offered info

end CompileEvent

/-- A coordinator that never speaks of collisions itself. -/
structure Coordinator.LeavesNames {γ : Type} (coordinator : Coordinator γ) : Prop where
  announce : ∀ moduleId path glue reason,
    (coordinator.announce moduleId path glue).answer = .error (.failure reason) →
      reason.reason ≠ .typeNameCollision
  compile : ∀ registry glue reason,
    (coordinator.compile registry glue).answer = .error (.failure reason) →
      reason.reason ≠ .typeNameCollision

namespace Session

variable {γ : Type} {environment : Environment γ} {before between after : Session γ}
  {reason : Failure}

/-! ## Where a collision ends a compilation -/

/-- What a registry is left as by a compilation that came to a collision: the types before it are
noted, and the one that collides is refused. -/
structure RefusedAt (events : List CompileEvent) (before after : Session γ) (reason : Failure)
    (offered : List TypeRecord) (offending : TypeRecord) : Prop where
  inOrder : CompileEvent.Offers events offered offending
  noted : ∃ log, Registry.Replays before.registry offered log after.registry
  refused : after.registry.record offending = .error reason

theorem tell_not_failure {event : HostEvent} :
    (tell environment event).run before ≠ .error (.failure reason) after := by
  intro failed
  unfold tell at failed
  replace failed := Action.error_of_run_bind_of_ok failed rfl
  replace failed := Action.error_of_run_bind_of_ok failed rfl
  split at failed <;> cases failed

theorem record_failure {info : TypeRecord}
    (failed : (record info).run before = .error (.failure reason) after) :
    after = before ∧ before.registry.record info = .error reason := by
  rw [run_record] at failed
  split at failed
  · cases failed
  · next refused =>
    cases failed
    exact ⟨rfl, refused⟩

/-- A failure of a note is that of its record, which it makes first. -/
theorem record_failure_of_bind {info : TypeRecord} {text : String}
    {rest : PUnit → Action (Session γ) PUnit}
    (others : ∀ middle, (rest ⟨⟩).run middle ≠ .error (.failure reason) after)
    (failed : (say text >>= fun _ => record info >>= rest).run before =
      .error (.failure reason) after) :
    after.registry = before.registry ∧ before.registry.record info = .error reason := by
  replace failed := Action.error_of_run_bind_of_ok failed rfl
  rcases Action.error_of_run_bind failed with own | ⟨_, middle, _, failed⟩
  · obtain ⟨rfl, refused⟩ := record_failure own
    exact ⟨rfl, refused⟩
  · exact absurd failed (others middle)

theorem noteWritten_failure {info : TypeRecord}
    (failed : (noteWritten environment info).run before = .error (.failure reason) after) :
    after.registry = before.registry ∧ before.registry.record info = .error reason := by
  refine record_failure_of_bind (fun middle failed => ?_) failed
  extract_lets tells at failed
  split at failed
  · replace failed := Action.error_of_run_bind_of_ok failed rfl
    exact tell_not_failure (Action.error_of_run_bind_of_ok failed rfl)
  · exact tell_not_failure failed

theorem noteResolved_failure {info : TypeRecord}
    (failed : (noteResolved environment info).run before = .error (.failure reason) after) :
    after.registry = before.registry ∧ before.registry.record info = .error reason := by
  refine record_failure_of_bind (fun middle failed => ?_) failed
  rcases Action.error_of_run_bind failed with told | ⟨_, _, _, failed⟩
  · exact tell_not_failure told
  · split at failed
    · exact tell_not_failure failed
    · cases failed

/-- Some types come before one that is refused, and are noted. -/
def StopsAt (infos : List TypeRecord) (before after : Session γ) (reason : Failure) : Prop :=
  ∃ done offending rest, infos = done ++ offending :: rest ∧
    (∃ log, Registry.Replays before.registry done log after.registry) ∧
      after.registry.record offending = .error reason

theorem stopsAt_of_forM {step : TypeRecord → Action (Session γ) PUnit} {infos : List TypeRecord}
    (each : ∀ info ∈ infos, ∀ before, Noting (· = [info]) (step info) before)
    (stops : ∀ info before after, (step info).run before = .error (.failure reason) after →
      after.registry = before.registry ∧ before.registry.record info = .error reason)
    (failed : (infos.forM step).run before = .error (.failure reason) after) :
    StopsAt infos before after reason := by
  obtain ⟨done, offending, rest, middle, rfl, ran, stopped⟩ := Action.error_of_run_forM failed
  have noting : Noting (· = done) (done.forM step) before :=
    .forM fun info member => each info (List.mem_append_left _ member)
  obtain ⟨_, notes, rfl⟩ := noting.of_run_eq_ok ran
  obtain ⟨_, log, _, _, replays, _⟩ := notes.signals
  obtain ⟨same, refused⟩ := stops offending middle after stopped
  rw [← same] at replays refused
  exact ⟨_, offending, rest, rfl, ⟨log, replays⟩, refused⟩

theorem wantedRecords_not_failure {unit : ProgramUnit} {resolved : Bool} :
    (wantedRecords unit resolved).run before ≠ .error (.failure reason) after := by
  intro failed
  replace failed := Action.error_of_run_bind_of_ok failed rfl
  split at failed
  · cases failed
  · split at failed <;> cases failed

theorem unitParsed_failure (calm : environment.host.IsCalm) {unit : ProgramUnit}
    (failed : (unitParsed environment unit).run before = .error (.failure reason) after) :
    ∃ records, unit.shownRecords false = .ok records ∧ StopsAt records before after reason := by
  rcases Action.error_of_run_bind failed with own | ⟨wanted, middle, ran, failed⟩
  · exact absurd own wantedRecords_not_failure
  obtain ⟨rfl, shown, _⟩ := wantedRecords_ok ran
  cases wanted with
  | none => cases failed
  | some records =>
    obtain ⟨_, extracted⟩ := shown records rfl
    have phases := ProgramUnit.phase_of_shownRecords extracted
    exact ⟨records, extracted, stopsAt_of_forM
      (fun info member => noting_noteWritten calm (phases info member))
      (fun _ _ _ => noteWritten_failure) failed⟩

theorem ask_failure {α : Type} {request : GlueRequest} {consult : γ → Reply γ α}
    {granted : α → Bool}
    (failed : (ask request consult granted).run before = .error (.failure reason) after) :
    (consult before.glue).answer = .error (.failure reason) := by
  rw [run_ask] at failed
  split at failed
  · cases failed
  · next answered =>
    cases failed
    exact answered

section Collision

variable (calm : environment.host.IsCalm) (leaves : environment.coordinator.LeavesNames)
  (collides : reason.reason = .typeNameCollision)
include calm leaves collides

theorem unitResolved_failure {unit : ProgramUnit}
    (failed : (unitResolved environment unit).run before = .error (.failure reason) after) :
    ∃ records, unit.shownRecords true = .ok records ∧ StopsAt records before after reason := by
  rcases Action.error_of_run_bind failed with own | ⟨wanted, middle, ran, stopped⟩
  · exact absurd own wantedRecords_not_failure
  obtain ⟨rfl, shown, _⟩ := wantedRecords_ok ran
  cases wanted with
  | none => cases stopped
  | some records =>
    obtain ⟨_, extracted⟩ := shown records rfl
    have phases := ProgramUnit.phase_of_shownRecords extracted
    cases placed : unit.path with
    | none =>
      rw [placed] at stopped
      cases stopped
    | some path =>
      rw [placed] at stopped
      rcases Action.error_of_run_bind stopped with noted | ⟨_, _, _, announced⟩
      · exact ⟨records, extracted, stopsAt_of_forM
          (fun info member => noting_noteResolved calm (phases info member))
          (fun _ _ _ => noteResolved_failure) noted⟩
      · exact absurd collides (leaves.announce _ _ _ _ (ask_failure announced))

theorem react_collision {event : CompileEvent}
    (failed : (react environment event).run before = .error (.failure reason) after) :
    ∃ records, event.records = .ok records ∧ StopsAt records before after reason := by
  cases event with
  | logged record => cases failed
  | parsed unit => exact unitParsed_failure calm failed
  | resolved unit => exact unitResolved_failure calm leaves collides failed
  | finished program =>
    change (programFinished environment).run before = _ at failed
    rw [run_programFinished] at failed
    split at failed
    · cases failed
    dsimp only at failed
    split at failed
    · cases failed
    · cases failed
      cases collides
    · next answered =>
      cases failed
      exact absurd collides (leaves.compile _ _ _ answered)

/-- A compilation that ends with a collision has come to the type that collides, and has noted the
types before it. -/
theorem refusedAt_of_compile (standard : environment.frontEnd = .standard) {files : FileSystem}
    (failed : (compile environment files).run before = .error (.failure reason) after) :
    ∃ offered offending, RefusedAt (before.compilation environment files).events before after reason
      offered offending := by
  rw [run_compile] at failed
  split at failed
  · cases failed
  split at failed
  · cases failed
    cases collides
  split at failed
  · cases failed
  split at failed
  · cases failed
  next concluded =>
  cases failed
  rw [run_conclude] at concluded
  split at concluded
  · cases concluded
  next delivered =>
  cases concluded
  rcases deliver_error_iff.mp delivered with taken | ⟨_, rejected⟩
  · obtain ⟨earlier, event, later, middle, split, ran, failed⟩ := Action.error_of_run_forM taken
    obtain ⟨infos, notes, complete⟩ :=
      (noting_events calm earlier before.beginCompiling).of_run_eq_ok ran
    obtain ⟨_, log, _, _, replays, _⟩ := notes.signals
    obtain ⟨records, own, done, offending, rest, rfl, ⟨more, noted⟩, refused⟩ :=
      react_collision calm leaves collides failed
    exact ⟨infos ++ done, offending, .mk split (complete rfl) own rfl,
      ⟨log ++ more, replays.append noted⟩, refused⟩
  · rw [compilation, standard] at rejected
    rcases Compilation.fault_of_ofQueue rejected with ⟨_, _, _, own⟩ | ⟨diagnostics, own⟩
    · cases own with
      | rejected diagnostics => cases collides
    · cases own
      cases collides

end Collision

/-! ## Histories in strict mode -/

theorem LeadsTo.tracks (calm : environment.host.IsCalm) (leads : LeadsTo environment before after) :
    ∃ infos, Tracks infos before after := by
  induction leads with
  | refl => exact ⟨[], .refl before⟩
  | load files requested base _ ih =>
    obtain ⟨infos, tracks⟩ := ih
    exact ⟨infos ++ [], tracks.trans (tracks_load files requested base _)⟩
  | compile files _ ih =>
    obtain ⟨infos, tracks⟩ := ih
    obtain ⟨more, later, _⟩ := tracks_compile calm files _
    exact ⟨infos ++ more, tracks.trans later⟩

/-- A strict session has a strict registry, and no collision is known to it. -/
theorem strict_of_reached (calm : environment.host.IsCalm) (reached : Reached environment before)
    (strict : before.options.strictTypeNames = true) :
    before.registry.strict = true ∧ before.registry.collisions = [] := by
  obtain ⟨_, replays, _⟩ := replayed_of_reached calm reached
  exact ⟨replays.strict.trans strict, replays.collisions_of_strict strict⟩

/-- In a program that a strict session returns, types of one qualified name that users see stand in
one file. -/
theorem path_of_compile_strict (standard : environment.frontEnd = .standard)
    (calm : environment.host.IsCalm) (strict : before.registry.strict = true)
    (fresh : before.registry.collisions = []) {files : FileSystem} {program : Program}
    (ran : (compile environment files).run before = .ok (some program) after)
    {first second : ProgramUnit} {decl other : TypeDecl}
    (listed : first ∈ program.units) (visible : first.isUserVisible = true)
    (declared : decl ∈ first.module.declaredTypes)
    (otherListed : second ∈ program.units) (otherVisible : second.isUserVisible = true)
    (otherDeclared : other ∈ second.module.declaredTypes)
    (sameId : qualify first.moduleId decl.name = qualify second.moduleId other.name) :
    first.path = second.path := by
  obtain ⟨infos, tracks, given⟩ := tracks_compile calm files before
  rw [Action.finalState, ran] at tracks
  obtain ⟨_, _, compiled, recorded⟩ := given program after ran
  rw [compilation, standard] at compiled recorded
  obtain ⟨_, written, resolved, _, _, rfl, _, resolvedRecorded⟩ :=
    Compilation.records_of_ofQueue compiled recorded
  obtain ⟨_, _, _, _, replays, _⟩ := tracks.signals
  obtain ⟨info, member, describes⟩ :=
    resolvedRecorded.exists_describes (fun _ => rfl) listed visible declared
  obtain ⟨again, memberAgain, describesAgain⟩ :=
    resolvedRecorded.exists_describes (fun _ => rfl) otherListed otherVisible otherDeclared
  have named : again.id = qualify first.moduleId decl.name := describesAgain.id.trans sameId.symm
  -- Both files are that of the one record of the name.
  obtain ⟨present, found, placed⟩ := replays.file_of_strict strict fresh
    (.inr ⟨info, List.mem_append_right _ member, describes.id, rfl⟩)
  obtain ⟨same, foundSame, placedSame⟩ := replays.file_of_strict strict fresh
    (.inr ⟨again, List.mem_append_right _ memberAgain, named, rfl⟩)
  cases found.symm.trans foundSame
  rw [← describes.modulePath, ← describesAgain.modulePath, ← placed, ← placedSame]

/-- However a strict session was used: a name that is recorded keeps its record's file for ever; a
compilation that ends with a collision leaves the registry, with its list of public enums, as it was
when the type that collides was reached; and in a program that is returned, types of one qualified name
that users see stand in one file. -/
theorem strict_names (standard : environment.frontEnd = .standard) (calm : environment.host.IsCalm)
    (reached : Reached environment before) (strict : before.options.strictTypeNames = true) :
    (∀ later id info, LeadsTo environment before later → before.registry.find? id = some info →
      ∃ present, later.registry.find? id = some present ∧
        present.modulePath = info.modulePath) ∧
    (environment.coordinator.LeavesNames → ∀ files reason after,
      (compile environment files).run before = .error (.failure reason) after →
      reason.reason = .typeNameCollision → ∃ offered offending,
        RefusedAt (before.compilation environment files).events before after reason offered
          offending) ∧
    ∀ files program after, (compile environment files).run before = .ok (some program) after →
      ∀ first ∈ program.units, ∀ second ∈ program.units,
        first.isUserVisible = true → second.isUserVisible = true →
        ∀ decl ∈ first.module.declaredTypes, ∀ other ∈ second.module.declaredTypes,
          qualify first.moduleId decl.name = qualify second.moduleId other.name →
            first.path = second.path := by
  obtain ⟨isStrict, fresh⟩ := strict_of_reached calm reached strict
  refine ⟨?_, ?_, ?_⟩
  · intro later id info leads found
    obtain ⟨infos, tracks⟩ := leads.tracks calm
    obtain ⟨_, _, _, _, replays, _⟩ := tracks.signals
    exact replays.file_of_strict isStrict fresh (.inl ⟨info, found, rfl⟩)
  · intro leaves files reason after failed collides
    exact refusedAt_of_compile calm leaves collides standard failed
  · intro files program after ran first listed second otherListed visible otherVisible decl declared
      other otherDeclared sameId
    exact path_of_compile_strict standard calm isStrict fresh ran listed visible declared otherListed
      otherVisible otherDeclared sameId

theorem leavesNames_coordinator : GlueBinder.coordinator.LeavesNames where
  announce _ _ _ _ := nofun
  compile registry glue reason answered := by
    change (GlueBinder.compile registry glue).answer = _ at answered
    rw [GlueBinder.compile] at answered
    split at answered
    · cases answered
    · split at answered <;> cases answered

/-- A strict session that has compiled one of two files of a module and has loaded the other. -/
def strictTwins : Session GlueBinder :=
  let options : Options :=
    { Options.plain with strictTypeNames := true }
  let loaded := (load .standard (twinDirectory "b.weft") (.ofString "a.weft") none).finalState
    (start .standard options {})
  let compiled := (compile .standard (twinDirectory "b.weft")).finalState loaded
  (load .standard (twinDirectory "b.weft") (.ofString "b.weft") none).finalState compiled

theorem reached_strictTwins : Reached .standard strictTwins :=
  .load _ _ _ (.compile _ (.load _ _ _ (.start _ _)))

/-- The second file is refused, and the type stays with the first. -/
theorem strict_names_twins :
    ∃ reason after offered offending,
      (compile .standard (twinDirectory "b.weft")).run strictTwins = .error (.failure reason) after ∧
      reason.reason = .typeNameCollision ∧
      RefusedAt (strictTwins.compilation .standard (twinDirectory "b.weft")).events strictTwins after
        reason offered offending ∧
      ∃ present, after.registry.find? "x::T" = some present ∧
        present.modulePath = some (.ofString "a.weft") := by
  let reason : Failure := .typeNameCollision
    "type 'x::T' redefined by b.weft (first defined in a.weft)" (some "b.weft")
  have ends : (compile .standard (twinDirectory "b.weft")).fault? strictTwins =
      some (.failure reason) := by
    decide +kernel
  have recorded : (strictTwins.registry.find? "x::T").map TypeRecord.modulePath =
      some (some (.ofString "a.weft")) := by
    decide +kernel
  obtain ⟨after, failed⟩ := Action.exists_of_fault?_eq_some ends
  obtain ⟨lasting, refused, _⟩ :=
    strict_names rfl isCalm_silent reached_strictTwins (by decide +kernel)
  obtain ⟨offered, offending, refusedAt⟩ := refused leavesNames_coordinator _ _ _ failed rfl
  obtain ⟨info, found, placed⟩ := Option.map_eq_some_iff.mp recorded
  have later : LeadsTo .standard strictTwins after := by
    have compiled := LeadsTo.compile (twinDirectory "b.weft") (.refl : LeadsTo .standard strictTwins _)
    rwa [Action.finalState, failed] at compiled
  obtain ⟨present, foundLater, same⟩ := lasting after "x::T" info later found
  exact ⟨reason, after, offered, offending, failed, rfl, refusedAt, present, foundLater,
    same.trans placed⟩

end Session

end WireModules
