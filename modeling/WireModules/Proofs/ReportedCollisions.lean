import WireModules.Proofs.RecordedTypes

/-!
# Types of one name in two files

Two modules of a program may go by one name and declare types of one name; the later one wins. Where
users see both modules, the session has warned of it when it returns the program, and a session in
strict mode does not return it.
-/

set_option autoImplicit false

namespace WireModules

namespace CompileEvent.Records

variable {units : List ProgramUnit} {infos : List TypeRecord} {event : ProgramUnit → CompileEvent}
  {phase : Bool}

/-- Every type that users see in some units has a record among theirs. -/
theorem exists_describes (about : ∀ unit, (event unit).records = unit.shownRecords phase)
    (recorded : Records (units.map event) infos) {unit : ProgramUnit} {decl : TypeDecl}
    (listed : unit ∈ units) (visible : unit.isUserVisible = true)
    (member : decl ∈ unit.module.declaredTypes) :
    ∃ info ∈ infos, info.Describes unit decl phase := by
  obtain ⟨earlier, later, rfl⟩ := List.append_of_mem listed
  rw [List.map_append, List.map_cons] at recorded
  obtain ⟨before, after, rfl, _, recorded⟩ := recorded.append_inv
  cases recorded with
  | cons own _ =>
    have described := ProgramUnit.described_of_shownRecords visible (about unit ▸ own)
    obtain ⟨info, inside, describes⟩ := ProgramUnit.exists_of_described described member
    exact ⟨info, List.mem_append_right _ (List.mem_append_left _ inside), describes⟩

end CompileEvent.Records

/-- Two modules of a program go by one name, stand in different files and declare types of one
name. -/
structure Program.Redeclares (program : Program) (first second : ProgramUnit)
    (decl other : TypeDecl) : Prop where
  listed : first ∈ program.units
  otherListed : second ∈ program.units
  sameModule : first.moduleId = second.moduleId
  differ : first.path ≠ second.path
  declared : decl ∈ first.module.declaredTypes
  otherDeclared : other ∈ second.module.declaredTypes
  sameName : decl.name = other.name

namespace Session

variable {γ : Type} {environment : Environment γ} {before after : Session γ}

/-- The log has a warning that types of a name stand in a file and in another one. -/
def HasReported (session : Session γ) (id : String) (path : Option Path) : Prop :=
  ∃ collision : Collision, collision.id = id ∧ collision.first ≠ collision.second ∧
    (collision.first = path ∨ collision.second = path) ∧ collision.warning ∈ session.log

theorem Replayed.hasReported (replayed : after.Replayed) {id : String} {path : Option Path}
    (known : after.registry.HasCollision id path) : after.HasReported id path := by
  obtain ⟨log, replays, logged⟩ := replayed
  obtain ⟨collision, member, named, differ, side⟩ := known
  rcases replays.warned collision member with fresh | warned
  · cases fresh
  · exact ⟨collision, named, differ, side, logged _ warned⟩

theorem Replayed.lax_of_hasCollision (replayed : after.Replayed) {id : String} {path : Option Path}
    (known : after.registry.HasCollision id path) : after.options.strictTypeNames = false := by
  obtain ⟨log, replays, _⟩ := replayed
  obtain ⟨collision, member, _⟩ := known
  cases strict : after.options.strictTypeNames with
  | false => rfl
  | true =>
    rw [replays.collisions_of_strict strict] at member
    cases member

/-- Where two modules that users see declare types of one qualified name, each of their files has
been reported to collide with another one under that name when the program is returned. In strict
mode no such program is returned. -/
theorem hasReported_of_compile (standard : environment.frontEnd = .standard)
    (calm : environment.host.IsCalm) {files : FileSystem} {program : Program}
    (reached : Reached environment before)
    (ran : (compile environment files).run before = .ok (some program) after)
    {first second : ProgramUnit} {decl other : TypeDecl}
    (redeclares : program.Redeclares first second decl other)
    (visible : first.isUserVisible = true) (otherVisible : second.isUserVisible = true) :
    before.options.strictTypeNames = false ∧
      after.HasReported (qualify first.moduleId decl.name) first.path ∧
        after.HasReported (qualify first.moduleId decl.name) second.path := by
  obtain ⟨infos, tracks, given⟩ := tracks_compile calm files before
  rw [Action.finalState, ran] at tracks
  obtain ⟨_, _, compiled, recorded⟩ := given program after ran
  rw [compilation, standard] at compiled recorded
  obtain ⟨_, written, resolved, _, _, rfl, _, resolvedRecorded⟩ :=
    Compilation.records_of_ofQueue compiled recorded
  obtain ⟨_, _, _, _, replays, _⟩ := tracks.signals
  obtain ⟨between, _, _, _, resolving⟩ := replays.append_inv
  -- The resolved records come last, and each takes the place of the one before it.
  obtain ⟨info, member, describes⟩ :=
    resolvedRecorded.exists_describes (fun _ => rfl) redeclares.listed visible redeclares.declared
  obtain ⟨late, lateMember, lateDescribes⟩ :=
    resolvedRecorded.exists_describes (fun _ => rfl) redeclares.otherListed otherVisible
      redeclares.otherDeclared
  have lateNamed : late.id = qualify first.moduleId decl.name := by
    rw [lateDescribes.id, redeclares.sameModule, redeclares.sameName]
  obtain ⟨firstKnown, secondKnown⟩ :=
    resolving.hasCollision (resolvedRecorded.phases fun _ => rfl)
      (.inr ⟨info, member, describes.id, describes.modulePath⟩)
      (.inr ⟨late, lateMember, lateNamed, lateDescribes.modulePath⟩) redeclares.differ
  have replayed := tracks.replayed (replayed_of_reached calm reached)
  refine ⟨?_, replayed.hasReported firstKnown, replayed.hasReported secondKnown⟩
  rw [← tracks.options]
  exact replayed.lax_of_hasCollision firstKnown

end Session

/-- A directory with two files that have one text. -/
def twinDirectory (second : String) : FileSystem :=
  let text := "module x;\ntype T = bool;\n".toUTF8.toList
  .ofEntries [("a.weft", .file text), (second, .file text)]

namespace Session

/-- A session that has loaded both files of a directory. -/
def twinsLoaded (second : String) : Session GlueBinder :=
  let loaded := (load .standard (twinDirectory second) (.ofString "a.weft") none).finalState
    (start .standard .plain {})
  (load .standard (twinDirectory second) (.ofString second) none).finalState loaded

theorem reached_twinsLoaded (second : String) : Reached .standard (twinsLoaded second) :=
  .load _ _ _ (.load _ _ _ (.start _ _))

/-- Compiling both files gives a program in which they declare one type, in two modules of which the
second is seen by users or not. -/
theorem run_compile_twins {second : String} {shown : Bool}
    (given : ∃ program ∈ ((compile .standard (twinDirectory second)).outcome? (twinsLoaded second)).join,
      ∃ first ∈ program.units, ∃ other ∈ program.units, ∃ decl ∈ first.module.declaredTypes,
        ∃ again ∈ other.module.declaredTypes, first.moduleId = other.moduleId ∧
          first.path ≠ other.path ∧ decl.name = again.name ∧ first.isUserVisible = true ∧
            other.isUserVisible = shown) :
    ∃ program first other decl again,
      (compile .standard (twinDirectory second)).run (twinsLoaded second) = .ok (some program)
        ((compile .standard (twinDirectory second)).finalState (twinsLoaded second)) ∧
      program.Redeclares first other decl again ∧ first.isUserVisible = true ∧
        other.isUserVisible = shown := by
  obtain ⟨program, given, first, listed, other, otherListed, decl, declared, again, declaredAgain,
    sameModule, differ, sameName, visible, isShown⟩ := given
  have ran := Action.run_eq_ok_of_outcome? (Option.join_eq_some_iff.mp given)
  exact ⟨program, first, other, decl, again, ran,
    ⟨listed, otherListed, sameModule, differ, declared, declaredAgain, sameName⟩, visible, isShown⟩

/-- Two source files of one module: both are warned of. -/
theorem hasReported_of_compile_twins :
    ∃ program first other decl again,
      (compile .standard (twinDirectory "b.weft")).run (twinsLoaded "b.weft") = .ok (some program)
        ((compile .standard (twinDirectory "b.weft")).finalState (twinsLoaded "b.weft")) ∧
      program.Redeclares first other decl again ∧ first.isUserVisible = true ∧
      other.isUserVisible = true ∧
      (twinsLoaded "b.weft").options.strictTypeNames = false ∧
      ((compile .standard (twinDirectory "b.weft")).finalState (twinsLoaded "b.weft")).HasReported
        (qualify first.moduleId decl.name) first.path ∧
      ((compile .standard (twinDirectory "b.weft")).finalState (twinsLoaded "b.weft")).HasReported
        (qualify first.moduleId decl.name) other.path := by
  obtain ⟨program, first, other, decl, again, ran, redeclares, visible, otherVisible⟩ :=
    @run_compile_twins "b.weft" true (by decide +kernel)
  exact ⟨program, first, other, decl, again, ran, redeclares, visible, otherVisible,
    hasReported_of_compile rfl isCalm_silent (reached_twinsLoaded _) ran redeclares visible otherVisible⟩

/-- A file that users do not see takes over a type of a file that they see, and no one is told. -/
theorem hasReported_fails_if_hidden :
    ¬ ∀ (before after : Session GlueBinder) (files : FileSystem) (program : Program)
        (first second : ProgramUnit) (decl other : TypeDecl), Reached .standard before →
      (compile .standard files).run before = .ok (some program) after →
      program.Redeclares first second decl other →
      before.options.strictTypeNames = false ∧
        ∃ path, after.HasReported (qualify first.moduleId decl.name) path := by
  intro reports
  obtain ⟨program, first, other, decl, again, ran, redeclares, _⟩ :=
    @run_compile_twins "b.wir" false (by decide +kernel)
  obtain ⟨_, path, collision, _, _, _, warned⟩ :=
    reports _ _ _ _ _ _ _ _ (reached_twinsLoaded _) ran redeclares
  have silent : ∀ record ∈ ((compile .standard (twinDirectory "b.wir")).finalState
      (twinsLoaded "b.wir")).log, record.level ≠ .warning := by
    decide +kernel
  exact silent _ warned rfl

end Session

end WireModules
