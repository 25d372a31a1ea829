import Mathlib.Data.String.Basic
import WireModules.Proofs.FailedSessions
import WireModules.Proofs.ModuleShape
import WireModules.Proofs.ReadingFaults
import WireModules.Proofs.ResolvedPaths
import WireModules.Proofs.SoundSessions

/-!
# The faults of a session

While its host does not fail, an open session ends a load or a compilation with a failure about the
inputs or at an integer literal that is too long, unless a search comes to a path that cannot be looked
up: to a name that is too long, or into a directory that is closed. Then it ends in that fault, which
users are not told of. What would go wrong with the tool itself cannot: a session keeps its coordinator
attached and queues only what can be opened, and what compiling takes for granted holds. How much memory
and stack a run takes is not looked at here.
-/

set_option autoImplicit false

namespace WireModules

/-- An action ends in a fault that users are not told of. -/
def Action.EndsUnreported {σ α : Type} (action : Action σ α) (before : σ) (fault : Fault) : Prop :=
  (∃ after, action.run before = .error fault after) ∧ ¬fault.IsReported

/-! ## The search for an input -/

namespace FileSystem

variable {files : FileSystem} {requested path : Path} {base : Option Path} {libraries : List Place}
  {paths : List Path} {fault : Fault}

/-- What is found can be looked up again in normal form. -/
theorem isFile_of_resolveInput (cleanRequest : requested.IsClean)
    (cleanBase : ∀ directory ∈ base, directory.IsClean)
    (cleanPlaces : ∀ directory, .path directory ∈ libraries → directory.IsClean)
    (resolved : files.resolveInput requested base libraries = .ok path) (fault : Fault) :
    files.isFile path.normalize ≠ .error fault := by
  obtain ⟨found, first, rfl⟩ := findM?_of_resolveInput resolved
  obtain ⟨candidate, present⟩ := exists_of_findM?_eq_some first
  obtain ⟨location, there⟩ := contains_eq_true_iff.mp present
  have clean := isClean_of_mem_candidates cleanRequest cleanBase cleanPlaces candidate
  rw [Path.normalize_normalize]
  intro failed
  obtain ⟨error, refused, _⟩ := isFile_eq_error_iff.mp failed
  cases (refused_iff.mp refused).1.symm.trans (lookUp_normalize clean there)

/-- A search through paths ends in a fault exactly at one that cannot be looked up, and otherwise tells
what it does not find. -/
theorem answer_eq_error_iff : files.answer requested paths = .error fault ↔
    paths.findM? files.contains = .error fault ∨
      paths.findM? files.contains = .ok none ∧
        fault = .failure (.inputNotFound (toString requested)) := by
  rw [answer]
  cases paths.findM? files.contains with
  | error own =>
    change Except.error own = _ ↔ _
    simp
  | ok result =>
    cases result with
    | none =>
      change Except.error _ = _ ↔ _
      simp [eq_comm]
    | some found =>
      change Except.ok _ = _ ↔ _
      simp

theorem refused_of_findM?_eq_error (ended : paths.findM? files.contains = .error fault) :
    ∃ path error, files.Refused path error ∧ fault = .lookup path error := by
  obtain ⟨path, _, failed⟩ := exists_of_findM?_eq_error ended
  exact ⟨path, contains_eq_error_iff.mp failed⟩

end FileSystem

namespace Session

variable {host : Host} {before : Session GlueBinder} {files : FileSystem} {fault : Fault}

/-! ## Compiling -/

/-- Reading the queue ends in the search for a module that is asked for, and all that was told of until
then is taken. -/
def StopsInSearch (environment : Environment GlueBinder) (files : FileSystem)
    (session : Session GlueBinder) (fault : Fault) : Prop :=
  ∃ loading request taken,
    (Loading.readProgram files session.options session.queue).run {} = .error fault loading ∧
    loading.Asks request ∧
    Loading.findImport files session.options.searchOrder request Loading.moduleExtensions =
      .error fault ∧
    (loading.events.forM (react environment)).run session.beginCompiling = .ok ⟨⟩ taken

/-- What is queued compiles without other faults than those of inputs, unless a search fails. -/
theorem Sound.fault_of_outcome (sound : before.Sound)
    (failed : (Compilation.ofQueue files before.options before.queue).outcome = .error fault) :
    fault.IsReported ∨ ∃ loading request,
      (Loading.readProgram files before.options before.queue).run {} = .error fault loading ∧
      (Compilation.ofQueue files before.options before.queue).events = loading.events ∧
      loading.Asks request ∧
      Loading.findImport files before.options.searchOrder request Loading.moduleExtensions =
        .error fault := by
  rcases Compilation.fault_of_ofQueue failed with ⟨loading, read, events, own⟩ | ⟨_, rfl⟩
  · cases own with
    | rejected diagnostics => exact .inl trivial
    | tooLong refusal => exact .inl trivial
    | searchNowhere member =>
      obtain ⟨_, isPath, _⟩ := sound.searchable _ member
      cases isPath
    | nullInput member null => cases null.symm.trans (sound.queued _ member).2
    | refused asks _ searched => exact .inr ⟨loading, _, read, events, asks, searched⟩
  · exact .inl trivial

theorem Sound.refused_of_stopsInSearch {environment : Environment GlueBinder} (sound : before.Sound)
    (stops : before.StopsInSearch environment files fault) :
    ∃ path error, files.Refused path error ∧ fault = .lookup path error := by
  obtain ⟨_, _, _, _, _, searched, _⟩ := stops
  rcases Loading.findImport_error searched with ⟨_, member⟩ | refused
  · obtain ⟨_, isPath, _⟩ := sound.searchable _ member
    cases isPath
  · exact refused

/-- A compilation that begins ends in the faults of its delivery. -/
theorem compile_error_iff (opened : before.closed = false) (running : before.stage ≠ .failed)
    (waiting : before.queue.isEmpty = false) :
    (∃ after, (compile (.standard host) files).run before = .error fault after) ↔
      ∃ after, ((before.compilation (.standard host) files).deliver (react (.standard host))).run
        before.beginCompiling = .error fault after := by
  rw [run_compile, if_neg (by simp [opened]), if_neg running, if_neg (by simp [waiting]), run_conclude]
  cases ((before.compilation (.standard host) files).deliver (react (.standard host))).run
    before.beginCompiling with
  | ok program after => simp
  | error own after => simp

theorem Sound.compile_endsUnreported_iff (answers : host.Answers) (sound : before.Sound)
    (opened : before.closed = false) :
    (compile (.standard host) files).EndsUnreported before fault ↔
      before.stage ≠ .failed ∧ before.queue.isEmpty = false ∧
        before.StopsInSearch (.standard host) files fault := by
  constructor
  · rintro ⟨⟨after, failed⟩, unreported⟩
    have isOpen : ¬before.closed = true := by simp [opened]
    by_cases running : before.stage = .failed
    · rw [run_compile, if_neg isOpen, if_pos running] at failed
      cases failed
      exact absurd trivial unreported
    by_cases empty : before.queue.isEmpty = true
    · rw [run_compile, if_neg isOpen, if_neg running, if_pos empty] at failed
      cases failed
    have waiting := Bool.eq_false_iff.mpr empty
    refine ⟨running, waiting, ?_⟩
    obtain ⟨taken, delivered⟩ := (compile_error_iff opened running waiting).mp ⟨after, failed⟩
    rcases deliver_error_iff.mp delivered with refused | ⟨all, outcome⟩
    · have ends : Action.Ends Sound Fault.IsReported
          (((before.compilation (.standard host) files).events.forM (react (.standard host))).run
            before.beginCompiling) :=
        safe_events answers (fun _ member => Compilation.extracts_of_mem_events member) _
          sound.beginCompiling
      rw [refused] at ends
      exact absurd ends.1 unreported
    · obtain ⟨loading, request, read, events, asks, searched⟩ :=
        (sound.fault_of_outcome outcome).resolve_left unreported
      exact ⟨loading, request, taken, read, asks, searched, events ▸ all⟩
  · rintro ⟨running, waiting, loading, request, taken, read, asks, searched, all⟩
    have compilation : before.compilation (.standard host) files =
        ⟨loading.events, .error fault⟩ := by
      change Compilation.ofQueue files before.options before.queue = _
      rw [Compilation.ofQueue, read]
    refine ⟨(compile_error_iff opened running waiting).mpr ⟨taken, ?_⟩, ?_⟩
    · rw [compilation]
      exact deliver_error_iff.mpr (.inr ⟨all, rfl⟩)
    · rcases Loading.findImport_error searched with ⟨rfl, _⟩ | ⟨_, _, _, rfl⟩ <;> exact id

/-! ## Loading -/

theorem Sound.load_endsUnreported_iff (sound : before.Sound) (opened : before.closed = false)
    {requested : Path} {base : Option Path} (cleanRequest : requested.IsClean)
    (cleanBase : ∀ directory ∈ base, directory.IsClean) :
    (load (.standard host) files requested base).EndsUnreported before fault ↔
      (FileSystem.candidates requested base before.options.directories).findM? files.contains =
        .error fault := by
  have searchOrder := sound.searchable.searchOrder_eq
  have answered : files.resolveInput requested base before.options.searchOrder =
      files.answer requested (FileSystem.candidates requested base before.options.directories) := by
    rw [searchOrder]
    exact FileSystem.resolveInput_eq_answer
  have cleanPlaces : ∀ directory, .path directory ∈ before.options.searchOrder →
      directory.IsClean := by
    intro directory member
    obtain ⟨_, same, clean⟩ := sound.searchable _ member
    cases same
    exact clean
  rw [Action.EndsUnreported, run_load, if_neg (by simp [opened])]
  cases resolved : files.resolveInput requested base before.options.searchOrder with
  | error own =>
    rw [answered] at resolved
    constructor
    · rintro ⟨⟨after, failed⟩, unreported⟩
      cases failed
      rcases FileSystem.answer_eq_error_iff.mp resolved with searched | ⟨_, rfl⟩
      · exact searched
      · exact absurd trivial unreported
    · intro searched
      obtain ⟨_, _, _, rfl⟩ := FileSystem.refused_of_findM?_eq_error searched
      cases resolved.symm.trans (FileSystem.answer_eq_error_iff.mpr (.inl searched))
      exact ⟨⟨_, rfl⟩, id⟩
  | ok path =>
    constructor
    · rintro ⟨⟨after, failed⟩, unreported⟩
      have openable := Path.hasNull_normalize (FileSystem.hasNull_of_resolveInput resolved)
      have ends := sound.beginLoading.scheduled host files openable
      dsimp only at failed
      rw [failed] at ends
      rcases ends.1 with reported | looked
      · exact absurd reported unreported
      · cases FileSystem.isFile_of_resolveInput cleanRequest cleanBase cleanPlaces resolved _ looked
    · intro searched
      rw [answered] at resolved
      cases resolved.symm.trans (FileSystem.answer_eq_error_iff.mpr (.inl searched))

/-! ## Histories -/

/-- However an open session was used, if the host does not fail and every place to search is a path, a
load ends in a fault that users are not told of exactly if its search comes to a path that cannot be
looked up, and a compilation exactly if the search for a module does that is asked for when everything
before it has been taken. Nor do the parts come upon anything else that they take for granted and that
is not so: what is queued has a kind, the types of every unit have records, resolution knows all names
that it follows, and what is parsed has the shape of a module. -/
theorem endsUnreported_iff (host : Host) (answers : host.Answers) (options : Options)
    (searchable : options.IsSearchable) (glue : GlueBinder) :
    (∀ session, LeadsTo (.standard host) (start (.standard host) options glue) session →
      (∀ path ∈ session.queue.paths, path.inputKind?.isSome = true) ∧
      (session.closed = false → ∀ (files : FileSystem) (fault : Fault),
        (∀ requested base, requested.IsClean → (∀ directory ∈ base, directory.IsClean) →
          ((load (.standard host) files requested base).EndsUnreported session fault ↔
            ∃ path error, files.Refused path error ∧ fault = .lookup path error ∧
              (FileSystem.candidates requested base session.options.directories).findM?
                files.contains = .error fault)) ∧
        ((compile (.standard host) files).EndsUnreported session fault ↔
          session.stage ≠ .failed ∧ session.queue.isEmpty = false ∧
            ∃ path error, files.Refused path error ∧ fault = .lookup path error ∧
              session.StopsInSearch (.standard host) files fault))) ∧
    (∀ files queue,
      (∀ event ∈ (Compilation.ofQueue files options queue).events, event.Extracts) ∧
      Resolve.Grounded (Loading.ofQueue files options queue).units) ∧
    ∀ text written, WrittenModule.read text = .ok written →
      ∃ occurrences, WrittenModule.machine.Reads written .start [] text occurrences ∧
        written.Shape (occurrences.map Occurrence.terminal) := by
  refine ⟨?_, ?_, ?_⟩
  · intro session leads
    have sound := leads.sound answers (sound_start host searchable glue)
    refine ⟨fun path member => (sound.queued path member).1, fun opened files fault => ⟨?_, ?_⟩⟩
    · intro requested base cleanRequest cleanBase
      rw [sound.load_endsUnreported_iff opened cleanRequest cleanBase]
      refine ⟨fun searched => ?_, fun ⟨_, _, _, _, searched⟩ => searched⟩
      obtain ⟨path, error, refused, same⟩ := FileSystem.refused_of_findM?_eq_error searched
      exact ⟨path, error, refused, same, searched⟩
    · rw [sound.compile_endsUnreported_iff answers opened]
      refine and_congr_right fun _ => and_congr_right fun _ => ?_
      refine ⟨fun stops => ?_, fun ⟨_, _, _, _, stops⟩ => stops⟩
      obtain ⟨path, error, refused, same⟩ := sound.refused_of_stopsInSearch stops
      exact ⟨path, error, refused, same, stops⟩
  · intro files queue
    exact ⟨fun event member => Compilation.extracts_of_mem_events member,
      Resolve.grounded_of_isParsed (Loading.ended_ofQueue files options queue).isParsed⟩
  · intro text written denotes
    obtain ⟨occurrences, reads⟩ := Machine.run_eq_ok_iff.mp denotes
    exact ⟨occurrences, reads, WrittenModule.shape_of_read reads⟩

/-- A session that has compiled a module and has loaded it again after an edit that breaks it. -/
def edited : Session GlueBinder :=
  let loaded := (load .standard firstEdition (.ofString "m.weft") none).finalState
    (start .standard .plain {})
  let compiled := (compile .standard firstEdition).finalState loaded
  (load .standard brokenEdition (.ofString "m.weft") none).finalState compiled

theorem leadsTo_edited : LeadsTo .standard (start .standard .plain {}) edited :=
  .load _ _ _ (.compile _ (.load _ _ _ .refl))

theorem answers_silent : Host.silent.Answers := by
  intro earlier event kind text fails
  cases fails

theorem isSearchable_plain : Options.IsSearchable .plain := by
  intro place member
  cases List.mem_singleton.mp member
  exact ⟨.here, rfl, fun _ inside => by cases inside⟩

/-- A name of more letters than a name may have bytes. -/
def overlongName : String :=
  String.ofList (List.replicate 300 'a' ++ ".weft".toList)

def overlong : Path := ⟨.relative, [overlongName]⟩

theorem size_overlongName : overlongName.utf8ByteSize = 305 :=
  (String.utf8ByteSize_ofList _).trans (by decide +kernel)

theorem isClean_overlong : overlong.IsClean :=
  List.forall_mem_singleton.mpr
    (Path.isBlank_of_size (Nat.lt_of_lt_of_eq (by decide) size_overlongName.symm))

theorem refused_overlong (entries : List (String × FileTree)) :
    (FileSystem.ofEntries entries).Refused overlong .nameTooLong := by
  have unnull : '\x00' ∉ overlongName.toList := by
    intro member
    rcases List.mem_append.mp (String.toList_ofList ▸ member) with letter | extension
    · exact absurd (List.eq_of_mem_replicate letter) (by decide)
    · exact absurd extension (by decide)
  have long : FileSystem.nameLimit < overlongName.utf8ByteSize :=
    Nat.lt_of_lt_of_eq (by decide) size_overlongName.symm
  have short : overlongName.utf8ByteSize < Path.sizeLimit :=
    Nat.lt_of_le_of_lt size_overlongName.le (by decide)
  exact FileSystem.refused_of_nameLimit rfl rfl unnull long short

/-- The name is looked for at once, before what else there may be. -/
theorem searched_overlong (entries : List (String × FileTree)) (libraries : List Path) :
    (FileSystem.candidates overlong none libraries).findM? (FileSystem.ofEntries entries).contains =
      .error (.lookup overlong .nameTooLong) :=
  findM?_cons_of_error (FileSystem.contains_eq_error_iff.mpr ⟨_, refused_overlong entries, rfl⟩) _

/-- A module that asks for another, beside the directory in which one works; and that one is closed. -/
def closedDirectory : FileSystem where
  root := .directory
    [("dir", .directory [("m.weft", .file "module m;\nimport n;\n".toUTF8.toList)]),
      ("work", .directory [])]
  workingDirectory := ["work"]
  closed := [["work"]]

/-- A session that has loaded this module. -/
def importing : Session GlueBinder :=
  (load .standard closedDirectory (.ofString "/dir/m.weft") none).finalState
    (start .standard .plain {})

theorem compile_importing : (compile .standard closedDirectory).EndsUnreported importing
    (.lookup (.ofString "n.weft") .permissionDenied) :=
  ⟨Action.exists_of_fault?_eq_some (by decide +kernel), id⟩

/-- The broken module can be loaded again; the name that is too long ends a load in a fault of which
users are not told. So does the closed directory end a compilation, in the search for the other module. -/
theorem endsUnreported_iff_edited :
    Options.IsSearchable .plain ∧ LeadsTo .standard (start .standard .plain {}) edited ∧
      LeadsTo .standard (start .standard .plain {}) importing ∧
      (∃ path ∈ edited.queue.paths, path.inputKind?.isSome = true) ∧
      (∀ fault, ¬(load .standard brokenEdition (.ofString "m.weft") none).EndsUnreported edited fault) ∧
      (load .standard brokenEdition overlong none).EndsUnreported edited
        (.lookup overlong .nameTooLong) ∧
      importing.StopsInSearch .standard closedDirectory
        (.lookup (.ofString "n.weft") .permissionDenied) := by
  have waits : Path.ofString "m.weft" ∈ edited.queue.paths := by
    decide +kernel
  have opened : edited.closed = false := by
    decide +kernel
  have openedToo : importing.closed = false := by
    decide +kernel
  have leadsTo_importing : LeadsTo .standard (start .standard .plain {}) importing :=
    .load _ _ _ .refl
  obtain ⟨calls, _⟩ := endsUnreported_iff .silent answers_silent .plain isSearchable_plain {}
  obtain ⟨kinds, faults⟩ := calls edited leadsTo_edited
  obtain ⟨_, faultsToo⟩ := calls importing leadsTo_importing
  refine ⟨isSearchable_plain, leadsTo_edited, leadsTo_importing, ⟨_, waits, kinds _ waits⟩,
    fun fault ends => ?_, ?_, ?_⟩
  · obtain ⟨_, _, _, _, searched⟩ :=
      ((faults opened brokenEdition fault).1 _ none (Path.isClean_ofString _) nofun).mp ends
    have found : (FileSystem.candidates (.ofString "m.weft") none edited.options.directories).findM?
        brokenEdition.contains = .ok (some (.ofString "m.weft")) :=
      eq_ok_of_toOption (by decide +kernel)
    cases found.symm.trans searched
  · exact ((faults opened brokenEdition _).1 _ none isClean_overlong nofun).mpr
      ⟨_, _, refused_overlong _, rfl, searched_overlong _ _⟩
  · obtain ⟨_, _, _, _, _, _, stops⟩ :=
      (faultsToo openedToo closedDirectory _).2.mp compile_importing
    exact stops

/-- A name that is too long ends the load of an open session in a fault that is neither a failure about
inputs nor a literal that is too long. -/
theorem load_endsUnreported : ¬ ∀ host : Host, host.Answers →
    ∀ (options : Options) (glue : GlueBinder), options.IsSearchable →
      ∀ session, LeadsTo (.standard host) (start (.standard host) options glue) session →
        session.closed = false → ∀ (files : FileSystem) (requested : Path) (base : Option Path) fault
          after, (load (.standard host) files requested base).run session = .error fault after →
            fault.IsReported := by
  intro always
  have sound : (start .standard .plain {}).Sound := sound_start .silent isSearchable_plain {}
  have noBase : ∀ directory ∈ (none : Option Path), directory.IsClean := nofun
  obtain ⟨⟨after, failed⟩, unreported⟩ :=
    (sound.load_endsUnreported_iff rfl isClean_overlong noBase).mpr (searched_overlong [] _)
  exact unreported
    (always .silent answers_silent .plain {} isSearchable_plain _ .refl rfl _ _ _ _ _ failed)

end Session

end WireModules
