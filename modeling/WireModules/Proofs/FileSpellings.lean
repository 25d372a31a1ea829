import WireModules.Proofs.LoadOutcome
import WireModules.Proofs.LocatedPaths
import WireModules.Proofs.ProgramUnits

/-!
# One file under several spellings

Files are told apart by the normal forms of their paths, and a relative path and an absolute one have
different normal forms also where they lead to the same file. So a file is compiled once for each
spelling under which it is queued or found, and only once if every directory is spelled in one way.
-/

set_option autoImplicit false

namespace WireModules

namespace Path

theorem isClean_of_normal {path : Path} (normal : path.normalize = path) : path.IsClean := by
  have collapsed := collapsed_normalize path
  rw [normal] at collapsed
  have filled : ∀ {stack : List String}, Collapsed path.anchor stack →
      ∀ component ∈ stack, isBlank component = false := by
    intro stack collapsed
    induction collapsed with
    | nil => simp
    | plain own _ ih => exact List.forall_mem_cons.mpr ⟨own.1, ih⟩
    | up _ _ _ ih => exact List.forall_mem_cons.mpr ⟨by decide, ih⟩
  exact fun component member => filled collapsed component (List.mem_reverse.mpr member)

/-- A path in normal form with an extension ends in something plain. -/
theorem exists_child_of_suffix {path : Path} (normal : path.normalize = path)
    (extended : path.suffix ≠ "") :
    ∃ directory component, IsPlain component ∧ path = child directory component := by
  rcases (isClean_of_normal normal).cases with empty | ⟨directory, rfl⟩ | plain
  · have none : path.suffix = "" := by
      rw [suffix, name, empty]
      decide
    exact absurd none extended
  · have none : (child directory up).suffix = "" := by
      rw [suffix, name_child]
      decide
    exact absurd none extended
  · exact plain

end Path

theorem FileSystem.destination_child {files : FileSystem} {directory : Path} {component : String}
    (plain : Path.IsPlain component) :
    files.destination (directory.child component) = files.destination directory ++ [component] := by
  change (directory.components ++ [component]).foldl onward (files.origin directory) = _
  rw [List.foldl_append, List.foldl_cons, List.foldl_nil, onward, if_neg plain.2]
  rfl

namespace Loading

variable {sources : Sources} {loading : Loading}

/-- A module was read at a path, which ends in something plain. -/
structure ReadAt (files : FileSystem) (path : Path) : Prop where
  located : files.locate path = .ok (files.destination path)
  named : ∃ directory component, Path.IsPlain component ∧ path = Path.child directory component

theorem ReadAt.of_load {files : FileSystem} {path directory : Path} {component : String}
    {module : Module} (loaded : Module.load files path = .ok (.ok module))
    (plain : Path.IsPlain component) (inDirectory : path = directory.child component) :
    ReadAt files path := by
  obtain ⟨location, located⟩ := Module.locate_of_load loaded
  have leads : location = files.destination path := FileSystem.eq_destination located
  exact ⟨leads ▸ located, directory, component, plain, inDirectory⟩

theorem Steps.readAt (steps : Steps sources opening loading)
    (normal : ∀ path ∈ sources.inputs, path.normalize = path) :
    ∀ path ∈ loading.paths, ReadAt sources.files path := by
  induction steps with
  | refl =>
    intro path member
    cases member
  | tail earlier step ih =>
    cases step with
    | logged text => exact ih
    | linked queued => exact ih
    | @input path module queued _ loaded =>
      obtain ⟨listed, isModule⟩ := List.mem_filter.mp queued
      have extended : path.suffix ≠ "" := by
        intro none
        rw [none] at isModule
        cases isModule
      obtain ⟨directory, component, plain, inDirectory⟩ :=
        Path.exists_child_of_suffix (normal path listed) extended
      rw [paths_withUnit]
      exact List.forall_mem_append.mpr
        ⟨ih, List.forall_mem_singleton.mpr (.of_load loaded plain inDirectory)⟩
    | imported asks located _ loaded _ =>
      obtain ⟨extension, listed, directory, _, inDirectory⟩ :=
        exists_child_of_findImport (asks.isName (Steps.isParsed earlier)) located
      rw [paths_withUnit]
      exact List.forall_mem_append.mpr
        ⟨ih, List.forall_mem_singleton.mpr
          (.of_load loaded (isPlain_append_extension listed) inDirectory)⟩

/-- No directory that is searched, or that a queued file stands in, is spelled in two ways. -/
def Sources.SpelledOnce (sources : Sources) : Prop :=
  ∀ first ∈ sources.directories, ∀ second ∈ sources.directories,
    sources.files.destination first = sources.files.destination second → first = second

/-- Where directories are spelled in one way, so are the files in them. -/
theorem Steps.eq_of_destination (steps : Steps sources opening loading)
    (normal : ∀ path ∈ sources.inputs, path.normalize = path) (once : sources.SpelledOnce)
    {first second : Path} (member : first ∈ loading.paths) (other : second ∈ loading.paths)
    (same : sources.files.destination first = sources.files.destination second) :
    first = second := by
  have normalized := Steps.normalize_of_mem_paths steps normal
  have reached := (Steps.filed steps).reached
  have searched : ∀ {directory : Path} {component : String}, Path.IsPlain component →
      directory.child component ∈ loading.paths → directory ∈ sources.directories := by
    intro directory component plain listed
    have normalParent : directory.normalize = directory := by
      have whole := normalized _ listed
      rw [Path.normalize_child plain] at whole
      simpa using congrArg Path.parent whole
    have parent := Sources.parent_mem_directories (reached _ listed)
    rwa [Path.parent_child, normalParent] at parent
  obtain ⟨directory, component, plain, rfl⟩ := (Steps.readAt steps normal first member).named
  obtain ⟨place, name, plainName, rfl⟩ := (Steps.readAt steps normal second other).named
  rw [FileSystem.destination_child plain, FileSystem.destination_child plainName] at same
  obtain ⟨sameDirectory, sameName⟩ := List.append_inj' same rfl
  rw [once directory (searched plain member) place (searched plainName other) sameDirectory,
    List.head_eq_of_cons_eq sameName]

theorem FileSystem.destination_of_not_mem_up {files : FileSystem} {path : Path}
    (down : Path.up ∉ path.components) :
    files.destination path = files.origin path ++ path.components := by
  have onto : ∀ (components : List String) (start : Location), Path.up ∉ components →
      components.foldl FileSystem.onward start = start ++ components := by
    intro components
    induction components with
    | nil => exact fun start _ => (List.append_nil start).symm
    | cons component rest ih =>
      intro start absent
      obtain ⟨own, others⟩ := not_or.mp (mt List.mem_cons.mpr absent)
      rw [List.foldl_cons, FileSystem.onward, if_neg (Ne.symm own), ih _ others,
        List.append_assoc, List.singleton_append]
  exact onto path.components (files.origin path) down

/-- It is enough that all directories are given from the root, or all from the working directory, and
none of them leads back up. -/
theorem Sources.spelledOnce_of_anchor {anchor : Anchor}
    (alike : ∀ directory ∈ sources.directories,
      directory.anchor = anchor ∧ Path.up ∉ directory.components) : sources.SpelledOnce := by
  intro first member second other same
  obtain ⟨anchorFirst, downFirst⟩ := alike first member
  obtain ⟨anchorSecond, downSecond⟩ := alike second other
  have origins : sources.files.origin first = sources.files.origin second := by
    simp [FileSystem.origin, Path.isAbsolute, anchorFirst, anchorSecond]
  rw [FileSystem.destination_of_not_mem_up downFirst, FileSystem.destination_of_not_mem_up downSecond,
    origins] at same
  cases first
  cases second
  simp_all

end Loading

/-! ## Programs -/

/-- Queueing changes nothing exactly if the normal form of the path is in the queue. -/
theorem Queue.add_unchanged_iff {queue later : Queue} {files : FileSystem} {path : Path}
    (added : queue.add files path = .ok later) : later = queue ↔ path.normalize ∈ queue.paths := by
  obtain ⟨_, _, ⟨present, same⟩ | ⟨absent, longer⟩⟩ := add_ok added
  · exact iff_of_true same present
  · refine iff_of_false ?_ absent
    rintro rfl
    simp at longer

/-- A program has no two units of one path. It has two units of one file exactly if it has units of two
paths that lead to the same place from the working directory, whatever files there are; and it has none
if no directory that is searched is spelled in two ways. Queueing goes by the spelling too. -/
theorem files_distinct_iff {files : FileSystem} {options : Options} {queue : Queue}
    {program : Program} (filled : queue.Filled)
    (compiled : (Compilation.ofQueue files options queue).outcome = .ok program) :
    let paths := program.units.filterMap ProgramUnit.path
    paths.Nodup ∧ (∀ path ∈ paths, path.normalize = path ∧ ∃ location, files.locate path = .ok location) ∧
      ((paths.map files.locate).Nodup ↔ (paths.map files.destination).Nodup) ∧
      ((Loading.Sources.ofQueue files options queue).SpelledOnce → (paths.map files.locate).Nodup) ∧
      ∀ path later, queue.add files path = .ok later →
        (later = queue ↔ path.normalize ∈ queue.paths) := by
  obtain ⟨loading, read, rfl, _⟩ := Compilation.ofQueue_ok compiled
  obtain ⟨steps, _⟩ := Loading.readProgram_ok read
  have normal : ∀ path ∈ queue.paths, path.normalize = path :=
    fun path member => (filled.sound.2 path member).normal
  have unitPaths : (Resolution.ofUnits loading.units).units.filterMap ProgramUnit.path =
      loading.paths := by
    change (loading.units.map _).filterMap ProgramUnit.path = loading.paths
    rw [List.filterMap_map]
    rfl
  have readAt : ∀ path ∈ loading.paths, Loading.ReadAt files path :=
    Loading.Steps.readAt steps normal
  have located : loading.paths.map files.locate =
      (loading.paths.map files.destination).map Except.ok := by
    rw [List.map_map]
    exact List.map_congr_left fun path member => (readAt path member).located
  intro paths
  have same : paths = loading.paths := unitPaths
  have files_iff : (paths.map files.locate).Nodup ↔ (paths.map files.destination).Nodup := by
    rw [same, located]
    exact List.nodup_map_iff fun _ _ => Except.ok.inj
  refine ⟨?_, ?_, files_iff, fun once => files_iff.mpr ?_, fun _ _ => Queue.add_unchanged_iff⟩
  · rw [same]
    exact (Loading.Steps.filed steps).unique
  · rw [same]
    exact fun path member => ⟨Loading.Steps.normalize_of_mem_paths steps normal path member,
      _, (readAt path member).located⟩
  · rw [same]
    refine (Loading.Steps.filed steps).unique.map_on fun first member second other leads => ?_
    exact Loading.Steps.eq_of_destination steps normal once member other leads

/-- A working directory with two modules, of which one imports the other. -/
def workFiles : FileSystem :=
  { FileSystem.ofEntries
      [("work", .directory
        [("a.weft", .file "module a;\nimport b;\n".toUTF8.toList),
          ("b.weft", .file "module b;\n".toUTF8.toList)])] with
    workingDirectory := ["work"] }

def workQueue : Queue :=
  ⟨[⟨.relative, ["a.weft"]⟩]⟩

theorem filled_workQueue : workQueue.Filled := by
  have own : Queue.add {} workFiles (.ofString "./a.weft") = .ok workQueue := rfl
  exact .added .empty own

/-- All that is searched for the two modules is the working directory, so that both are compiled once. -/
theorem files_distinct_iff_workFiles : workQueue.Filled ∧ ∃ program,
    (Compilation.ofQueue workFiles .plain workQueue).outcome = .ok program ∧
      program.units.filterMap ProgramUnit.path =
        [⟨.relative, ["a.weft"]⟩, ⟨.relative, ["b.weft"]⟩] ∧
      ((program.units.filterMap ProgramUnit.path).map workFiles.locate).Nodup := by
  have files : ((Compilation.ofQueue workFiles .plain workQueue).outcome.toOption.map
      fun program => program.units.filterMap ProgramUnit.path) =
        some [⟨.relative, ["a.weft"]⟩, ⟨.relative, ["b.weft"]⟩] := by
    decide +kernel
  have searched : ∀ directory ∈ (Loading.Sources.ofQueue workFiles .plain workQueue).directories,
      directory.anchor = .relative ∧ Path.up ∉ directory.components := by
    decide +kernel
  have once : (Loading.Sources.ofQueue workFiles .plain workQueue).SpelledOnce :=
    Loading.Sources.spelledOnce_of_anchor searched
  obtain ⟨program, compiled, paths⟩ := Option.map_eq_some_iff.mp files
  obtain ⟨_, _, _, distinct, _⟩ :=
    files_distinct_iff filled_workQueue (eq_ok_of_toOption compiled)
  exact ⟨filled_workQueue, program, eq_ok_of_toOption compiled, paths, distinct once⟩

/-- The queue with one of its files queued again, from the root. -/
def respelledQueue : Queue :=
  ⟨[⟨.relative, ["a.weft"]⟩, ⟨.root, ["work", "a.weft"]⟩]⟩

theorem filled_respelledQueue : respelledQueue.Filled := by
  have again : Queue.add workQueue workFiles (.ofString "/work/a.weft") = .ok respelledQueue := rfl
  exact .added filled_workQueue again

/-- A file that is queued under two spellings is compiled twice. -/
theorem file_compiled_twice :
    ¬ ∀ (files : FileSystem) (options : Options) (queue : Queue) (program : Program), queue.Filled →
      (Compilation.ofQueue files options queue).outcome = .ok program →
        ((program.units.filterMap ProgramUnit.path).map files.locate).Nodup := by
  intro always
  have repeats : ∃ program ∈ (Compilation.ofQueue workFiles .plain
      respelledQueue).outcome.toOption,
        program.units.filterMap ProgramUnit.path =
          [⟨.relative, ["a.weft"]⟩, ⟨.root, ["work", "a.weft"]⟩, ⟨.relative, ["b.weft"]⟩] := by
    decide +kernel
  obtain ⟨program, compiled, paths⟩ := repeats
  have distinct := always workFiles .plain respelledQueue program filled_respelledQueue
    (eq_ok_of_toOption compiled)
  have same : workFiles.locate ⟨.relative, ["a.weft"]⟩ =
      workFiles.locate ⟨.root, ["work", "a.weft"]⟩ := rfl
  rw [paths, List.map_cons, List.map_cons, same] at distinct
  exact (List.nodup_cons.mp distinct).1 (.head _)

end WireModules
