import Mathlib.Data.List.Nodup
import Mathlib.Data.List.Perm.Subperm
import WireModules.Proofs.DirectoryEntries
import WireModules.Proofs.ImportClosure
import WireModules.Proofs.ReadingEnd

/-!
# Reading comes to an end

No file is added twice, and a file that is added was queued or stands in a directory that is
searched: one of the search paths or one that a queued file stands in. What is found beside a file
that was found stands in the same directory again. So the file tree bounds the number of units, and
reading ends however modules import one another.
-/

set_option autoImplicit false

namespace WireModules

theorem length_flatMap_le {α β : Type} {items : List α} {entries : α → List β} {bound : Nat}
    (each : ∀ item, (entries item).length ≤ bound) :
    (items.flatMap entries).length ≤ items.length * bound := by
  induction items with
  | nil => simp
  | cons item rest ih =>
    have own := each item
    rw [List.flatMap_cons, List.length_append, List.length_cons, Nat.succ_mul]
    omega

theorem Module.locate_of_load {files : FileSystem} {path : Path} {module : Module}
    (loaded : Module.load files path = .ok (.ok module)) :
    ∃ location, files.locate path = .ok location := by
  simp only [Module.load] at loaded
  split at loaded
  · cases loaded
  · split at loaded
    · cases loaded
    · next text read =>
      rw [FileSystem.readSource] at read
      split at read
      · cases read
      · next bytes opened =>
        rw [FileSystem.read] at opened
        split at opened
        · cases opened
        · next location found => exact ⟨location, (FileSystem.lookUp_eq_ok_iff.mp found).2.2⟩

namespace Loading

/-! ## The files that can be reached -/

namespace Sources

/-- The directories that are searched: the search paths, and those that queued files stand in. -/
def directories (sources : Sources) : List Path :=
  (sources.searchOrder.filterMap Place.path?).map Path.normalize ++
    sources.inputs.map fun path => path.parent.normalize

/-- The queued files, and all that stands in a directory that is searched. -/
def reachable (sources : Sources) : List Path :=
  sources.inputs ++ sources.directories.flatMap fun directory =>
    (sources.files.entryNames directory).map directory.child

variable {sources : Sources}

theorem normalize_of_mem_directories {directory : Path}
    (searched : directory ∈ sources.directories) : directory.normalize = directory := by
  simp only [directories, List.mem_append, List.mem_map] at searched
  rcases searched with ⟨source, _, rfl⟩ | ⟨source, _, rfl⟩ <;> exact Path.normalize_normalize _

theorem mem_reachable_child {directory : Path} {component : String}
    (searched : directory ∈ sources.directories)
    (listed : component ∈ sources.files.entryNames directory) :
    directory.child component ∈ sources.reachable := by
  apply List.mem_append_right
  exact List.mem_flatMap.mpr ⟨directory, searched, List.mem_map_of_mem listed⟩

/-- A directory that a reachable file stands in is searched. -/
theorem parent_mem_directories {path : Path} (reached : path ∈ sources.reachable) :
    path.parent.normalize ∈ sources.directories := by
  rcases List.mem_append.mp reached with queued | found
  · exact List.mem_append_right _ (List.mem_map.mpr ⟨path, queued, rfl⟩)
  · obtain ⟨directory, searched, inside⟩ := List.mem_flatMap.mp found
    obtain ⟨component, _, rfl⟩ := List.mem_map.mp inside
    rw [Path.parent_child, normalize_of_mem_directories searched]
    exact searched

theorem length_reachable_le (sources : Sources) :
    sources.reachable.length ≤ sources.inputs.length +
      (sources.inputs.length + sources.searchOrder.length) * sources.files.root.size := by
  have directories : sources.directories.length ≤
      sources.inputs.length + sources.searchOrder.length := by
    have named := List.length_filterMap_le Place.path? sources.searchOrder
    simp only [Sources.directories, List.length_append, List.length_map]
    omega
  have found : (sources.directories.flatMap fun directory =>
      (sources.files.entryNames directory).map directory.child).length ≤
        sources.directories.length * sources.files.root.size := by
    apply length_flatMap_le
    intro directory
    rw [List.length_map]
    exact sources.files.length_entryNames_le directory
  have widened := Nat.mul_le_mul_right sources.files.root.size directories
  rw [reachable, List.length_append]
  omega

end Sources

/-! ## The files of the units -/

variable {sources : Sources} {loading : Loading}

/-- The files that the units stand in. -/
def paths (loading : Loading) : List Path :=
  loading.units.filterMap ProgramUnit.path

theorem mem_paths_iff {path : Path} : path ∈ loading.paths ↔ loading.hasFile path = true := by
  simp [paths, hasFile]

@[simp] theorem paths_withUnit (path : Path) (module : Module) :
    (loading.withUnit (.inFile path module)).paths = loading.paths ++ [path] := by
  simp [paths, ProgramUnit.inFile]

/-- Where reading stands with the files: only the prelude has none, no file is read twice, and all
can be reached. -/
structure Filed (sources : Sources) (loading : Loading) : Prop where
  counted : loading.units.length = loading.paths.length + 1
  unique : loading.paths.Nodup
  reached : ∀ path ∈ loading.paths, path ∈ sources.reachable

theorem Filed.withUnit (filed : Filed sources loading) {path : Path} {module : Module}
    (absent : loading.hasFile path = false) (reached : path ∈ sources.reachable) :
    Filed sources (loading.withUnit (.inFile path module)) where
  counted := by simp [filed.counted]
  unique := by
    have fresh : path ∉ loading.paths := by simp [mem_paths_iff, absent]
    rw [paths_withUnit, ← List.concat_eq_append]
    exact filed.unique.concat fresh
  reached := by
    rw [paths_withUnit]
    exact List.forall_mem_append.mpr ⟨filed.reached, List.forall_mem_singleton.mpr reached⟩

/-- What is found for an import can be reached. -/
theorem Filed.reachable_found (filed : Filed sources loading) {request : ImportRequest}
    {found : Path} {module : Module} (asks : Asks loading request)
    (named : Scan.isName request.name.toList = true)
    (located : findImport sources.files sources.searchOrder request moduleExtensions =
      .ok (some found))
    (loaded : Module.load sources.files found.normalize = .ok (.ok module)) :
    found.normalize ∈ sources.reachable := by
  obtain ⟨extension, listed, directory, place, inDirectory⟩ :=
    exists_child_of_findImport named located
  have searched : directory.normalize ∈ sources.directories := by
    rcases List.mem_append.mp place with beside | searchPath
    -- The importer can be reached itself, so that its directory is searched.
    · obtain ⟨importer, imports, same⟩ := Option.map_eq_some_iff.mp (Option.mem_toList.mp beside)
      cases same
      cases asks with
      | runtime => cases imports
      | unit member inside =>
        have listed : importer ∈ loading.paths := List.mem_filterMap.mpr ⟨_, member, imports⟩
        exact Sources.parent_mem_directories (filed.reached importer listed)
    · apply List.mem_append_left
      exact List.mem_map_of_mem (List.mem_filterMap.mpr ⟨_, searchPath, rfl⟩)
  obtain ⟨location, there⟩ := Module.locate_of_load loaded
  rw [inDirectory] at there ⊢
  exact Sources.mem_reachable_child searched
    (FileSystem.mem_entryNames_of_locate (isPlain_append_extension listed) there)

theorem Steps.filed (steps : Steps sources opening loading) : Filed sources loading := by
  induction steps with
  | refl =>
    have none : opening.paths = [] := rfl
    exact ⟨rfl, by simp [none], by simp [none]⟩
  | tail earlier step ih =>
    cases step with
    | logged text => exact ⟨ih.counted, ih.unique, ih.reached⟩
    | linked queued => exact ⟨ih.counted, ih.unique, ih.reached⟩
    | input queued absent loaded =>
      exact ih.withUnit absent (List.mem_append_left _ (List.mem_of_mem_filter queued))
    | imported asks located absent loaded named =>
      exact ih.withUnit absent
        (ih.reachable_found asks (asks.isName (Steps.isParsed earlier)) located loaded)

theorem Filed.length_units_lt (filed : Filed sources loading) :
    loading.units.length < unitBound sources.files sources.searchOrder sources.inputs := by
  have distinct := (List.subperm_of_subset filed.unique filed.reached).length_le
  have reachable := sources.length_reachable_le
  have counted := filed.counted
  have widened : (sources.inputs.length + sources.searchOrder.length) * sources.files.root.size ≤
      (sources.inputs.length + sources.searchOrder.length + 1) * (sources.files.root.size + 1) :=
    Nat.mul_le_mul (Nat.le_succ _) (Nat.le_succ _)
  rw [unitBound]
  omega

/-- One round of the loop over the units. -/
theorem run_satisfyAll_succ (files : FileSystem) (searchOrder : List Place) (fuel index : Nat)
    (before : Loading) :
    (satisfyAll files searchOrder (fuel + 1) index).run before =
      match before.units[index]? with
      | none => .ok () before
      | some unit =>
        (unit.module.imports.forM (satisfyImport files searchOrder unit) >>= fun _ =>
          satisfyAll files searchOrder fuel (index + 1)).run before := by
  change EStateM.run (match before.units[index]? with | none => _ | some unit => _) before = _
  cases before.units[index]? <;> rfl

/-- More fuel than enough makes no difference. -/
theorem run_satisfyAll_add {files : FileSystem} {searchOrder : List Place} {fuel index : Nat}
    {before : Loading}
    (enough : ∀ after, (satisfyAll files searchOrder fuel index).run before ≠
      .error .exhausted after) (more : Nat) :
    (satisfyAll files searchOrder (fuel + more) index).run before =
      (satisfyAll files searchOrder fuel index).run before := by
  induction fuel generalizing index before with
  | zero => exact absurd rfl (enough before)
  | succ fuel ih =>
    rw [run_satisfyAll_succ] at enough
    rw [Nat.succ_add, run_satisfyAll_succ, run_satisfyAll_succ]
    cases present : before.units[index]? with
    | none => rfl
    | some unit =>
      rw [present] at enough
      dsimp only at enough ⊢
      rw [EStateM.run_bind] at enough
      rw [EStateM.run_bind, EStateM.run_bind]
      cases ran : (unit.module.imports.forM (satisfyImport files searchOrder unit)).run before with
      | error fault after => rfl
      | ok _ between =>
        rw [ran] at enough
        exact ih enough

theorem satisfyAll_ne_exhausted (steps : Steps sources opening loading) (after : Loading) :
    (satisfyAll sources.files sources.searchOrder
      (unitBound sources.files sources.searchOrder sources.inputs) 0).run loading ≠
        .error .exhausted after := by
  intro failed
  obtain ⟨later, many⟩ := (satisfyAll_error (Nat.zero_le _) failed).2 rfl
  have few := (Steps.filed (steps.trans later)).length_units_lt
  omega

theorem readProgram_ne_exhausted (files : FileSystem) (options : Options) (queue : Queue)
    (loading : Loading) :
    (readProgram files options queue).run {} ≠ .error .exhausted loading := by
  intro failed
  obtain ⟨_, spent⟩ := readProgram_error failed
  obtain ⟨steps, many⟩ := spent rfl
  have few : loading.units.length < unitBound files options.searchOrder queue.paths :=
    (Steps.filed steps).length_units_lt
  omega

end Loading

end WireModules
