import Mathlib.Data.List.Basic
import WireModules.Proofs.ImportSearch
import WireModules.Proofs.ModuleNames
import WireModules.Proofs.ReadingEnd

/-!
# The file that an import loads

An import is looked for under one extension in every directory, and only then under the next. The
directory of the importing file comes first for each extension, so that it is not the first in all:
a module of the second extension there is overtaken by one of the first extension elsewhere.
-/

set_option autoImplicit false

namespace WireModules

/-- The file of a module, in a directory. -/
def moduleFile (directory : Path) (name extension : String) : Path :=
  directory.child (name ++ extension)

/-- A path is that of a file of the module in a directory. -/
def IsModuleFile (directory : Path) (name : String) (found : Path) : Prop :=
  ∃ extension ∈ Loading.moduleExtensions, found = moduleFile directory name extension

/-- A directory has a file of the module. -/
def FileSystem.Holds (files : FileSystem) (directory : Path) (name : String) : Prop :=
  ∃ extension ∈ Loading.moduleExtensions,
    files.contains (moduleFile directory name extension) = .ok true

/-- The paths that a module is looked for under, in order. -/
def moduleFiles (directories : List Path) (name : String) : List Path :=
  Loading.moduleExtensions.flatMap fun extension =>
    directories.map fun directory => moduleFile directory name extension

/-- The module in a directory stands behind one with the first extension in another directory. -/
structure FileSystem.Overtaken (files : FileSystem) (directory : Path) (others : List Path)
    (name : String) : Prop where
  lacks : files.contains (moduleFile directory name ".weft") = .ok false
  holds : files.contains (moduleFile directory name ".wir") = .ok true
  elsewhere : ∃ other ∈ others, files.contains (moduleFile other name ".weft") = .ok true

namespace FileSystem

variable {files : FileSystem} {directory found : Path} {others : List Path} {name : String}

/-- The first of the files of a module, by the files that there are with the first extension. -/
theorem findM?_moduleFiles (directories : List Path) :
    (moduleFiles directories name).findM? files.contains =
      (directories.map fun directory => moduleFile directory name ".weft").findM? files.contains >>=
        fun result =>
          result.elim
            ((directories.map fun directory => moduleFile directory name ".wir").findM?
              files.contains)
            fun found => .ok (some found) := by
  rw [← findM?_append]
  simp [moduleFiles, Loading.moduleExtensions]

theorem moduleFile_ne (first second : Path) :
    moduleFile first name ".weft" ≠ moduleFile second name ".wir" := by
  intro same
  have names := congrArg Path.name same
  rw [moduleFile, moduleFile, Path.name_child, Path.name_child] at names
  exact absurd (String.append_right_inj _ |>.mp names) (by decide)

/-- What is found of an overtaken module is the first file of it elsewhere that has the first
extension. -/
theorem Overtaken.elsewhere_found (overtaken : files.Overtaken directory others name)
    (first : (moduleFiles (directory :: others) name).findM? files.contains = .ok (some found)) :
    (others.map fun other => moduleFile other name ".weft").findM? files.contains =
      .ok (some found) := by
  rw [findM?_moduleFiles, List.map_cons, findM?_cons_of_false overtaken.lacks] at first
  obtain ⟨result, searched, continued⟩ := exists_of_bind_eq_ok first
  cases result with
  | some own =>
    cases continued
    exact searched
  | none =>
    obtain ⟨other, member, present⟩ := overtaken.elsewhere
    have absent := findM?_eq_none_iff.mp searched _ (List.mem_map_of_mem member)
    cases absent.symm.trans present

theorem Overtaken.not_isModuleFile (overtaken : files.Overtaken directory others name)
    (first : (moduleFiles (directory :: others) name).findM? files.contains = .ok (some found)) :
    ¬IsModuleFile directory name found := by
  obtain ⟨listed, present⟩ := exists_of_findM?_eq_some (overtaken.elsewhere_found first)
  obtain ⟨other, _, rfl⟩ := List.mem_map.mp listed
  rintro ⟨extension, listed, same⟩
  simp only [Loading.moduleExtensions, List.mem_cons, List.not_mem_nil, or_false] at listed
  rcases listed with rfl | rfl
  · rw [same, overtaken.lacks] at present
    cases present
  · exact moduleFile_ne _ _ same

/-- A module in the first directory is found there, unless it is overtaken. -/
theorem isModuleFile_of_not_overtaken (free : ¬files.Overtaken directory others name)
    (holds : files.Holds directory name)
    (first : (moduleFiles (directory :: others) name).findM? files.contains = .ok (some found)) :
    IsModuleFile directory name found := by
  rw [findM?_moduleFiles, List.map_cons, List.map_cons] at first
  cases primary : files.contains (moduleFile directory name ".weft") with
  | error fault =>
    rw [findM?_cons_of_error primary] at first
    cases first
  | ok present =>
    cases present with
    | true =>
      rw [findM?_cons_of_true primary] at first
      cases first
      exact ⟨".weft", .head _, rfl⟩
    | false =>
      have secondary : files.contains (moduleFile directory name ".wir") = .ok true := by
        obtain ⟨extension, listed, present⟩ := holds
        simp only [Loading.moduleExtensions, List.mem_cons, List.not_mem_nil, or_false] at listed
        rcases listed with rfl | rfl
        · rw [primary] at present
          cases present
        · exact present
      rw [findM?_cons_of_false primary] at first
      obtain ⟨result, searched, continued⟩ := exists_of_bind_eq_ok first
      cases result with
      | some own =>
        obtain ⟨listed, present⟩ := exists_of_findM?_eq_some searched
        obtain ⟨other, member, rfl⟩ := List.mem_map.mp listed
        exact absurd ⟨primary, secondary, other, member, present⟩ free
      | none =>
        have own := (findM?_cons_of_true secondary _).symm.trans continued
        cases own
        exact ⟨".wir", .tail _ (.head _), rfl⟩

end FileSystem

namespace Loading

variable {files : FileSystem} {searchOrder : List Place} {unit added : ProgramUnit}
  {imported : Import} {before : Loading} {request : ImportRequest} {found importer : Path}

theorem findM?_of_findImport {extensions : List String} {result : Option Path}
    (located : findImport files searchOrder request extensions = .ok result) :
    (extensions.flatMap fun extension =>
      ((importPlaces request searchOrder).filterMap Place.path?).map
        (· / Path.ofString (request.name ++ extension))).findM? files.contains = .ok result := by
  induction extensions with
  | nil => exact located
  | cons extension others ih =>
    obtain ⟨first, looked, continued⟩ := exists_of_bind_eq_ok located
    rw [List.flatMap_cons, findM?_append, FileSystem.findM?_of_firstExisting looked]
    cases first with
    | none => exact ih continued
    | some path => exact continued

theorem div_ofString {extension : String} (named : Scan.isName request.name.toList = true)
    (listed : extension ∈ moduleExtensions) (directory : Path) :
    directory / Path.ofString (request.name ++ extension) =
      moduleFile directory request.name extension := by
  have extensions : ∀ extension ∈ moduleExtensions, '/' ∉ extension.toList := by decide
  have wholeName : '/' ∉ request.name.toList := Scan.not_mem_of_isName named (by decide)
  have whole : '/' ∉ (request.name ++ extension).toList := by
    simp [wholeName, extensions extension listed]
  rw [Path.ofString_of_isPlain (isPlain_append_extension listed) whole, Path.div_eq_child, moduleFile]

/-- The file found for a module is the first that exists among its files. -/
theorem findM?_moduleFiles_of_findImport {result : Option Path}
    (named : Scan.isName request.name.toList = true)
    (located : findImport files searchOrder request moduleExtensions = .ok result) :
    (moduleFiles ((importPlaces request searchOrder).filterMap Place.path?) request.name).findM?
      files.contains = .ok result := by
  rw [← findM?_of_findImport located, moduleFiles]
  congr 1
  refine List.flatMap_congr fun extension listed => ?_
  exact List.map_congr_left fun directory _ => (div_ofString named listed directory).symm

/-- An import of a unit adds another unit to the program, whether it is accepted then or not. -/
def Adds (files : FileSystem) (searchOrder : List Place) (unit : ProgramUnit) (imported : Import)
    (before : Loading) (added : ProgramUnit) : Prop :=
  ((satisfyImport files searchOrder unit imported).finalState before).units = before.units ++ [added]

instance (before : Loading) : Decidable (Adds files searchOrder unit imported before added) :=
  inferInstanceAs (Decidable (_ = _))

/-- A request leaves the units as they are, or adds the module in the file that it finds. -/
theorem units_satisfy (files : FileSystem) (searchOrder : List Place) (request : ImportRequest)
    (before : Loading) :
    ((satisfy files searchOrder request).finalState before).units = before.units ∨
      ∃ found module, findImport files searchOrder request moduleExtensions = .ok (some found) ∧
        ((satisfy files searchOrder request).finalState before).units =
          before.units ++ [.inFile found.normalize module] := by
  unfold satisfy
  split
  · exact .inl rfl
  · exact .inl rfl
  · next found located =>
    cases ran : (addFile files found.normalize).run before with
    | error fault between =>
      obtain ⟨rfl, _⟩ := addFile_error ran
      left
      rw [Action.finalState, EStateM.run_bind, ran]
    | ok result between =>
      rw [Action.finalState_bind_of_run_eq_ok ran]
      rcases addFile_ok ran with ⟨rfl, rfl, _⟩ | ⟨module, text, rfl, _, _, rfl⟩
      · exact .inl rfl
      · refine .inr ⟨found, module, located, ?_⟩
        dsimp only
        split <;> rfl

theorem exists_of_adds (adds : Adds files searchOrder unit imported before added) :
    ∃ found module,
      findImport files searchOrder (requestOf unit imported) moduleExtensions = .ok (some found) ∧
        added = .inFile found.normalize module := by
  have grown : before.units ++ [added] ≠ before.units := by simp
  unfold Adds satisfyImport at adds
  have got : (get : Action Loading Loading).run before = .ok before before := rfl
  rw [Action.finalState_bind_of_run_eq_ok got] at adds
  split at adds
  · rcases units_satisfy files searchOrder (requestOf unit imported) before with
      same | ⟨found, module, located, more⟩
    · exact absurd (adds.symm.trans same) grown
    · have last := List.append_cancel_left (adds.symm.trans more)
      exact ⟨found, module, located, List.head_eq_of_cons_eq last⟩
  · exact absurd adds.symm grown

/-- The file that an import loads is the first that there is among the files of the module in the
directory of the importing file and in the searched directories. A module that the first of these has is
found there exactly if it is not overtaken. An overtaken one is passed over for the first file of a
searched directory that has the first extension. -/
theorem imported_beside_iff (parsed : unit.IsParsed) (inside : imported ∈ unit.module.imports)
    (inFile : unit.path = some importer) (adds : Adds files searchOrder unit imported before added) :
    ∃ found, added.path = some found.normalize ∧
      (moduleFiles (importer.parent :: searchOrder.filterMap Place.path?) imported.name).findM?
        files.contains = .ok (some found) ∧
      (¬IsModuleFile importer.parent imported.name found →
        ∃ directory ∈ searchOrder.filterMap Place.path?,
          IsModuleFile directory imported.name found) ∧
      ((files.Holds importer.parent imported.name →
          IsModuleFile importer.parent imported.name found) ↔
        ¬files.Overtaken importer.parent (searchOrder.filterMap Place.path?) imported.name) ∧
      (files.Overtaken importer.parent (searchOrder.filterMap Place.path?) imported.name →
        ((searchOrder.filterMap Place.path?).map fun directory =>
          moduleFile directory imported.name ".weft").findM? files.contains = .ok (some found)) := by
  obtain ⟨found, module, located, rfl⟩ := exists_of_adds adds
  have named : Scan.isName (requestOf unit imported).name.toList = true :=
    parsed.parsed.isName_import inside
  have places : (importPlaces (requestOf unit imported) searchOrder).filterMap Place.path? =
      importer.parent :: searchOrder.filterMap Place.path? := by
    simp [importPlaces, requestOf, inFile, Place.path?]
  have first := findM?_moduleFiles_of_findImport named located
  rw [places] at first
  refine ⟨found, rfl, first, ?_, ⟨?_, ?_⟩, fun overtaken => overtaken.elsewhere_found first⟩
  · intro notBeside
    obtain ⟨extension, listed, inside⟩ := List.mem_flatMap.mp (exists_of_findM?_eq_some first).1
    obtain ⟨directory, searched, rfl⟩ := List.mem_map.mp inside
    rcases List.mem_cons.mp searched with rfl | searched
    · exact absurd ⟨extension, listed, rfl⟩ notBeside
    · exact ⟨directory, searched, extension, listed, rfl⟩
  · intro beside overtaken
    have holds : files.Holds importer.parent imported.name :=
      ⟨".wir", .tail _ (.head _), overtaken.holds⟩
    exact overtaken.not_isModuleFile first (beside holds)
  · exact fun free holds => FileSystem.isModuleFile_of_not_overtaken free holds first

/-- A module beside the importing file with the second extension, and one of its name in a library
with the first. -/
def overtakenFiles : FileSystem :=
  .ofEntries
    [("main", .directory
      [("a.weft", .file "module a;\nimport b;\n".toUTF8.toList),
        ("b.wir", .file "module b;\n".toUTF8.toList)]),
      ("lib", .directory [("b.weft", .file "module b;\n".toUTF8.toList)])]

def importerPath : Path := .ofString "main/a.weft"

def librarySearch : List Place := [.path (.ofString "lib")]

theorem exists_overtaken : ∃ unit, unit.IsParsed ∧ unit.path = some importerPath ∧
    ∃ imported ∈ unit.module.imports, ∃ added,
      Adds overtakenFiles librarySearch unit imported (opening.withUnit unit) added ∧
        added.path = some (.ofString "lib/b.weft") ∧
        overtakenFiles.Overtaken importerPath.parent (librarySearch.filterMap Place.path?)
          imported.name := by
  have found : ∃ module ∈ ((Module.load overtakenFiles importerPath).toOption.bind Except.toOption),
      ∃ imported ∈ module.imports,
        ∃ added ∈ ((satisfyImport overtakenFiles librarySearch (.inFile importerPath module)
            imported).finalState (opening.withUnit (.inFile importerPath module))).units,
          Adds overtakenFiles librarySearch (.inFile importerPath module) imported
            (opening.withUnit (.inFile importerPath module)) added ∧
          added.path = some (.ofString "lib/b.weft") ∧ imported.name = "b" := by
    decide +kernel
  obtain ⟨module, loads, imported, inside, added, _, adds, path, named⟩ := found
  obtain ⟨read, isRead, loaded⟩ := Option.bind_eq_some_iff.mp loads
  have loaded : Module.load overtakenFiles importerPath = .ok (.ok module) := by
    rw [eq_ok_of_toOption isRead, eq_ok_of_toOption loaded]
  refine ⟨.inFile importerPath module, ⟨rfl, Module.isParsed_of_load loaded⟩, rfl, imported, inside,
    added, adds, path, ?_⟩
  rw [named]
  exact ⟨eq_ok_of_toOption (by decide +kernel), eq_ok_of_toOption (by decide +kernel),
    ⟨_, .head _, eq_ok_of_toOption (by decide +kernel)⟩⟩

/-- A module in the directory of the importing file may be passed over for one in a library. -/
theorem imported_not_beside : ¬∀ (files : FileSystem) (searchOrder : List Place)
    (unit added : ProgramUnit) (imported : Import) (before : Loading) (importer : Path),
    unit.IsParsed → imported ∈ unit.module.imports → unit.path = some importer →
      Adds files searchOrder unit imported before added →
      files.Holds importer.parent imported.name →
      ∃ found, IsModuleFile importer.parent imported.name found ∧
        added.path = some found.normalize := by
  intro always
  obtain ⟨unit, parsed, inFile, imported, inside, added, adds, path, overtaken⟩ := exists_overtaken
  obtain ⟨_, ⟨extension, listed, rfl⟩, beside⟩ := always _ _ unit added imported _ _ parsed inside
    inFile adds ⟨".wir", .tail _ (.head _), overtaken.holds⟩
  have same : Path.ofString "lib/b.weft" =
      (moduleFile importerPath.parent imported.name extension).normalize :=
    Option.some.inj (path.symm.trans beside)
  rw [moduleFile, Path.normalize_child (isPlain_append_extension listed)] at same
  have directories := congrArg Path.parent same
  rw [Path.parent_child] at directories
  exact absurd directories (by decide +kernel)

theorem imported_beside_iff_overtaken : ∃ unit imported added,
    Adds overtakenFiles librarySearch unit imported (opening.withUnit unit) added ∧
      ∃ found, added.path = some found.normalize ∧
        overtakenFiles.Holds importerPath.parent imported.name ∧
        ¬IsModuleFile importerPath.parent imported.name found := by
  obtain ⟨unit, parsed, inFile, imported, inside, added, adds, _, overtaken⟩ := exists_overtaken
  obtain ⟨found, path, _, _, beside, _⟩ := imported_beside_iff parsed inside inFile adds
  have holds : overtakenFiles.Holds importerPath.parent imported.name :=
    ⟨".wir", .tail _ (.head _), overtaken.holds⟩
  exact ⟨unit, imported, added, adds, found, path, holds,
    fun inDirectory => beside.mp (fun _ => inDirectory) overtaken⟩

end Loading

end WireModules
