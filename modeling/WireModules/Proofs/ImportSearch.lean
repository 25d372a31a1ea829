import WireModules.Program.Compile
import WireModules.Proofs.Lexing
import WireModules.Proofs.Lookups

/-!
# The file that is found

A request is looked for in one place after the other, until it exists in one or cannot be looked up there.
The search for a module finds a file whose last component is the module's name with an extension, so that
one file is not found under two names.
-/

set_option autoImplicit false

namespace WireModules

theorem Place.mem_filterMap_path? {places : List Place} {directory : Path} :
    directory ∈ places.filterMap Place.path? ↔ .path directory ∈ places := by
  rw [List.mem_filterMap]
  constructor
  · intro listed
    obtain ⟨place, member, isPath⟩ := listed
    cases place with
    | nowhere => cases isPath
    | path named =>
      cases isPath
      exact member
  · exact fun member => ⟨_, member, rfl⟩

/-! ## Searches with a test that may fail -/

section Search

variable {ε α : Type} {test : α → Except ε Bool} {items : List α} {item found : α} {error : ε}

theorem findM?_cons (test : α → Except ε Bool) (item : α) (rest : List α) :
    (item :: rest).findM? test =
      test item >>= fun passed => if passed then .ok (some item) else rest.findM? test := by
  rw [List.findM?]
  congr 1
  funext passed
  cases passed <;> rfl

theorem findM?_cons_of_true (passed : test item = .ok true) (rest : List α) :
    (item :: rest).findM? test = .ok (some item) := by
  rw [findM?_cons, passed]
  rfl

theorem findM?_cons_of_false (failed : test item = .ok false) (rest : List α) :
    (item :: rest).findM? test = rest.findM? test := by
  rw [findM?_cons, failed]
  rfl

theorem findM?_cons_of_error (failed : test item = .error error) (rest : List α) :
    (item :: rest).findM? test = .error error := by
  rw [findM?_cons, failed]
  rfl

/-- Two searches, one after the other. -/
theorem findM?_append (first second : List α) :
    (first ++ second).findM? test =
      first.findM? test >>= fun result =>
        result.elim (second.findM? test) fun found => .ok (some found) := by
  induction first with
  | nil => rfl
  | cons item rest ih =>
    rw [List.cons_append]
    cases passed : test item with
    | error error =>
      rw [findM?_cons_of_error passed, findM?_cons_of_error passed]
      rfl
    | ok passes =>
      cases passes with
      | true =>
        rw [findM?_cons_of_true passed, findM?_cons_of_true passed]
        rfl
      | false => rw [findM?_cons_of_false passed, findM?_cons_of_false passed, ih]

/-- What is found is one of the items that pass. -/
theorem exists_of_findM?_eq_some (searched : items.findM? test = .ok (some found)) :
    found ∈ items ∧ test found = .ok true := by
  induction items with
  | nil => cases searched
  | cons item rest ih =>
    cases passed : test item with
    | error error => cases (findM?_cons_of_error passed rest).symm.trans searched
    | ok passes =>
      cases passes with
      | true =>
        cases (findM?_cons_of_true passed rest).symm.trans searched
        exact ⟨.head _, passed⟩
      | false =>
        rw [findM?_cons_of_false passed] at searched
        exact (ih searched).imp_left (.tail _)

theorem findM?_eq_none_iff :
    items.findM? test = .ok none ↔ ∀ item ∈ items, test item = .ok false := by
  induction items with
  | nil => simp [List.findM?, pure, Except.pure]
  | cons item rest ih =>
    rw [List.forall_mem_cons]
    cases passed : test item with
    | error error =>
      rw [findM?_cons_of_error passed]
      simp
    | ok passes =>
      cases passes with
      | true =>
        rw [findM?_cons_of_true passed]
        simp
      | false =>
        rw [findM?_cons_of_false passed, ih]
        simp

/-- A search fails where the test of an item does. -/
theorem exists_of_findM?_eq_error (searched : items.findM? test = .error error) :
    ∃ item ∈ items, test item = .error error := by
  induction items with
  | nil => cases searched
  | cons item rest ih =>
    cases passed : test item with
    | error own =>
      cases (findM?_cons_of_error passed rest).symm.trans searched
      exact ⟨item, .head _, passed⟩
    | ok passes =>
      cases passes with
      | true => cases (findM?_cons_of_true passed rest).symm.trans searched
      | false =>
        rw [findM?_cons_of_false passed] at searched
        obtain ⟨other, member, failed⟩ := ih searched
        exact ⟨other, .tail _ member, failed⟩

end Search

namespace FileSystem

variable {files : FileSystem} {requested path found : Path} {places : List Place}

theorem firstExisting_cons (directory : Path) (rest : List Place) :
    files.firstExisting path (.path directory :: rest) =
      files.contains (directory / path) >>= fun present =>
        if present then .ok (some (directory / path)) else files.firstExisting path rest := rfl

/-- Along directories, the search is that for the first path that exists. -/
theorem firstExisting_map_path (directories : List Path) :
    files.firstExisting path (directories.map .path) =
      (directories.map (· / path)).findM? files.contains := by
  induction directories with
  | nil => rfl
  | cons directory rest ih => rw [List.map_cons, firstExisting_cons, ih, List.map_cons, findM?_cons]

/-- A search that ends has gone along the paths of the places; there is nowhere before what it finds. -/
theorem findM?_of_firstExisting {result : Option Path}
    (located : files.firstExisting path places = .ok result) :
    ((places.filterMap Place.path?).map (· / path)).findM? files.contains = .ok result := by
  induction places with
  | nil => exact located
  | cons place rest ih =>
    cases place with
    | nowhere => cases located
    | path directory =>
      change (directory / path :: _).findM? _ = _
      rw [firstExisting_cons] at located
      obtain ⟨present, looked, continued⟩ := exists_of_bind_eq_ok located
      cases present with
      | true => exact (findM?_cons_of_true looked _).trans continued
      | false => exact (findM?_cons_of_false looked _).trans (ih continued)

theorem exists_of_firstExisting (located : files.firstExisting path places = .ok (some found)) :
    files.contains found = .ok true ∧
      ∃ directory, .path directory ∈ places ∧ found = directory / path := by
  obtain ⟨member, present⟩ := exists_of_findM?_eq_some (findM?_of_firstExisting located)
  obtain ⟨directory, listed, same⟩ := List.mem_map.mp member
  exact ⟨present, directory, Place.mem_filterMap_path?.mp listed, same.symm⟩

/-- A search fails at a place that is nowhere, or at a path that cannot be looked up. -/
theorem firstExisting_error {fault : Fault} (failed : files.firstExisting path places = .error fault) :
    fault = .place .searchNowhere ∧ .nowhere ∈ places ∨
      ∃ directory, .path directory ∈ places ∧ files.contains (directory / path) = .error fault := by
  induction places with
  | nil => cases failed
  | cons place rest ih =>
    cases place with
    | nowhere =>
      cases failed
      exact .inl ⟨rfl, .head _⟩
    | path directory =>
      rw [firstExisting_cons] at failed
      rcases error_of_bind_eq_error failed with refused | ⟨present, _, continued⟩
      · exact .inr ⟨directory, .head _, refused⟩
      · cases present with
        | true => cases continued
        | false =>
          rcases ih continued with ⟨kind, member⟩ | ⟨other, member, refused⟩
          · exact .inl ⟨kind, .tail _ member⟩
          · exact .inr ⟨other, .tail _ member, refused⟩

/-- What exists as it is requested is looked for no further. -/
theorem resolveInput_of_contains (present : files.contains requested = .ok true) :
    files.resolveInput requested none places = .ok requested.normalize := by
  rw [resolveInput]
  change (files.contains requested >>= _) = _
  rw [present]
  rfl

/-- A request stands for the normal form of something that exists: what is looked for first, or the
request in one of the places. -/
theorem exists_of_resolveInput {base : Option Path}
    (resolved : files.resolveInput requested base places = .ok path) :
    ∃ candidate found, files.candidate requested base = .ok candidate ∧
      files.contains found = .ok true ∧ path = found.normalize ∧
      (found = candidate ∨
        files.contains candidate = .ok false ∧ requested.isAbsolute = false ∧
          ∃ directory, .path directory ∈ places ∧ found = directory / requested) := by
  obtain ⟨candidate, first, resolved⟩ := exists_of_bind_eq_ok resolved
  obtain ⟨present, looked, resolved⟩ := exists_of_bind_eq_ok resolved
  refine ⟨candidate, ?_⟩
  cases present with
  | true =>
    cases resolved
    exact ⟨_, first, looked, rfl, .inl rfl⟩
  | false =>
    cases absolute : requested.isAbsolute with
    | true =>
      rw [absolute] at resolved
      cases resolved
    | false =>
      rw [absolute] at resolved
      obtain ⟨result, searched, resolved⟩ := exists_of_bind_eq_ok resolved
      cases result with
      | none => cases resolved
      | some found =>
        cases resolved
        obtain ⟨there, inPlace⟩ := exists_of_firstExisting searched
        exact ⟨found, first, there, rfl, .inr ⟨looked, rfl, inPlace⟩⟩

theorem normalize_of_resolveInput {base : Option Path}
    (resolved : files.resolveInput requested base places = .ok path) : path.normalize = path := by
  obtain ⟨_, found, _, _, rfl, _⟩ := exists_of_resolveInput resolved
  exact Path.normalize_normalize found

end FileSystem

namespace Loading

theorem exists_of_findImport {files : FileSystem} {searchOrder : List Place}
    {request : ImportRequest} {found : Path} {extensions : List String}
    (located : findImport files searchOrder request extensions = .ok (some found)) :
    files.contains found = .ok true ∧
      ∃ extension ∈ extensions, ∃ directory, .path directory ∈ importPlaces request searchOrder ∧
        found = directory / Path.ofString (request.name ++ extension) := by
  induction extensions with
  | nil => cases located
  | cons extension others ih =>
    obtain ⟨first, looked, continued⟩ := exists_of_bind_eq_ok located
    cases first with
    | none =>
      obtain ⟨present, other, member, rest⟩ := ih continued
      exact ⟨present, other, .tail _ member, rest⟩
    | some path =>
      cases continued
      obtain ⟨present, inPlace⟩ := FileSystem.exists_of_firstExisting looked
      exact ⟨present, extension, .head _, inPlace⟩

theorem findImport_error {files : FileSystem} {searchOrder : List Place} {request : ImportRequest}
    {extensions : List String} {fault : Fault}
    (failed : findImport files searchOrder request extensions = .error fault) :
    fault = .place .searchNowhere ∧ .nowhere ∈ searchOrder ∨
      ∃ path error, files.Refused path error ∧ fault = .lookup path error := by
  induction extensions with
  | nil => cases failed
  | cons extension others ih =>
    rcases error_of_bind_eq_error failed with tried | ⟨result, _, continued⟩
    · rcases FileSystem.firstExisting_error tried with ⟨rfl, member⟩ | ⟨directory, _, refused⟩
      · rcases List.mem_append.mp member with beside | listed
        · obtain ⟨importer, _, impossible⟩ := Option.map_eq_some_iff.mp (Option.mem_toList.mp beside)
          cases impossible
        · exact .inl ⟨rfl, listed⟩
      · exact .inr ⟨_, FileSystem.contains_eq_error_iff.mp refused⟩
    · cases result with
      | none => exact ih continued
      | some found => cases continued

theorem isPlain_append_extension {name extension : String} (listed : extension ∈ moduleExtensions) :
    Path.IsPlain (name ++ extension) := by
  have extensions : ∀ extension ∈ moduleExtensions, 4 ≤ extension.toList.length := by decide
  have long := extensions extension listed
  have differs : ∀ short : String, short.toList.length < 4 → name ++ extension ≠ short := by
    rintro short bound rfl
    rw [String.toList_append, List.length_append] at bound
    omega
  simp [Path.IsPlain, Path.isBlank, Path.up, differs]

/-- The file found for an import is called like the module, up to its extension, and stands in one
of the places that are searched. -/
theorem exists_child_of_findImport {files : FileSystem} {searchOrder : List Place}
    {request : ImportRequest} {found : Path} (named : Scan.isName request.name.toList = true)
    (located : findImport files searchOrder request moduleExtensions = .ok (some found)) :
    ∃ extension ∈ moduleExtensions, ∃ directory, .path directory ∈ importPlaces request searchOrder ∧
      found.normalize = directory.normalize.child (request.name ++ extension) := by
  obtain ⟨_, extension, listed, directory, place, rfl⟩ := exists_of_findImport located
  have extensions : ∀ extension ∈ moduleExtensions, '/' ∉ extension.toList := by decide
  have wholeName : '/' ∉ request.name.toList := Scan.not_mem_of_isName named (by decide)
  have whole : '/' ∉ (request.name ++ extension).toList := by
    simp [wholeName, extensions extension listed]
  have plain : Path.IsPlain (request.name ++ extension) := isPlain_append_extension listed
  refine ⟨extension, listed, directory, place, ?_⟩
  rw [Path.ofString_of_isPlain plain whole, Path.div_eq_child, Path.normalize_child plain]

theorem eq_of_append_extension {first second extension other : String}
    (isFirst : extension ∈ moduleExtensions) (isSecond : other ∈ moduleExtensions)
    (same : first ++ extension = second ++ other) : first = second := by
  simp only [moduleExtensions, List.mem_cons, List.not_mem_nil, or_false] at isFirst isSecond
  have lasts : (first ++ extension).toList.getLast? = (second ++ other).toList.getLast? := by
    rw [same]
  rcases isFirst with rfl | rfl <;> rcases isSecond with rfl | rfl
  · exact String.append_left_inj _ |>.mp same
  · simp at lasts
  · simp at lasts
  · exact String.append_left_inj _ |>.mp same

end Loading

end WireModules
