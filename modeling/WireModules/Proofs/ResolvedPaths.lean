import WireModules.Proofs.ImportSearch
import WireModules.Proofs.LocatedPaths

/-!
# What a request is resolved to

A request is looked for under several paths, as they are written, and what is returned is the normal
form of the first that exists. The shape of a normal form and what a path denotes are said here without
the functions that compute them; what a path denotes survives its normal form. The order of the search
is a list of candidates: the request in the base directory, the request as it stands, and the request in
the library directories.
-/

set_option autoImplicit false

namespace WireModules

namespace Path

/-! ## Normal forms -/

/-- A path in normal form climbs first, if it is relative, and goes down from there. -/
structure IsNormal (path : Path) : Prop where
  split : ∃ climbs names, path.components = List.replicate climbs up ++ names ∧
    (∀ name ∈ names, IsPlain name) ∧ (path.anchor ≠ .relative → climbs = 0)

theorem Collapsed.exists_split {anchor : Anchor} {stack : List String}
    (collapsed : Collapsed anchor stack) :
    ∃ climbs names, stack = names ++ List.replicate climbs Path.up ∧
      (∀ name ∈ names, IsPlain name) ∧ (anchor ≠ .relative → climbs = 0) := by
  induction collapsed with
  | nil => exact ⟨0, [], rfl, by simp, fun _ => rfl⟩
  | @plain component _ isPlain _ ih =>
    obtain ⟨climbs, names, rfl, plain, grounded⟩ := ih
    exact ⟨climbs, component :: names, rfl, List.forall_mem_cons.mpr ⟨isPlain, plain⟩, grounded⟩
  | up relative topmost _ ih =>
    obtain ⟨climbs, names, rfl, plain, _⟩ := ih
    cases names with
    | nil => exact ⟨climbs + 1, [], rfl, by simp, fun absolute => absurd relative absolute⟩
    | cons last before =>
      -- What stands below `..` in a collapsed stack is `..` again.
      have isUp : last = Path.up := topmost last rfl
      exact absurd isUp (plain last (.head _)).2

theorem collapsed_replicate {anchor : Anchor} {climbs : Nat}
    (grounded : anchor ≠ .relative → climbs = 0) :
    Collapsed anchor (List.replicate climbs Path.up) := by
  induction climbs with
  | zero => exact .nil
  | succ climbs ih =>
    have relative : anchor = .relative := by
      by_contra absolute
      cases grounded absolute
    rw [List.replicate_succ]
    refine .up relative ?_ (ih fun absolute => absurd relative absolute)
    intro last onTop
    exact List.eq_of_mem_replicate (List.mem_of_mem_head? onTop)

theorem Collapsed.append {anchor : Anchor} {names stack : List String}
    (plain : ∀ name ∈ names, IsPlain name) (collapsed : Collapsed anchor stack) :
    Collapsed anchor (names ++ stack) := by
  induction names with
  | nil => exact collapsed
  | cons name rest ih =>
    obtain ⟨own, others⟩ := List.forall_mem_cons.mp plain
    exact .plain own (ih others)

theorem isNormal_normalize (path : Path) : path.normalize.IsNormal := by
  obtain ⟨climbs, names, split, plain, grounded⟩ := (collapsed_normalize path).exists_split
  refine ⟨climbs, names.reverse, ?_, ?_, grounded⟩
  · rw [← List.reverse_reverse path.normalize.components, split, List.reverse_append,
      List.reverse_replicate]
  · simpa using plain

/-- The paths in normal form are those that collapsing leaves as they are. -/
theorem normalize_eq_self_iff {path : Path} : path.normalize = path ↔ path.IsNormal := by
  constructor
  · intro same
    rw [← same]
    exact isNormal_normalize path
  · intro ⟨climbs, names, split, plain, grounded⟩
    have collapsed : Collapsed path.anchor path.components.reverse := by
      rw [split, List.reverse_append, List.reverse_replicate]
      exact .append (by simpa using plain) (collapsed_replicate grounded)
    have kept := collapsed.foldl_reverse
    rw [List.reverse_reverse] at kept
    rw [normalize, kept, List.reverse_reverse]

end Path

/-! ## What paths denote -/

/-- Components lead from one place of a file system to another. Each of them is looked up in a
directory, `..` too; above the root there is the root. -/
inductive FileSystem.Leads (files : FileSystem) : Location → List String → Location → Prop where
  | here {location : Location} {tree : FileTree} :
      files.root.find? location = some tree → Leads files location [] location
  | up {location last : Location} {entries : List (String × FileTree)} {rest : List String} :
      files.root.find? location = some (.directory entries) →
      files.refusal? location Path.up = none → Leads files location.dropLast rest last →
      Leads files location (Path.up :: rest) last
  | down {location last : Location} {entries : List (String × FileTree)} {component : String}
      {rest : List String} : component ≠ Path.up →
      files.root.find? location = some (.directory entries) →
      files.refusal? location component = none → Leads files (location ++ [component]) rest last →
      Leads files location (component :: rest) last

namespace FileSystem

variable {files : FileSystem} {start last location : Location} {tree : FileTree}
  {components : List String} {path : Path}

theorem follow_eq_ok_iff :
    files.follow start components = .ok last ↔ files.Leads start components last := by
  constructor
  · intro followed
    induction components generalizing start with
    | nil =>
      obtain ⟨tree, found⟩ := find?_of_follow followed
      rw [eq_of_follow_nil followed]
      exact .here found
    | cons component rest ih =>
      obtain ⟨⟨entries, found⟩, admitted, further⟩ := follow_cons followed
      rw [onward] at further
      split at further
      · next isUp =>
        subst isUp
        exact .up found admitted (ih further)
      · next isDown => exact .down isDown found admitted (ih further)
  · intro leads
    induction leads with
    | here found => rw [follow, found]
    | up found admitted _ ih =>
      rw [follow_cons_of_admitted found admitted, onward, if_pos rfl]
      exact ih
    | down isDown found admitted _ ih =>
      rw [follow_cons_of_admitted found admitted, onward, if_neg isDown]
      exact ih

/-- A path denotes a file or a directory, at its place in the tree. -/
structure Denotes (files : FileSystem) (path : Path) (location : Location) (tree : FileTree) :
    Prop where
  leads : files.Leads (files.origin path) path.components location
  found : files.root.find? location = some tree

theorem denotes_iff : files.Denotes path location tree ↔
    files.locate path = .ok location ∧ files.root.find? location = some tree := by
  rw [locate, follow_eq_ok_iff]
  exact ⟨fun denotes => ⟨denotes.leads, denotes.found⟩, fun ⟨leads, found⟩ => ⟨leads, found⟩⟩

/-- A path denotes one thing at most. -/
theorem Denotes.unique {other : Location} {otherTree : FileTree}
    (denotes : files.Denotes path location tree) :
    files.Denotes path other otherTree ↔ other = location ∧ otherTree = tree := by
  obtain ⟨located, found⟩ := denotes_iff.mp denotes
  rw [denotes_iff, located]
  constructor
  · intro ⟨same, foundToo⟩
    cases same
    exact ⟨rfl, Option.some.inj (foundToo.symm.trans found)⟩
  · intro ⟨same, sameTree⟩
    rw [same, sameTree]
    exact ⟨rfl, found⟩

/-- What exists denotes something. -/
theorem exists_denotes_of_contains (present : files.contains path = .ok true) :
    ∃ location tree, files.Denotes path location tree := by
  obtain ⟨location, found⟩ := contains_eq_true_iff.mp present
  have located := (lookUp_eq_ok_iff.mp found).2.2
  obtain ⟨tree, there⟩ := exists_find?_of_follow located
  exact ⟨location, tree, denotes_iff.mpr ⟨located, there⟩⟩

/-- The normal form of something that exists denotes what it denotes. -/
theorem denotes_normalize_iff (clean : path.IsClean) (present : files.contains path = .ok true) :
    files.Denotes path.normalize location tree ↔ files.Denotes path location tree := by
  obtain ⟨_, found⟩ := contains_eq_true_iff.mp present
  have located := (lookUp_eq_ok_iff.mp found).2.2
  rw [denotes_iff, denotes_iff, located, locate_normalize clean located]

/-! ## The search -/

/-- Where a request is looked for, in order. -/
def candidates (requested : Path) (base : Option Path) (libraries : List Path) : List Path :=
  (base.map (· / requested)).toList ++ requested :: libraries.map (· / requested)

/-- The answer of a search through some paths: the normal form of the first that exists. -/
def answer (files : FileSystem) (requested : Path) (paths : List Path) : Except Fault Path := do
  match ← paths.findM? files.contains with
  | some found => return found.normalize
  | none => throw (.failure (.inputNotFound (toString requested)))

variable {requested base found : Path} {base? : Option Path} {libraries : List Path}
  {places : List Place}

theorem div_of_isAbsolute (absolute : requested.isAbsolute = true) : base / requested = requested :=
  if_pos absolute

theorem candidate_of_isAbsolute (absolute : requested.isAbsolute = true) :
    files.candidate requested base? = .ok requested := by
  cases base? with
  | none => rfl
  | some base => exact if_pos absolute

theorem candidate_of_not_isAbsolute (relative : requested.isAbsolute = false) :
    files.candidate requested (some base) = files.contains (base / requested) >>= fun present =>
      if present then .ok (base / requested) else .ok requested :=
  if_neg (by simp [relative])

/-- What is looked for first comes before the libraries. -/
theorem findM?_candidates :
    (candidates requested base? libraries).findM? files.contains =
      files.candidate requested base? >>= fun first =>
        files.contains first >>= fun present =>
          if present then .ok (some first)
          else (libraries.map (· / requested)).findM? files.contains := by
  cases base? with
  | none => exact findM?_cons ..
  | some base =>
    change (base / requested :: requested :: _).findM? _ = _
    cases absolute : requested.isAbsolute with
    | true =>
      rw [candidate_of_isAbsolute absolute, div_of_isAbsolute absolute]
      change _ = files.contains requested >>= _
      cases looked : files.contains requested with
      | error fault => exact findM?_cons_of_error looked _
      | ok present =>
        cases present with
        | true => exact findM?_cons_of_true looked _
        | false => exact (findM?_cons_of_false looked _).trans (findM?_cons_of_false looked _)
    | false =>
      rw [candidate_of_not_isAbsolute absolute]
      cases looked : files.contains (base / requested) with
      | error fault => exact findM?_cons_of_error looked _
      | ok present =>
        cases present with
        | true =>
          rw [findM?_cons_of_true looked]
          change _ = files.contains (base / requested) >>= _
          rw [looked]
          rfl
        | false =>
          rw [findM?_cons_of_false looked]
          exact findM?_cons ..

/-- What a request is resolved to is the normal form of the first candidate that exists. -/
theorem findM?_of_resolveInput (resolved : files.resolveInput requested base? places = .ok path) :
    ∃ found, (candidates requested base? (places.filterMap Place.path?)).findM? files.contains =
      .ok (some found) ∧ path = found.normalize := by
  obtain ⟨first, isFirst, resolved⟩ := exists_of_bind_eq_ok resolved
  obtain ⟨present, looked, resolved⟩ := exists_of_bind_eq_ok resolved
  rw [findM?_candidates, isFirst]
  change ∃ found, (files.contains first >>= _) = _ ∧ _
  rw [looked]
  cases present with
  | true =>
    cases resolved
    exact ⟨first, rfl, rfl⟩
  | false =>
    cases absolute : requested.isAbsolute with
    | true =>
      rw [absolute] at resolved
      cases resolved
    | false =>
      rw [absolute] at resolved
      obtain ⟨result, searched, resolved⟩ := exists_of_bind_eq_ok resolved
      cases result with
      | none => cases resolved
      | some found =>
        cases resolved
        exact ⟨found, findM?_of_firstExisting searched, rfl⟩

/-- An absolute request is the same in every library, so that it is in none if it does not exist. -/
theorem findM?_libraries_of_isAbsolute (absolute : requested.isAbsolute = true)
    (absent : files.contains requested = .ok false) :
    (libraries.map (· / requested)).findM? files.contains = .ok none := by
  rw [findM?_eq_none_iff]
  intro candidate member
  obtain ⟨directory, _, rfl⟩ := List.mem_map.mp member
  rw [div_of_isAbsolute absolute]
  exact absent

/-- Where all libraries are directories, a request is answered from the candidates. -/
theorem resolveInput_eq_answer :
    files.resolveInput requested base? (libraries.map .path) =
      files.answer requested (candidates requested base? libraries) := by
  rw [resolveInput, answer, findM?_candidates, firstExisting_map_path]
  cases isFirst : files.candidate requested base? with
  | error fault => rfl
  | ok first =>
    change (files.contains first >>= _) = (files.contains first >>= _) >>= _
    cases looked : files.contains first with
    | error fault => rfl
    | ok present =>
      cases present with
      | true => rfl
      | false =>
        cases absolute : requested.isAbsolute with
        | true =>
          rw [candidate_of_isAbsolute absolute] at isFirst
          cases isFirst
          change _ = List.findM? _ _ >>= _
          rw [findM?_libraries_of_isAbsolute absolute looked]
          rfl
        | false => rfl

theorem isClean_of_mem_candidates (cleanRequest : requested.IsClean)
    (cleanBase : ∀ base ∈ base?, base.IsClean)
    (cleanPlaces : ∀ directory, .path directory ∈ places → directory.IsClean)
    (candidate : found ∈ candidates requested base? (places.filterMap Place.path?)) :
    found.IsClean := by
  rcases List.mem_append.mp candidate with inBase | other
  · obtain ⟨_, given, rfl⟩ := Option.mem_toList.mp inBase |> Option.map_eq_some_iff.mp
    exact (cleanBase _ given).div cleanRequest
  · rcases List.mem_cons.mp other with rfl | inPlace
    · exact cleanRequest
    · obtain ⟨directory, listed, rfl⟩ := List.mem_map.mp inPlace
      exact (cleanPlaces directory (Place.mem_filterMap_path?.mp listed)).div cleanRequest

/-- What a request is resolved to is in normal form, and it denotes what the candidate denotes that was
found under the request: a file or directory that exists. -/
theorem denotes_of_resolveInput (cleanRequest : requested.IsClean)
    (cleanBase : ∀ base ∈ base?, base.IsClean)
    (cleanPlaces : ∀ directory, .path directory ∈ places → directory.IsClean)
    (resolved : files.resolveInput requested base? places = .ok path) :
    path.IsNormal ∧ path.normalize = path ∧
      ∃ found location tree,
        (candidates requested base? (places.filterMap Place.path?)).findM? files.contains =
          .ok (some found) ∧
        path = found.normalize ∧ files.Denotes found location tree ∧
        ∀ other otherTree, files.Denotes path other otherTree ↔ other = location ∧ otherTree = tree := by
  obtain ⟨found, first, rfl⟩ := findM?_of_resolveInput resolved
  obtain ⟨candidate, present⟩ := exists_of_findM?_eq_some first
  have clean := isClean_of_mem_candidates cleanRequest cleanBase cleanPlaces candidate
  obtain ⟨location, tree, denotes⟩ := exists_denotes_of_contains present
  refine ⟨Path.isNormal_normalize found, Path.normalize_normalize found, found, location, tree, first,
    rfl, denotes, fun other otherTree => ?_⟩
  rw [denotes_normalize_iff clean present]
  exact denotes.unique

/-- A directory with a file, and an empty one beside it. -/
def besideDirectory : FileSystem :=
  .ofEntries [("sub", .directory [("a.weft", .file [])]), ("other", .directory [])]

/-- From the empty directory the file is found upwards, and it is returned under its straight path. -/
theorem denotes_of_resolveInput_besideDirectory :
    (Path.ofString "../sub/./a.weft").IsClean ∧ (∀ base ∈ some (Path.ofString "/other"), base.IsClean) ∧
      besideDirectory.resolveInput (.ofString "../sub/./a.weft") (some (.ofString "/other")) [] =
        .ok (.ofString "/sub/a.weft") ∧
      (Path.ofString "/sub/a.weft").IsNormal ∧
      ∃ location, besideDirectory.Denotes (.ofString "/other/../sub/a.weft") location (.file []) ∧
        besideDirectory.Denotes (.ofString "/sub/a.weft") location (.file []) := by
  have clean : ∀ text, (Path.ofString text).IsClean := Path.isClean_ofString
  have cleanBase : ∀ base ∈ some (Path.ofString "/other"), base.IsClean := by
    intro base given
    cases given
    exact clean _
  have resolved : besideDirectory.resolveInput (.ofString "../sub/./a.weft")
      (some (.ofString "/other")) [] = .ok (.ofString "/sub/a.weft") := by
    exact eq_ok_of_toOption (by decide +kernel)
  obtain ⟨normal, _, found, location, tree, first, _, denotes, unique⟩ :=
    denotes_of_resolveInput (clean _) cleanBase (by simp) resolved
  have isFound : found = .ofString "/other/../sub/a.weft" := by
    have candidate : (candidates (.ofString "../sub/./a.weft") (some (.ofString "/other")) []).findM?
        besideDirectory.contains = .ok (some (.ofString "/other/../sub/a.weft")) :=
      eq_ok_of_toOption (by decide +kernel)
    exact Option.some.inj (Except.ok.inj (first.symm.trans candidate))
  subst isFound
  have isLocation : location = ["sub", "a.weft"] := by
    have located : besideDirectory.locate (.ofString "/other/../sub/a.weft") =
        .ok ["sub", "a.weft"] := by
      exact eq_ok_of_toOption (by decide +kernel)
    exact Except.ok.inj ((denotes_iff.mp denotes).1.symm.trans located)
  subst isLocation
  have isFile : tree = .file [] := by
    have content : besideDirectory.root.find? ["sub", "a.weft"] = some (.file []) := by
      rfl
    exact Option.some.inj (denotes.found.symm.trans content)
  subst isFile
  exact ⟨clean _, cleanBase, resolved, normal, _, denotes, (unique _ _).mpr ⟨rfl, rfl⟩⟩

/-! ## Files of the working directory -/

/-- A request strays if it does not exist in the base directory, is found or cannot be looked up as it
stands, and is answered otherwise in the libraries. -/
structure Strays (files : FileSystem) (requested base : Path) (libraries : List Path) : Prop where
  absent : files.contains (base / requested) = .ok false
  present : files.contains requested ≠ .ok false
  elsewhere : files.answer requested (libraries.map (· / requested)) ≠
    files.answer requested [requested]

section Answers

variable {others : FileSystem} {paths : List Path} {fault : Fault}

theorem answer_cons_of_true (present : files.contains path = .ok true) (paths : List Path) :
    files.answer requested (path :: paths) = .ok path.normalize := by
  rw [answer, findM?_cons_of_true present]
  rfl

theorem answer_cons_of_false (absent : files.contains path = .ok false) (paths : List Path) :
    files.answer requested (path :: paths) = files.answer requested paths := by
  rw [answer, findM?_cons_of_false absent]
  rfl

theorem answer_cons_of_error (failed : files.contains path = .error fault) (paths : List Path) :
    files.answer requested (path :: paths) = .error fault := by
  rw [answer, findM?_cons_of_error failed]
  rfl

/-- A search that does not pass over its first path goes no further. -/
theorem answer_cons_of_ne_false (present : files.contains path ≠ .ok false) (paths : List Path) :
    files.answer requested (path :: paths) = files.answer requested [path] := by
  cases looked : files.contains path with
  | error fault => rw [answer_cons_of_error looked, answer_cons_of_error looked]
  | ok passes =>
    cases passes with
    | true => rw [answer_cons_of_true looked, answer_cons_of_true looked]
    | false => exact absurd looked present

theorem answer_congr (alike : ∀ path ∈ paths, others.contains path = files.contains path) :
    others.answer requested paths = files.answer requested paths := by
  induction paths with
  | nil => rfl
  | cons path rest ih =>
    obtain ⟨own, later⟩ := List.forall_mem_cons.mp alike
    cases looked : files.contains path with
    | error fault => rw [answer_cons_of_error looked, answer_cons_of_error (own.trans looked)]
    | ok present =>
      cases present with
      | true => rw [answer_cons_of_true looked, answer_cons_of_true (own.trans looked)]
      | false =>
        rw [answer_cons_of_false looked, answer_cons_of_false (own.trans looked), ih later]

/-- Two file systems that do not pass over a path give the same answer for it exactly if it is the same
to look it up. -/
theorem answer_singleton_eq_iff (here : files.contains path ≠ .ok false)
    (there : others.contains path ≠ .ok false) :
    others.answer requested [path] = files.answer requested [path] ↔
      others.contains path = files.contains path := by
  refine ⟨fun same => ?_, fun same => answer_congr (List.forall_mem_singleton.mpr same)⟩
  cases looked : files.contains path with
  | error fault =>
    cases lookedThere : others.contains path with
    | error other =>
      rw [answer_cons_of_error looked, answer_cons_of_error lookedThere] at same
      cases same
      rfl
    | ok present =>
      cases present with
      | true =>
        rw [answer_cons_of_error looked, answer_cons_of_true lookedThere] at same
        cases same
      | false => exact absurd lookedThere there
  | ok present =>
    cases present with
    | false => exact absurd looked here
    | true =>
      cases lookedThere : others.contains path with
      | error other =>
        rw [answer_cons_of_true looked, answer_cons_of_error lookedThere] at same
        cases same
      | ok presentThere =>
        cases presentThere with
        | true => rfl
        | false => exact absurd lookedThere there

end Answers

/-- A request that strays is answered with what stands in the working directory. -/
theorem resolveInput_of_strays (strays : files.Strays requested base libraries) :
    files.resolveInput requested (some base) (libraries.map .path) =
      files.answer requested [requested] := by
  rw [resolveInput_eq_answer]
  change files.answer requested (base / requested :: requested :: _) = _
  rw [answer_cons_of_false strays.absent, answer_cons_of_ne_false strays.present]

/-- Every other request is answered from the base directory and the libraries. -/
theorem resolveInput_eq_iff_not_strays :
    files.resolveInput requested (some base) (libraries.map .path) =
        files.answer requested (base / requested :: libraries.map (· / requested)) ↔
      ¬ files.Strays requested base libraries := by
  constructor
  · intro answered strays
    rw [resolveInput_of_strays strays, answer_cons_of_false strays.absent] at answered
    exact strays.elsewhere answered.symm
  · intro faithful
    rw [resolveInput_eq_answer]
    change files.answer requested (base / requested :: requested :: _) = _
    by_cases absent : files.contains (base / requested) = .ok false
    · rw [answer_cons_of_false absent, answer_cons_of_false absent]
      by_cases passed : files.contains requested = .ok false
      · exact answer_cons_of_false passed _
      · rw [answer_cons_of_ne_false passed]
        by_contra differs
        exact faithful ⟨absent, passed, fun same => differs same.symm⟩
    · exact (answer_cons_of_ne_false absent _).trans (answer_cons_of_ne_false absent _).symm

/-- With a base directory, a request is looked for there, then as it stands, then in the libraries. So
it is looked for in the base directory and the libraries alone exactly if it does not stray. Two file
systems with the same paths in the base directory and the libraries give the same answer exactly if the
request strays in both, and is the same to look up, or strays in neither. -/
theorem resolveInput_faithful_iff (files : FileSystem) (requested base : Path) (libraries : List Path) :
    let resolve (files : FileSystem) := files.resolveInput requested (some base) (libraries.map .path)
    resolve files = files.answer requested
        (base / requested :: requested :: libraries.map (· / requested)) ∧
      (resolve files = files.answer requested (base / requested :: libraries.map (· / requested)) ↔
        ¬ files.Strays requested base libraries) ∧
      ∀ others : FileSystem,
        (∀ directory ∈ base :: libraries,
          others.contains (directory / requested) = files.contains (directory / requested)) →
        (resolve others = resolve files ↔
          (others.Strays requested base libraries ↔ files.Strays requested base libraries) ∧
            (files.Strays requested base libraries →
              others.contains requested = files.contains requested)) := by
  intro resolve
  refine ⟨resolveInput_eq_answer, resolveInput_eq_iff_not_strays, fun others alike => ?_⟩
  have same : others.answer requested (base / requested :: libraries.map (· / requested)) =
      files.answer requested (base / requested :: libraries.map (· / requested)) := by
    refine answer_congr fun path member => ?_
    obtain ⟨directory, listed, rfl⟩ :=
      List.mem_map.mp (List.map_cons (f := (· / requested)) ▸ member)
    exact alike directory listed
  have here : resolve files = _ ↔ ¬ files.Strays requested base libraries :=
    resolveInput_eq_iff_not_strays
  have there : resolve others = _ ↔ ¬ others.Strays requested base libraries :=
    resolveInput_eq_iff_not_strays
  rw [same] at there
  by_cases strays : files.Strays requested base libraries
  · by_cases straysThere : others.Strays requested base libraries
    · have answers : resolve others = resolve files ↔
          others.answer requested [requested] = files.answer requested [requested] := by
        rw [← resolveInput_of_strays strays, ← resolveInput_of_strays straysThere]
      rw [answers, answer_singleton_eq_iff strays.present straysThere.present]
      exact ⟨fun equal => ⟨iff_of_true straysThere strays, fun _ => equal⟩,
        fun ⟨_, equal⟩ => equal strays⟩
    · refine iff_of_false (fun equal => ?_) fun ⟨both, _⟩ => straysThere (both.mpr strays)
      exact here.mp (equal.symm.trans (there.mpr straysThere)) strays
  · refine ⟨fun equal => ⟨?_, fun own => absurd own strays⟩, fun ⟨both, _⟩ => ?_⟩
    · exact iff_of_false (there.mp (equal.trans (here.mpr strays))) strays
    · exact (there.mpr (mt both.mp strays)).trans (here.mpr strays).symm

/-- A file that stands in a library, an empty base directory, and what else the working directory has. -/
def libraryDirectory (others : List (String × FileTree)) : FileSystem :=
  .ofEntries (("lib", .directory [("a.weft", .file [])]) :: ("base", .directory []) :: others)

/-- A file of the working directory that has the name of one in the library. -/
def strayDirectory : FileSystem :=
  libraryDirectory [("a.weft", .file [])]

theorem contains_strayDirectory :
    strayDirectory.contains (.ofString "a.weft") = .ok true :=
  eq_ok_of_toOption (by decide +kernel)

theorem strays_strayDirectory :
    strayDirectory.Strays (.ofString "a.weft") (.ofString "base") [.ofString "lib"] where
  absent := eq_ok_of_toOption (by decide +kernel)
  present := by
    rw [contains_strayDirectory]
    nofun
  elsewhere := by
    intro same
    have inLibrary : strayDirectory.answer (.ofString "a.weft") [.ofString "lib/a.weft"] =
        .ok (.ofString "lib/a.weft") := eq_ok_of_toOption (by decide +kernel)
    have inPlace : strayDirectory.answer (.ofString "a.weft") [.ofString "a.weft"] =
        .ok (.ofString "a.weft") := eq_ok_of_toOption (by decide +kernel)
    have paths := Except.ok.inj ((inLibrary.symm.trans same).trans inPlace)
    exact absurd paths (by decide +kernel)

theorem contains_libraryDirectory : (libraryDirectory []).contains (.ofString "a.weft") = .ok false :=
  eq_ok_of_toOption (by decide +kernel)

/-- Without that file the request is answered from the library. -/
theorem resolveInput_faithful_iff_strayDirectory :
    (libraryDirectory []).resolveInput (.ofString "a.weft") (some (.ofString "base"))
        [.path (.ofString "lib")] ≠
      strayDirectory.resolveInput (.ofString "a.weft") (some (.ofString "base"))
        [.path (.ofString "lib")] := by
  obtain ⟨_, _, depends⟩ := resolveInput_faithful_iff strayDirectory (.ofString "a.weft")
    (.ofString "base") [.ofString "lib"]
  have alike : ∀ directory ∈ [Path.ofString "base", .ofString "lib"],
      (libraryDirectory []).contains (directory / .ofString "a.weft") =
        strayDirectory.contains (directory / .ofString "a.weft") := by
    simp only [List.forall_mem_cons, List.not_mem_nil, false_imp_iff, implies_true, and_true]
    exact ⟨rfl, rfl⟩
  intro equal
  obtain ⟨both, _⟩ := (depends (libraryDirectory []) alike).mp equal
  exact (both.mpr strays_strayDirectory).present contains_libraryDirectory

/-- The file of the working directory is found before the one in the library. -/
theorem resolveInput_strays : ¬ ∀ (files : FileSystem) (requested base : Path) (libraries : List Path),
    requested.isAbsolute = false →
      files.resolveInput requested (some base) (libraries.map .path) =
        files.answer requested (base / requested :: libraries.map (· / requested)) := by
  intro always
  have faithful := always strayDirectory (.ofString "a.weft") (.ofString "base") [.ofString "lib"]
    (by decide +kernel)
  exact resolveInput_eq_iff_not_strays.mp faithful strays_strayDirectory

end FileSystem

end WireModules
