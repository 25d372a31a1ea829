import WireModules.Program.Queue
import WireModules.Proofs.NormalPath
import WireModules.Proofs.Outcome

/-!
# Lookups

A path is followed from directory to directory. It leads somewhere, or a component is missing, or the
lookup is refused on the way: at a component that is too long, in a directory that is closed, or before
it begins, for a path that is too long as a whole. The normal form of a path has no component that the
path has not, and is no longer.
-/

set_option autoImplicit false

namespace WireModules

namespace FileSystem

variable {files : FileSystem} {path : Path} {start between last location : Location}
  {components : List String} {component : String} {rest : List String} {error : FileError}

/-! ## Steps -/

theorem find?_of_follow (followed : files.follow start components = .ok last) :
    ∃ tree, files.root.find? start = some tree := by
  cases components with
  | nil =>
    rw [follow] at followed
    split at followed
    · next tree found => exact ⟨tree, found⟩
    · cases followed
  | cons component rest =>
    rw [follow] at followed
    split at followed
    · cases followed
    · cases followed
    · next entries found => exact ⟨_, found⟩

theorem eq_of_follow_nil (followed : files.follow start [] = .ok last) : last = start := by
  rw [follow] at followed
  split at followed
  · cases followed
    rfl
  · cases followed

/-- A path that leads on goes from a directory in which its first component is looked up. -/
theorem follow_cons (followed : files.follow start (component :: rest) = .ok last) :
    (∃ entries, files.root.find? start = some (.directory entries)) ∧
      files.refusal? start component = none ∧
      files.follow (onward start component) rest = .ok last := by
  rw [follow] at followed
  split at followed
  · cases followed
  · cases followed
  · next entries found =>
    split at followed
    · cases followed
    · next admitted => exact ⟨⟨entries, found⟩, admitted, followed⟩

theorem follow_cons_of_admitted {entries : List (String × FileTree)}
    (found : files.root.find? start = some (.directory entries))
    (admitted : files.refusal? start component = none) :
    files.follow start (component :: rest) = files.follow (onward start component) rest := by
  rw [follow, found]
  simp only [admitted]

theorem eq_of_follow (followed : files.follow start components = .ok last) :
    last = components.foldl onward start := by
  induction components generalizing start with
  | nil => exact eq_of_follow_nil followed
  | cons component rest ih => exact ih (follow_cons followed).2.2

theorem exists_find?_of_follow (followed : files.follow start components = .ok last) :
    ∃ tree, files.root.find? last = some tree := by
  induction components generalizing start with
  | nil =>
    rw [eq_of_follow_nil followed]
    exact find?_of_follow followed
  | cons component rest ih => exact ih (follow_cons followed).2.2

theorem exists_of_follow_append {first second : List String}
    (followed : files.follow start (first ++ second) = .ok last) :
    ∃ between, files.follow start first = .ok between ∧
      files.follow between second = .ok last := by
  induction first generalizing start with
  | nil =>
    obtain ⟨tree, found⟩ := find?_of_follow followed
    exact ⟨start, by rw [follow, found], followed⟩
  | cons component rest ih =>
    obtain ⟨⟨entries, found⟩, admitted, further⟩ := follow_cons followed
    rw [follow_cons_of_admitted found admitted]
    exact ih further

theorem follow_append {first : List String} (followed : files.follow start first = .ok between)
    (second : List String) :
    files.follow start (first ++ second) = files.follow between second := by
  induction first generalizing start with
  | nil =>
    cases eq_of_follow_nil followed
    rfl
  | cons component rest ih =>
    obtain ⟨⟨entries, found⟩, admitted, further⟩ := follow_cons followed
    rw [List.cons_append, follow_cons_of_admitted found admitted]
    exact ih further

/-! ## Refusals -/

theorem isAbsence_of_refusal? (refused : files.refusal? start component = some error) :
    error.isAbsence = false := by
  rw [refusal?] at refused
  split at refused
  · cases refused
    rfl
  · split at refused
    · cases refused
      rfl
    · cases refused

/-- A lookup is refused in a directory that the components before lead to. -/
inductive RefusedIn (files : FileSystem) (start : Location) (components : List String) :
    FileError → Prop where
  | intro (before : List String) {after : List String} {component : String} {directory : Location}
      {entries : List (String × FileTree)} {error : FileError} :
      components = before ++ component :: after → files.follow start before = .ok directory →
      files.root.find? directory = some (.directory entries) →
      files.refusal? directory component = some error → RefusedIn files start components error

theorem RefusedIn.follow_eq (refused : files.RefusedIn start components error) :
    files.follow start components = .error error := by
  obtain ⟨before, rfl, led, found, refused⟩ := refused
  rw [follow_append led, follow, found]
  simp only [refused]

/-- What does not lead anywhere is absent, or its lookup is refused. -/
theorem isAbsence_or_refusedIn (lost : files.follow start components = .error error) :
    error.isAbsence = true ∨ files.RefusedIn start components error := by
  induction components generalizing start with
  | nil =>
    rw [follow] at lost
    split at lost
    · cases lost
    · cases lost
      exact .inl rfl
  | cons component rest ih =>
    rw [follow] at lost
    split at lost
    · cases lost
      exact .inl rfl
    · cases lost
      exact .inl rfl
    · next entries found =>
      split at lost
      · next refused =>
        cases lost
        exact .inr (.intro [] rfl (by rw [follow, found]) found refused)
      · next admitted =>
        refine (ih lost).imp_right fun ⟨before, split, led, inside, refused⟩ => ?_
        refine .intro (component :: before) (by rw [split]; rfl) ?_ inside refused
        exact (follow_cons_of_admitted found admitted).trans led

/-! ## What exists -/

theorem lookUp_eq_ok_iff : files.lookUp path = .ok location ↔
    path.hasNull = false ∧ path.isTooLong = false ∧ files.locate path = .ok location := by
  rw [lookUp]
  cases path.hasNull <;> cases path.isTooLong <;> simp

/-- Why a path cannot be looked up, though it may exist. -/
inductive Refused (files : FileSystem) (path : Path) : FileError → Prop where
  | whole : path.hasNull = false → path.isTooLong = true → Refused files path .nameTooLong
  | component {error : FileError} : path.hasNull = false → path.isTooLong = false →
      files.RefusedIn (files.origin path) path.components error → Refused files path error

theorem refused_iff : files.Refused path error ↔
    files.lookUp path = .error error ∧ error.isAbsence = false := by
  rw [lookUp]
  constructor
  · intro refused
    cases refused with
    | whole unnull long => simp [unnull, long, FileError.isAbsence]
    | component unnull short refused =>
      have failed : files.locate path = .error error := refused.follow_eq
      obtain ⟨_, _, _, _, refused⟩ := refused
      simp [unnull, short, failed, isAbsence_of_refusal? refused]
  · rintro ⟨lost, present⟩
    cases unnull : path.hasNull with
    | true =>
      rw [unnull] at lost
      cases lost
      cases present
    | false =>
      cases long : path.isTooLong with
      | true =>
        rw [unnull, long] at lost
        cases lost
        exact .whole unnull long
      | false =>
        rw [unnull, long] at lost
        rcases isAbsence_or_refusedIn lost with absent | refused
        · cases absent.symm.trans present
        · exact .component unnull long refused

theorem standing_eq_some_iff {tree : FileTree} : files.standing path = .ok (some tree) ↔
    ∃ location, files.lookUp path = .ok location ∧ files.root.find? location = some tree := by
  rw [standing]
  cases files.lookUp path with
  | ok location => simp
  | error error => cases absent : error.isAbsence <;> simp [absent]

theorem standing_eq_error_iff {fault : Fault} : files.standing path = .error fault ↔
    ∃ error, files.Refused path error ∧ fault = .lookup path error := by
  rw [standing]
  constructor
  · intro failed
    split at failed
    · cases failed
    · next error lost =>
      split at failed
      · cases failed
      · next present =>
        cases failed
        exact ⟨error, refused_iff.mpr ⟨lost, by simpa using present⟩, rfl⟩
  · rintro ⟨error, refused, rfl⟩
    obtain ⟨lost, present⟩ := refused_iff.mp refused
    simp [lost, present]

theorem contains_eq_true_iff :
    files.contains path = .ok true ↔ ∃ location, files.lookUp path = .ok location := by
  rw [contains, standing]
  constructor
  · intro present
    cases found : files.lookUp path with
    | ok location => exact ⟨location, rfl⟩
    | error error =>
      rw [found] at present
      cases absent : error.isAbsence <;> simp [absent, Except.map] at present
  · rintro ⟨location, found⟩
    obtain ⟨tree, there⟩ := exists_find?_of_follow (lookUp_eq_ok_iff.mp found).2.2
    simp [found, there, Except.map]

theorem contains_eq_error_iff {fault : Fault} : files.contains path = .error fault ↔
    ∃ error, files.Refused path error ∧ fault = .lookup path error := by
  rw [← standing_eq_error_iff, contains]
  cases files.standing path <;> simp [Except.map]

theorem exists_of_isFile (isFile : files.isFile path = .ok true) :
    ∃ location content, files.lookUp path = .ok location ∧
      files.root.find? location = some (.file content) := by
  rw [FileSystem.isFile] at isFile
  cases stands : files.standing path with
  | error fault => simp [stands, Except.map] at isFile
  | ok result =>
    cases result with
    | none => simp [stands, Except.map] at isFile
    | some tree =>
      obtain ⟨location, found, there⟩ := standing_eq_some_iff.mp stands
      cases tree with
      | file content => exact ⟨location, content, found, there⟩
      | directory entries => simp [stands, Except.map, FileTree.isDirectory] at isFile

theorem isFile_eq_error_iff {fault : Fault} : files.isFile path = .error fault ↔
    ∃ error, files.Refused path error ∧ fault = .lookup path error := by
  rw [← standing_eq_error_iff, FileSystem.isFile]
  cases files.standing path <;> simp [Except.map]

theorem hasNull_of_contains (present : files.contains path = .ok true) : path.hasNull = false := by
  obtain ⟨_, found⟩ := contains_eq_true_iff.mp present
  exact (lookUp_eq_ok_iff.mp found).1

end FileSystem

/-! ## Queues -/

namespace Queue

variable {queue later : Queue} {files : FileSystem} {path : Path} {fault : Fault}

/-- What is added to a queue is a plain file that is no glue file. -/
theorem add_ok (added : queue.add files path = .ok later) :
    (∃ kind, kind ≠ .glue ∧ path.normalize.inputKind? = some kind) ∧
      files.isFile path.normalize = .ok true ∧
      (path.normalize ∈ queue.paths ∧ later = queue ∨
        path.normalize ∉ queue.paths ∧ later.paths = queue.paths ++ [path.normalize]) := by
  rw [add] at added
  split at added
  · cases added
  · cases added
  next kind notGlue known =>
  obtain ⟨isFile, looked, added⟩ := exists_of_bind_eq_ok added
  refine ⟨⟨kind, notGlue, known⟩, ?_⟩
  split at added
  · cases added
  next plain =>
  have isTrue : isFile = true := by simpa using plain
  refine ⟨isTrue ▸ looked, ?_⟩
  split at added
  · next present =>
    cases added
    exact .inl ⟨List.contains_iff_mem.mp present, rfl⟩
  · next absent =>
    cases added
    exact .inr ⟨fun present => absent (List.contains_iff_mem.mpr present), rfl⟩

theorem add_error (refused : queue.add files path = .error fault) :
    (∃ reason, fault = .failure reason) ∨ files.isFile path.normalize = .error fault := by
  rw [add] at refused
  split at refused
  · cases refused
    exact .inl ⟨_, rfl⟩
  · cases refused
    exact .inl ⟨_, rfl⟩
  rcases error_of_bind_eq_error refused with looked | ⟨isFile, _, refused⟩
  · exact .inr looked
  · split at refused
    · cases refused
      exact .inl ⟨_, rfl⟩
    · split at refused <;> cases refused

end Queue

/-! ## Normal forms -/

namespace Path

theorem hasNull_eq_false_iff {path : Path} : path.hasNull = false ↔
    ∀ component ∈ path.components, '\x00' ∉ component.toList := by
  simp [hasNull]

/-- Collapsing keeps no component that was not there, except for `..`. -/
theorem forall_collapseOnto {holds : String → Prop} (atUp : holds up) {anchor : Anchor}
    {stack : List String} {component : String} (stacked : ∀ other ∈ stack, holds other)
    (own : holds component) : ∀ other ∈ collapseOnto anchor stack component, holds other := by
  unfold collapseOnto
  split
  · exact stacked
  split
  · exact List.forall_mem_cons.mpr ⟨own, stacked⟩
  split
  · split
    · exact List.forall_mem_singleton.mpr atUp
    · simp
  · split
    · exact List.forall_mem_cons.mpr ⟨atUp, stacked⟩
    · exact fun other member => stacked other (.tail _ member)

theorem hasNull_normalize {path : Path} (free : path.hasNull = false) :
    path.normalize.hasNull = false := by
  rw [hasNull_eq_false_iff] at free ⊢
  have onto : ∀ (components stack : List String),
      (∀ component ∈ components, '\x00' ∉ component.toList) →
      (∀ other ∈ stack, '\x00' ∉ other.toList) →
      ∀ other ∈ components.foldl (collapseOnto path.anchor) stack, '\x00' ∉ other.toList := by
    intro components
    induction components with
    | nil => exact fun _ _ stacked => stacked
    | cons component rest ih =>
      intro stack all stacked
      obtain ⟨own, others⟩ := List.forall_mem_cons.mp all
      exact ih _ others (forall_collapseOnto (by decide) stacked own)
  intro component member
  exact onto _ [] free (by simp) component (List.mem_reverse.mp member)

/-- The bytes of components with a slash after each. -/
def extent : List String → Nat
  | [] => 0
  | component :: rest => component.utf8ByteSize + 1 + extent rest

theorem extent_cons (component : String) (rest : List String) :
    extent (component :: rest) = component.utf8ByteSize + 1 + extent rest := rfl

theorem extent_append (first second : List String) :
    extent (first ++ second) = extent first + extent second := by
  induction first with
  | nil => exact (Nat.zero_add _).symm
  | cons component rest ih =>
    rw [List.cons_append, extent_cons, extent_cons, ih, Nat.add_assoc _ (extent rest)]

theorem extent_reverse (components : List String) : extent components.reverse = extent components := by
  induction components with
  | nil => rfl
  | cons component rest ih =>
    rw [List.reverse_cons, extent_append, ih, extent_cons, extent_cons, extent, Nat.add_zero, Nat.add_comm]

theorem size_intercalate (first : String) (rest : List String) :
    ("/".intercalate (first :: rest)).utf8ByteSize + 1 = extent (first :: rest) := by
  induction rest generalizing first with
  | nil =>
    rw [String.intercalate_singleton, extent_cons]
    rfl
  | cons second rest ih =>
    have slash : "/".utf8ByteSize = 1 := rfl
    rw [String.intercalate_cons_cons, String.utf8ByteSize_append, String.utf8ByteSize_append, extent_cons,
      ← ih second, slash]
    omega

theorem extent_collapseOnto (anchor : Anchor) (stack : List String) (component : String) :
    extent (collapseOnto anchor stack component) ≤ extent stack + (component.utf8ByteSize + 1) := by
  unfold collapseOnto
  split
  · exact Nat.le_add_right ..
  split
  · rw [extent_cons]
    omega
  next isUp =>
  rw [ne_eq, Decidable.not_not] at isUp
  split
  · split
    · rw [isUp, extent_cons]
      omega
    · exact Nat.zero_le _
  · next last before =>
    split
    · rw [isUp, extent_cons]
      omega
    · rw [extent_cons]
      omega

theorem extent_normalize (path : Path) : extent path.normalize.components ≤ extent path.components := by
  have onto : ∀ (components stack : List String),
      extent (components.foldl (collapseOnto path.anchor) stack) ≤ extent stack + extent components := by
    intro components
    induction components with
    | nil => exact fun _ => Nat.le_refl _
    | cons component rest ih =>
      intro stack
      have step := extent_collapseOnto path.anchor stack component
      have later := ih (collapseOnto path.anchor stack component)
      rw [List.foldl_cons, extent_cons]
      omega
  have whole := onto path.components []
  rw [normalize, extent_reverse]
  exact Nat.le_trans whole (Nat.le_of_eq (Nat.zero_add _))

theorem size_toString {path : Path} {first : String} {rest : List String}
    (split : path.components = first :: rest) :
    (toString path).utf8ByteSize + 1 =
      (Anchor.slashes path.anchor).utf8ByteSize + extent path.components := by
  have named : path ≠ here := by
    rintro rfl
    cases split
  change (Path.toString path).utf8ByteSize + 1 = _
  rw [Path.toString, if_neg named, String.utf8ByteSize_append, split, ← size_intercalate, Nat.add_assoc]

/-- A path that is not too long has a normal form that is not. -/
theorem isTooLong_normalize {path : Path} (short : path.isTooLong = false) :
    path.normalize.isTooLong = false := by
  rw [isTooLong, decide_eq_false_iff_not, Nat.not_le] at short ⊢
  have shrinks := extent_normalize path
  cases collapsed : path.normalize.components with
  | nil =>
    have isRoot : path.normalize = ⟨path.anchor, []⟩ := by rw [← collapsed]; rfl
    rw [isRoot]
    cases path.anchor <;> decide
  | cons first rest =>
    have own := size_toString collapsed
    cases split : path.components with
    | nil =>
      rw [split, collapsed, extent_cons] at shrinks
      change _ ≤ 0 at shrinks
      omega
    | cons head tail =>
      have whole := size_toString split
      change _ = (Anchor.slashes path.anchor).utf8ByteSize + _ at own
      omega

end Path

theorem Path.isBlank_of_size {component : String} (filled : 1 < component.utf8ByteSize) :
    Path.isBlank component = false := by
  rw [Path.isBlank, Bool.or_eq_false_iff, decide_eq_false_iff_not, decide_eq_false_iff_not]
  constructor <;> rintro rfl <;> exact absurd filled (by decide)

/-- A name that is too long is refused in the working directory. -/
theorem FileSystem.refused_of_nameLimit {files : FileSystem} {entries : List (String × FileTree)}
    {name : String} (found : files.root.find? files.workingDirectory = some (.directory entries))
    (opened : files.isClosed files.workingDirectory = false) (unnull : '\x00' ∉ name.toList)
    (long : nameLimit < name.utf8ByteSize) (short : name.utf8ByteSize < Path.sizeLimit) :
    files.Refused ⟨.relative, [name]⟩ .nameTooLong := by
  have led : files.follow files.workingDirectory [] = .ok files.workingDirectory := by
    rw [follow, found]
  refine .component ?_ ?_ (.intro [] rfl led found ?_)
  · exact Path.hasNull_eq_false_iff.mpr (List.forall_mem_singleton.mpr unnull)
  · have whole : (toString (⟨.relative, [name]⟩ : Path)).utf8ByteSize + 1 =
        0 + (name.utf8ByteSize + 1 + 0) := Path.size_toString rfl
    rw [Path.isTooLong, decide_eq_false_iff_not]
    omega
  · rw [refusal?, opened, if_neg Bool.false_ne_true, if_pos long]

end WireModules
