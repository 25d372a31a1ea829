import WireModules.Proofs.Noting

/-!
# Collisions in the order in which they are reported

The collisions of a name depend on the types noted under it alone: each type collides with the record
that the name has then, if that is of another file, and a pair of files that was reported is not reported
again. So the types of a name that are noted twice over, first as written and then as resolved, collide
one file with the next, and the last file once with the first if there are files between them.
-/

set_option autoImplicit false

namespace WireModules

/-- Whether a line of the log is a warning of the registry. -/
def LogRecord.isCollisionWarning (record : LogRecord) : Bool :=
  record.level = .warning && record.source = .registry

namespace Collision

/-- The collisions that are known after one more has come up. -/
def report (known : List Collision) (collision : Collision) : List Collision :=
  if known.any collision.same then known else known ++ [collision]

variable {known collisions : List Collision} {collision : Collision}

theorem same_self (collision : Collision) : collision.same collision = true := by
  simp [same]

theorem id_of_same {other : Collision} (alike : collision.same other = true) :
    collision.id = other.id := by
  simp only [same, Bool.and_eq_true, decide_eq_true_eq] at alike
  exact alike.1

/-- What is known of a name tells what is reported of it. -/
theorem filter_report (known : List Collision) (collision : Collision) (id : String) :
    (report known collision).filter (fun other => other.id = id) =
      if collision.id = id then report (known.filter fun other => other.id = id) collision
      else known.filter fun other => other.id = id := by
  by_cases named : collision.id = id
  · have sameKnown : (known.filter fun other => other.id = id).any collision.same =
        known.any collision.same := by
      rw [Bool.eq_iff_iff, List.any_eq_true, List.any_eq_true]
      constructor
      · intro ⟨other, member, alike⟩
        exact ⟨other, (List.mem_filter.mp member).1, alike⟩
      · intro ⟨other, member, alike⟩
        have sameName : other.id = id := (id_of_same alike).symm.trans named
        exact ⟨other, List.mem_filter.mpr ⟨member, decide_eq_true sameName⟩, alike⟩
    rw [if_pos named, report, report, sameKnown]
    split
    · rfl
    · simp [named]
  · rw [if_neg named, report]
    split
    · rfl
    · simp [named]

theorem filter_reports (known collisions : List Collision) (id : String) :
    (collisions.foldl report known).filter (fun other => other.id = id) =
      (collisions.filter fun other => other.id = id).foldl report
        (known.filter fun other => other.id = id) := by
  induction collisions generalizing known with
  | nil => rfl
  | cons collision rest ih =>
    rw [List.foldl_cons, ih, filter_report, List.filter_cons]
    by_cases named : collision.id = id <;> simp [named]

theorem reports_of_known (each : ∀ collision ∈ collisions, known.any collision.same = true) :
    collisions.foldl report known = known := by
  induction collisions with
  | nil => rfl
  | cons collision rest ih =>
    obtain ⟨own, others⟩ := List.forall_mem_cons.mp each
    rw [List.foldl_cons, report, if_pos own, ih others]

/-- No two collisions are of one name and the same two files. -/
abbrev Differ (collisions : List Collision) : Prop :=
  collisions.Pairwise fun earlier later => later.same earlier = false

theorem reports_of_differ (differ : Differ (known ++ collisions)) :
    collisions.foldl report known = known ++ collisions := by
  induction collisions generalizing known with
  | nil => exact (List.append_nil known).symm
  | cons collision rest ih =>
    have fresh : known.any collision.same = false := by
      rw [List.any_eq_false]
      intro other member
      have apart := (List.pairwise_append.mp differ).2.2 other member collision (.head _)
      simp [apart]
    rw [List.foldl_cons, report, if_neg (by simp [fresh])]
    rw [List.append_cons known collision rest] at differ ⊢
    exact ih differ

end Collision

namespace Registry

open Collision

/-- The collisions of a type with the record that its name has. -/
def clashes (held : Option TypeRecord) (info : TypeRecord) : List Collision :=
  match held with
  | none => []
  | some previous =>
    if previous.modulePath = info.modulePath then [] else [collisionOf previous info]

/-- The record that a name has after one more type. -/
def successor (held : Option TypeRecord) (info : TypeRecord) : TypeRecord :=
  match held with
  | none => info
  | some previous => if previous.isResolved && !info.isResolved then previous else info

/-- The collisions of types of one name, one after the other. -/
def course (held : Option TypeRecord) : List TypeRecord → List Collision
  | [] => []
  | info :: rest => clashes held info ++ course (some (successor held info)) rest

/-- The log warns of each collision that is new, in order, and of nothing else. -/
def Accounts (first last : Registry) (log : List LogRecord) : Prop :=
  ∃ fresh, last.collisions = first.collisions ++ fresh ∧
    log.filter LogRecord.isCollisionWarning = fresh.map Collision.warning

variable {registry met noted first between last : Registry} {previous info : TypeRecord}
  {infos : List TypeRecord} {log later : List LogRecord}

theorem Accounts.of_same (same : last.collisions = first.collisions)
    (silent : log.filter LogRecord.isCollisionWarning = []) : Accounts first last log :=
  ⟨[], by rw [same, List.append_nil], silent⟩

theorem Accounts.trans (accounts : Accounts first between log) (others : Accounts between last later) :
    Accounts first last (log ++ later) := by
  obtain ⟨fresh, collisions, warnings⟩ := accounts
  obtain ⟨more, moreCollisions, moreWarnings⟩ := others
  refine ⟨fresh ++ more, ?_, ?_⟩
  · rw [moreCollisions, collisions, List.append_assoc]
  · rw [List.filter_append, warnings, moreWarnings, List.map_append]

/-! ## One type -/

theorem reports_of_meet (meeting : registry.meet previous info = .ok (met, log)) :
    met.collisions = (clashes (some previous) info).foldl report registry.collisions ∧
      Accounts registry met log := by
  have inverted := meeting_meet registry previous info
  rw [meeting] at inverted
  rw [clashes]
  cases inverted with
  | same same =>
    rw [if_pos same]
    exact ⟨rfl, .of_same rfl rfl⟩
  | known differ known =>
    rw [if_neg differ, List.foldl_cons, List.foldl_nil, report, if_pos known]
    exact ⟨rfl, .of_same rfl rfl⟩
  | warned differ unknown =>
    rw [if_neg differ, List.foldl_cons, List.foldl_nil, report, if_neg (Bool.eq_false_iff.mp unknown)]
    exact ⟨rfl, [collisionOf previous info], rfl, rfl⟩

theorem reports_of_record {recording : Recording} (recorded : registry.record info = .ok recording) :
    recording.registry.collisions =
        (clashes (registry.find? info.id) info).foldl report registry.collisions ∧
      Accounts registry recording.registry recording.log := by
  have inverted := recorded_record registry info
  rw [recorded] at inverted
  cases inverted with
  | new absent =>
    rw [absent]
    exact ⟨rfl, .of_same rfl rfl⟩
  | dropped found meeting =>
    obtain ⟨collisions, accounts⟩ := reports_of_meet meeting
    rw [found]
    exact ⟨collisions, accounts.trans (.of_same rfl rfl)⟩
  | replaced found meeting =>
    obtain ⟨collisions, accounts⟩ := reports_of_meet meeting
    rw [found]
    exact ⟨collisions, accounts⟩

theorem collisions_listEnum (registry : Registry) (info : TypeRecord) :
    (registry.listEnum info).collisions = registry.collisions := by
  rw [listEnum]
  split <;> rfl

theorem collisions_of_note (done : registry.note info = .ok (noted, log)) :
    noted.collisions =
      (clashes (registry.find? info.id) info).foldl report registry.collisions := by
  rw [note] at done
  split at done
  · cases done
  next recording recorded =>
  cases done
  split
  · rw [collisions_listEnum]
    exact (reports_of_record recorded).1
  · exact (reports_of_record recorded).1

theorem find?_of_note (done : registry.note info = .ok (noted, log)) (id : String) :
    noted.find? id =
      if info.id = id then some (successor (registry.find? id) info) else registry.find? id := by
  rw [find?, (isNote_of_note done).types]
  by_cases named : info.id = id
  · subst named
    rw [if_pos rfl]
    cases resolved : info.isResolved with
    | true =>
      rw [find?_recordIn_of_resolved resolved, if_pos rfl]
      cases registry.find? info.id <;> simp [successor, resolved]
    | false =>
      rw [find?_recordIn_of_unresolved resolved, find?]
      cases registry.types.find? fun held => held.id = info.id with
      | none => rfl
      | some previous => cases kept : previous.isResolved <;> simp [successor, resolved, kept]
  · rw [if_neg named, find?_recordIn_of_ne named]
    rfl

/-! ## Many types -/

theorem id_of_mem_clashes {held : Option TypeRecord} {collision : Collision}
    (member : collision ∈ clashes held info) : collision.id = info.id := by
  unfold clashes at member
  split at member
  · cases member
  · split at member
    · cases member
    · cases List.mem_singleton.mp member
      rfl

/-- The collisions of a name are those of the types noted under it, as far as they are new. -/
theorem Replays.collisions_of_id (replays : Replays first infos log last) (id : String) :
    last.collisions.filter (fun collision => collision.id = id) =
      (course (first.find? id) (infos.filter fun info => info.id = id)).foldl report
        (first.collisions.filter fun collision => collision.id = id) := by
  induction replays with
  | nil => rfl
  | @cons first between last info rest own log noted _ ih =>
    rw [ih, collisions_of_note noted, filter_reports, find?_of_note noted]
    by_cases named : info.id = id
    · subst named
      have whole : (clashes (first.find? info.id) info).filter (fun other => other.id = info.id) =
          clashes (first.find? info.id) info :=
        List.filter_eq_self.mpr fun _ member => decide_eq_true (id_of_mem_clashes member)
      rw [if_pos rfl, List.filter_cons_of_pos (by simp), whole, course, List.foldl_append]
    · have none : (clashes (first.find? info.id) info).filter (fun other => other.id = id) = [] := by
        rw [List.filter_eq_nil_iff]
        intro other member
        rw [id_of_mem_clashes member]
        simpa using named
      rw [if_neg named, List.filter_cons_of_neg (by simpa using named), none, List.foldl_nil]

/-! ## Files that come one after the other -/

/-- The collisions of each file with the next, where they differ. -/
def turns (id : String) : List (Option Path) → List Collision
  | [] => []
  | [_] => []
  | first :: second :: rest =>
    (if first = second then [] else [⟨id, first, second⟩]) ++ turns id (second :: rest)

/-- As long as no resolved type comes before one that is not, each type takes the place of the one
before it, and collides with that one. -/
theorem course_eq_turns {id : String} {held : Option TypeRecord}
    (named : ∀ info ∈ infos, info.id = id)
    (ordered : (held.toList ++ infos).Pairwise fun earlier later =>
      earlier.isResolved = true → later.isResolved = true) :
    course held infos = turns id ((held.toList ++ infos).map TypeRecord.modulePath) := by
  induction infos generalizing held with
  | nil => cases held <;> rfl
  | cons info rest ih =>
    obtain ⟨own, others⟩ := List.forall_mem_cons.mp named
    cases held with
    | none => exact ih others ordered
    | some previous =>
      obtain ⟨after, orderedRest⟩ := List.pairwise_cons.mp ordered
      have replaced : successor (some previous) info = info := by
        cases resolved : previous.isResolved with
        | false => simp [successor, resolved]
        | true => simp [successor, after info (.head _) resolved]
      have later : course (some info) rest = turns id ((info :: rest).map TypeRecord.modulePath) :=
        ih others orderedRest
      rw [course, replaced, later]
      change clashes (some previous) info ++ _ =
        (if previous.modulePath = info.modulePath then _ else _) ++ _
      rw [clashes, collisionOf, own]
      rfl

theorem turns_append_cons (id : String) (before : List (Option Path)) (last next : Option Path)
    (after : List (Option Path)) : turns id (before ++ last :: next :: after) =
      turns id (before ++ [last]) ++ turns id [last, next] ++ turns id (next :: after) := by
  induction before with
  | nil => simp [turns]
  | cons first rest ih =>
    cases rest with
    | nil => simp [turns]
    | cons second others =>
      change (if first = second then _ else _) ++ turns id (second :: others ++ _) = _
      rw [ih]
      simp [turns]

end Registry

namespace Collision

open Registry

/-- Each file but the last collides with the next. -/
def successive (id : String) (paths : List Path) : List Collision :=
  (paths.zip paths.tail).map fun (first, second) => ⟨id, some first, some second⟩

/-- The last file collides with the first, unless there are less than three. -/
def around (id : String) (paths : List Path) : List Collision :=
  if 3 ≤ paths.length then [⟨id, paths.getLast?, paths.head?⟩] else []

variable {id : String} {paths : List Path} {collision : Collision}

theorem around_eq_nil_iff : around id paths = [] ↔ paths.length ≤ 2 := by
  rw [around]
  split
  · simp
    omega
  · simp
    omega

theorem successive_cons_cons (id : String) (first second : Path) (rest : List Path) :
    successive id (first :: second :: rest) =
      ⟨id, some first, some second⟩ :: successive id (second :: rest) := rfl

theorem mem_of_mem_successive (member : collision ∈ successive id paths) :
    ∃ first ∈ paths, ∃ second ∈ paths, collision = ⟨id, some first, some second⟩ := by
  obtain ⟨⟨first, second⟩, zipped, rfl⟩ := List.mem_map.mp member
  obtain ⟨isFirst, isSecond⟩ := List.of_mem_zip zipped
  exact ⟨first, isFirst, second, List.mem_of_mem_tail isSecond, rfl⟩

theorem turns_of_nodup (distinct : paths.Nodup) :
    turns id (paths.map some) = successive id paths := by
  induction paths with
  | nil => rfl
  | cons first rest ih =>
    cases rest with
    | nil => rfl
    | cons second others =>
      obtain ⟨fresh, distinctRest⟩ := List.nodup_cons.mp distinct
      have differ : some first ≠ some second := by
        rintro ⟨⟩
        exact fresh (.head _)
      change (if some first = some second then [] else [_]) ++ turns id ((second :: others).map some) = _
      rw [if_neg differ, ih distinctRest, successive_cons_cons, List.singleton_append]

/-- A collision in which a file takes part is none of those among other files. -/
theorem not_same_of_not_mem {file : Path} {other : Option Path} (absent : file ∉ paths)
    (member : collision ∈ successive id paths) :
    collision.same ⟨id, some file, other⟩ = false ∧
      Collision.same ⟨id, other, some file⟩ collision = false := by
  obtain ⟨first, isFirst, second, isSecond, rfl⟩ := mem_of_mem_successive member
  have notFirst : first ≠ file := fun equal => absent (equal ▸ isFirst)
  have notSecond : second ≠ file := fun equal => absent (equal ▸ isSecond)
  constructor
  · simp [same, notFirst, notSecond]
  · simp [same, Ne.symm notFirst, Ne.symm notSecond]

theorem differ_successive (distinct : paths.Nodup) : Differ (successive id paths) := by
  induction paths with
  | nil => exact .nil
  | cons first rest ih =>
    cases rest with
    | nil => exact .nil
    | cons second others =>
      obtain ⟨fresh, distinctRest⟩ := List.nodup_cons.mp distinct
      rw [successive_cons_cons]
      exact .cons (fun later member => (not_same_of_not_mem fresh member).1) (ih distinctRest)

/-- The last of three files or more has not collided with the first when each has with the next. -/
theorem differ_successive_append {first second last : Path} {middle : List Path}
    (distinct : (first :: second :: middle ++ [last]).Nodup) :
    Differ (successive id (first :: second :: middle ++ [last]) ++ [⟨id, some last, some first⟩]) := by
  refine List.pairwise_append.mpr ⟨differ_successive distinct, List.pairwise_singleton .., ?_⟩
  intro earlier member closing isClosing
  cases List.mem_singleton.mp isClosing
  obtain ⟨fresh, distinctRest⟩ := List.nodup_cons.mp distinct
  rcases List.mem_cons.mp member with rfl | later
  · have notSecond : last ≠ second := by
      rintro rfl
      exact (List.nodup_cons.mp distinctRest).1 (by simp)
    have notFirst : first ≠ second := by
      rintro rfl
      exact fresh (.head _)
    simp [same, notSecond, notFirst]
  · exact (not_same_of_not_mem fresh later).2

/-- Files that come one after the other, and once again: each collides with the next, and the last with
the first if there are files between them. -/
theorem reports_twice (distinct : paths.Nodup) :
    (turns id (paths.map some ++ paths.map some)).foldl report [] =
      successive id paths ++ around id paths := by
  match paths with
  | [] => rfl
  | [_] => simp [turns, successive, around]
  | [first, second] =>
    have differ : first ≠ second := by simpa using distinct
    simp [turns, successive, around, report, same, differ, Ne.symm differ]
  | first :: second :: third :: rest =>
    obtain ⟨middle, last, later⟩ : ∃ middle last, third :: rest = middle ++ [last] :=
      ⟨_, _, (List.dropLast_concat_getLast (List.cons_ne_nil third rest)).symm⟩
    have long : 3 ≤ (first :: second :: third :: rest).length := by simp
    rw [around, if_pos long, later]
    rw [later] at distinct
    have passes : turns id ((first :: second :: (middle ++ [last])).map some ++
        (first :: second :: (middle ++ [last])).map some) =
          successive id (first :: second :: (middle ++ [last])) ++ [⟨id, some last, some first⟩] ++
            successive id (first :: second :: (middle ++ [last])) := by
      have apart : some last ≠ some first := by
        rintro ⟨⟩
        exact (List.nodup_cons.mp distinct).1 (by simp)
      have split := turns_append_cons id ((first :: second :: middle).map some) (some last) (some first)
        ((second :: (middle ++ [last])).map some)
      rw [← turns_of_nodup distinct]
      simpa [turns, apart] using split
    have closing : Differ ([] ++ (successive id (first :: second :: (middle ++ [last])) ++
        [⟨id, some last, some first⟩])) := differ_successive_append distinct
    rw [passes, List.foldl_append, reports_of_differ closing, List.nil_append, reports_of_known]
    · have isLast : (first :: second :: (middle ++ [last])).getLast? = some last :=
        List.getLast?_concat (l := first :: second :: middle)
      rw [isLast, List.head?_cons]
    · intro collision member
      exact List.any_eq_true.mpr ⟨collision, List.mem_append_left _ member, same_self collision⟩

end Collision

namespace Registry

open Collision

variable {last : Registry} {written resolved : List TypeRecord} {log : List LogRecord} {strict : Bool}
  {paths : List Path} {id : String}

/-- Where the types of some files are noted as written and then again as resolved, the files of a name
collide one with the next, and the last with the first if there are files between them. -/
theorem Replays.collisions_of_passes (replays : Replays { strict } (written ++ resolved) log last)
    (unresolvedPhase : ∀ info ∈ written, info.isResolved = false)
    (resolvedPhase : ∀ info ∈ resolved, info.isResolved = true)
    (writtenPaths : (written.filter fun info => info.id = id).map TypeRecord.modulePath =
      paths.map some)
    (resolvedPaths : (resolved.filter fun info => info.id = id).map TypeRecord.modulePath =
      paths.map some)
    (distinct : paths.Nodup) :
    last.collisions.filter (fun collision => collision.id = id) =
      successive id paths ++ around id paths := by
  have collisions := replays.collisions_of_id id
  change _ = (course none _).foldl report [] at collisions
  have named : ∀ info ∈ (written ++ resolved).filter fun info => info.id = id, info.id = id :=
    fun info member => by simpa using (List.mem_filter.mp member).2
  have ordered : ((none : Option TypeRecord).toList ++
      (written ++ resolved).filter fun info => info.id = id).Pairwise
        fun earlier later => earlier.isResolved = true → later.isResolved = true := by
    refine List.Pairwise.filter _ (List.pairwise_append.mpr ⟨?_, ?_, ?_⟩)
    · refine List.pairwise_of_forall_mem_list fun info member _ _ isResolved => ?_
      cases (unresolvedPhase info member).symm.trans isResolved
    · exact List.pairwise_of_forall_mem_list fun _ _ info member _ => resolvedPhase info member
    · exact fun _ _ info member _ => resolvedPhase info member
  rw [collisions, course_eq_turns named ordered, Option.toList_none, List.nil_append,
    List.filter_append, List.map_append, writtenPaths, resolvedPaths]
  exact reports_twice distinct

/-- The name has the record of the last file then. -/
theorem Replays.find?_of_passes (replays : Replays { strict } (written ++ resolved) log last)
    (resolvedPhase : ∀ info ∈ resolved, info.isResolved = true)
    (resolvedPaths : (resolved.filter fun info => info.id = id).map TypeRecord.modulePath =
      paths.map some) {path : Path} (isLast : paths.getLast? = some path) :
    ∃ info, last.find? id = some info ∧ info.isResolved = true ∧ info.modulePath = some path := by
  have lastPath : ((resolved.filter fun info => info.id = id).getLast?).map TypeRecord.modulePath =
      some (some path) := by
    rw [← List.getLast?_map, resolvedPaths, List.getLast?_map, isLast]
    rfl
  obtain ⟨info, found, placed⟩ := Option.map_eq_some_iff.mp lastPath
  rw [← List.head?_reverse, ← List.filter_reverse, List.head?_filter] at found
  have isResolved := resolvedPhase info (List.mem_reverse.mp (List.mem_of_find?_eq_some found))
  refine ⟨info, ?_, isResolved, placed⟩
  rw [find?, replays.types, List.foldl_append, find?_foldl_recordIn_of_resolved resolvedPhase, found,
    Option.some_or]

end Registry

end WireModules
