import WireModules.Registry.Basic
import WireModules.Registry.Extract

/-!
# What a registry holds after some records

Recording touches one name. After resolved records have been taken, a name has the last of them;
names keep the place of their first record.
-/

set_option autoImplicit false

namespace WireModules

/-- The warning about a collision, the path that came first being the one that was recorded. -/
def Collision.warning (collision : Collision) : LogRecord :=
  ⟨.warning, .registry, "type '" ++ collision.id ++ "' redefined by " ++
    Registry.shownPath collision.second ++ " (first defined in " ++
    Registry.shownPath collision.first ++ "); later definition wins"⟩

namespace Registry

/-- The records after one more: a resolved record stays where the new one is not resolved. -/
def recordIn (types : List TypeRecord) (info : TypeRecord) : List TypeRecord :=
  match types.find? fun other => other.id = info.id with
  | none => putAmong info types
  | some previous =>
    if previous.isResolved && !info.isResolved then types else putAmong info types

/-! ## What becomes of a type -/

section Cases

variable {registry met : Registry} {previous info : TypeRecord} {log : List LogRecord}

def collisionOf (previous info : TypeRecord) : Collision :=
  ⟨info.id, previous.modulePath, info.modulePath⟩

/-- What becomes of a type and the record of its name before one may take the other's place. -/
inductive Meeting (registry : Registry) (previous info : TypeRecord) :
    Except Failure (Registry × List LogRecord) → Prop where
  | same : previous.modulePath = info.modulePath → Meeting registry previous info (.ok (registry, []))
  | known : previous.modulePath ≠ info.modulePath →
      registry.collisions.any (collisionOf previous info).same = true →
      Meeting registry previous info (.ok (registry, []))
  | refused : previous.modulePath ≠ info.modulePath → registry.strict = true →
      Meeting registry previous info (.error (.typeNameCollision (collisionMessage previous info)
        (info.modulePath.map toString)))
  | warned : previous.modulePath ≠ info.modulePath →
      registry.collisions.any (collisionOf previous info).same = false → registry.strict = false →
      Meeting registry previous info
        (.ok ({ registry with collisions := registry.collisions ++ [collisionOf previous info] },
          [(collisionOf previous info).warning]))

theorem meeting_meet (registry : Registry) (previous info : TypeRecord) :
    Meeting registry previous info (registry.meet previous info) := by
  rw [meet]
  split
  · next same => exact .same same
  next differ =>
  simp only [collide]
  split
  · next known => exact .known differ known
  next unknown =>
  split
  · next strict => exact .refused differ strict
  · next lax =>
    have text : collisionMessage previous info ++ "; later definition wins" =
        (collisionOf previous info).warning.text := by
      simp [Collision.warning, collisionOf, collisionMessage, String.append_assoc]
    rw [text]
    exact .warned differ (Bool.eq_false_iff.mpr unknown) (Bool.eq_false_iff.mpr lax)

/-- What becomes of a type that is to be recorded. -/
inductive Recorded (registry : Registry) (info : TypeRecord) : Except Failure Recording → Prop where
  | new : registry.find? info.id = none → Recorded registry info (.ok ⟨registry.put info, true, []⟩)
  | refused {previous : TypeRecord} {failure : Failure} : registry.find? info.id = some previous →
      registry.meet previous info = .error failure → Recorded registry info (.error failure)
  | dropped {previous : TypeRecord} {met : Registry} {log : List LogRecord} :
      registry.find? info.id = some previous → registry.meet previous info = .ok (met, log) →
      previous.isResolved = true → info.isResolved = false →
      Recorded registry info (.ok ⟨met, false,
        log ++ [⟨.debug, .registry, "  keeping resolved record for '" ++ info.id ++ "'"⟩]⟩)
  | replaced {previous : TypeRecord} {met : Registry} {log : List LogRecord} :
      registry.find? info.id = some previous → registry.meet previous info = .ok (met, log) →
      (previous.isResolved = true → info.isResolved = true) →
      Recorded registry info (.ok ⟨met.put info, true, log⟩)

theorem recorded_record (registry : Registry) (info : TypeRecord) :
    Recorded registry info (registry.record info) := by
  rw [record]
  split
  · next absent => exact .new absent
  next previous found =>
  split
  · next refused => exact .refused found refused
  next met log meeting =>
  split
  · next keeps =>
    simp only [Bool.and_eq_true, Bool.not_eq_true'] at keeps
    exact .dropped found meeting keeps.1 keeps.2
  · next replaces =>
    refine .replaced found meeting fun resolved => ?_
    simpa [resolved] using replaces

theorem types_of_meet (meeting : registry.meet previous info = .ok (met, log)) :
    met.types = registry.types := by
  have inverted := meeting_meet registry previous info
  rw [meeting] at inverted
  cases inverted <;> rfl

theorem recordIn_of_keeps {types : List TypeRecord}
    (held : types.find? (fun other => other.id = info.id) = some previous)
    (resolved : previous.isResolved = true) (unresolved : info.isResolved = false) :
    recordIn types info = types := by
  simp [recordIn, held, resolved, unresolved]

theorem recordIn_of_refines {types : List TypeRecord}
    (refines : ∀ previous, types.find? (fun other => other.id = info.id) = some previous →
      previous.isResolved = true → info.isResolved = true) :
    recordIn types info = putAmong info types := by
  rw [recordIn]
  split
  · rfl
  · next previous held =>
    cases resolved : previous.isResolved with
    | false => simp
    | true => simp [refines previous held resolved]

theorem types_of_record {recording : Recording} (recorded : registry.record info = .ok recording) :
    recording.registry.types = recordIn registry.types info := by
  have inverted := recorded_record registry info
  rw [recorded] at inverted
  cases inverted with
  | new absent =>
    refine (recordIn_of_refines fun previous held => ?_).symm
    cases absent.symm.trans held
  | dropped found meeting resolved unresolved =>
    exact (types_of_meet meeting).trans (recordIn_of_keeps found resolved unresolved).symm
  | replaced found meeting refines =>
    have same : recordIn registry.types info = putAmong info registry.types := by
      refine recordIn_of_refines fun previous held => ?_
      cases found.symm.trans held
      exact refines
    exact (congrArg (putAmong info) (types_of_meet meeting)).trans same.symm

end Cases

theorem find?_putAmong (info : TypeRecord) (types : List TypeRecord) (id : String) :
    (putAmong info types).find? (fun other => other.id = id) =
      if info.id = id then some info else types.find? fun other => other.id = id := by
  induction types with
  | nil => by_cases same : info.id = id <;> simp [putAmong, same]
  | cons first rest ih =>
    rw [putAmong]
    by_cases own : first.id = info.id
    · rw [if_pos own]
      by_cases same : info.id = id
      · simp [same]
      · simp [same, own]
    · rw [if_neg own]
      by_cases same : first.id = id
      · have other : info.id ≠ id := fun infoSame => own (same.trans infoSame.symm)
        simp [same, other]
      · simp [same, ih]

/-- Recording leaves other names alone. -/
theorem find?_recordIn_of_ne {types : List TypeRecord} {info : TypeRecord} {id : String}
    (other : info.id ≠ id) :
    (recordIn types info).find? (fun held => held.id = id) =
      types.find? fun held => held.id = id := by
  rw [recordIn]
  split
  · rw [find?_putAmong, if_neg other]
  · split
    · rfl
    · rw [find?_putAmong, if_neg other]

theorem find?_recordIn_of_resolved {types : List TypeRecord} {info : TypeRecord}
    (resolved : info.isResolved = true) (id : String) :
    (recordIn types info).find? (fun held => held.id = id) =
      if info.id = id then some info else types.find? fun held => held.id = id := by
  rw [recordIn]
  split
  · rw [find?_putAmong]
  · rw [if_neg (by simp [resolved]), find?_putAmong]

theorem find?_foldl_recordIn_of_not_mem {infos types : List TypeRecord} {id : String}
    (absent : id ∉ infos.map TypeRecord.id) :
    (infos.foldl recordIn types).find? (fun held => held.id = id) =
      types.find? fun held => held.id = id := by
  induction infos generalizing types with
  | nil => rfl
  | cons info rest ih =>
    obtain ⟨other, later⟩ := not_or.mp (mt List.mem_cons.mpr absent)
    rw [List.foldl_cons, ih later, find?_recordIn_of_ne (Ne.symm other)]

/-- After resolved records, a name has the last of them, or else the record it had. -/
theorem find?_foldl_recordIn_of_resolved {infos types : List TypeRecord}
    (resolved : ∀ info ∈ infos, info.isResolved = true) (id : String) :
    (infos.foldl recordIn types).find? (fun held => held.id = id) =
      (infos.reverse.find? fun info => info.id = id).or
        (types.find? fun held => held.id = id) := by
  induction infos generalizing types with
  | nil => rfl
  | cons info rest ih =>
    have resolvedRest : ∀ later ∈ rest, later.isResolved = true := fun later member =>
      resolved later (.tail _ member)
    rw [List.foldl_cons, ih resolvedRest,
      find?_recordIn_of_resolved (resolved info (.head _)), List.reverse_cons, List.find?_append,
      Option.or_assoc]
    by_cases same : info.id = id <;> simp [same]

theorem ids_putAmong (info : TypeRecord) (types : List TypeRecord) :
    (putAmong info types).map TypeRecord.id =
      if info.id ∈ types.map TypeRecord.id then types.map TypeRecord.id
      else types.map TypeRecord.id ++ [info.id] := by
  induction types with
  | nil => rfl
  | cons first rest ih =>
    rw [putAmong]
    by_cases own : first.id = info.id
    · simp [own]
    · have differs : info.id ≠ first.id := Ne.symm own
      rw [if_neg own, List.map_cons, ih]
      simp only [List.map_cons, List.mem_cons, differs, false_or]
      split <;> rfl

theorem ids_recordIn (types : List TypeRecord) (info : TypeRecord) :
    (recordIn types info).map TypeRecord.id =
      if info.id ∈ types.map TypeRecord.id then types.map TypeRecord.id
      else types.map TypeRecord.id ++ [info.id] := by
  rw [recordIn]
  split
  · exact ids_putAmong info types
  · next previous present =>
    have member : info.id ∈ types.map TypeRecord.id :=
      List.mem_map.mpr ⟨previous, List.mem_of_find?_eq_some present,
        by simpa using List.find?_some present⟩
    rw [if_pos member]
    split
    · rfl
    · rw [ids_putAmong, if_pos member]

/-- New names come after the names that were there, each where it is recorded first. -/
theorem ids_foldl_recordIn (infos types : List TypeRecord) :
    (infos.foldl recordIn types).map TypeRecord.id =
      types.map TypeRecord.id ++ ((infos.map TypeRecord.id).filter fun id =>
        id ∉ types.map TypeRecord.id).eraseDups := by
  induction infos generalizing types with
  | nil => simp
  | cons info rest ih =>
    rw [List.foldl_cons, ih, ids_recordIn]
    by_cases known : info.id ∈ types.map TypeRecord.id
    · rw [if_pos known, List.map_cons, List.filter_cons_of_neg (by simpa using known)]
    · rw [if_neg known, List.map_cons, List.filter_cons_of_pos (by simpa using known),
        List.eraseDups_cons, List.filter_filter, List.append_assoc, List.singleton_append]
      congr 3
      apply List.filter_congr
      intro id _
      by_cases same : id = info.id <;> simp [same]

theorem nodup_ids_recordIn {types : List TypeRecord} (info : TypeRecord)
    (distinct : (types.map TypeRecord.id).Nodup) :
    ((recordIn types info).map TypeRecord.id).Nodup := by
  rw [ids_recordIn]
  split
  · exact distinct
  · next absent =>
    refine List.nodup_append.mpr ⟨distinct, by simp, ?_⟩
    rintro id known other here rfl
    exact absent (List.mem_singleton.mp here ▸ known)

theorem nodup_ids_foldl_recordIn {infos types : List TypeRecord}
    (distinct : (types.map TypeRecord.id).Nodup) :
    ((infos.foldl recordIn types).map TypeRecord.id).Nodup := by
  induction infos generalizing types with
  | nil => exact distinct
  | cons info rest ih => exact ih (nodup_ids_recordIn info distinct)

theorem find?_of_mem {types : List TypeRecord} {info : TypeRecord}
    (distinct : (types.map TypeRecord.id).Nodup) (member : info ∈ types) :
    types.find? (fun held => held.id = info.id) = some info := by
  induction types with
  | nil => cases member
  | cons first rest ih =>
    rw [List.map_cons, List.nodup_cons] at distinct
    rcases List.mem_cons.mp member with rfl | later
    · simp
    · have differs : first.id ≠ info.id := fun same =>
        distinct.1 (List.mem_map.mpr ⟨info, later, same.symm⟩)
      rw [List.find?_cons_of_neg (by simpa using differs)]
      exact ih distinct.2 later

/-- Two passes over the same names, of which the second has resolved records: it alone decides
what the names have. -/
theorem find?_two_passes {written resolved types : List TypeRecord}
    (sameIds : written.map TypeRecord.id = resolved.map TypeRecord.id)
    (allResolved : ∀ info ∈ resolved, info.isResolved = true) (id : String) :
    ((written ++ resolved).foldl recordIn types).find? (fun held => held.id = id) =
      (resolved.reverse.find? fun info => info.id = id).or
        (types.find? fun held => held.id = id) := by
  rw [List.foldl_append, find?_foldl_recordIn_of_resolved allResolved]
  by_cases named : id ∈ resolved.map TypeRecord.id
  · obtain ⟨info, member, same⟩ := List.mem_map.mp named
    have found : (resolved.reverse.find? fun info => info.id = id).isSome = true :=
      List.find?_isSome.mpr ⟨info, List.mem_reverse.mpr member, by simpa using same⟩
    obtain ⟨last, isLast⟩ := Option.isSome_iff_exists.mp found
    rw [isLast, Option.some_or, Option.some_or]
  · rw [find?_foldl_recordIn_of_not_mem (sameIds ▸ named)]

theorem isResolved_two_passes {written resolved types : List TypeRecord}
    (sameIds : written.map TypeRecord.id = resolved.map TypeRecord.id)
    (allResolved : ∀ info ∈ resolved, info.isResolved = true)
    (resolvedBefore : ∀ info ∈ types, info.isResolved = true)
    (distinct : (types.map TypeRecord.id).Nodup) :
    ∀ info ∈ (written ++ resolved).foldl recordIn types, info.isResolved = true := by
  intro info member
  have found := find?_of_mem (nodup_ids_foldl_recordIn distinct) member
  rw [find?_two_passes sameIds allResolved] at found
  rcases Option.or_eq_some_iff.mp found with last | ⟨_, held⟩
  · exact allResolved info (List.mem_reverse.mp (List.mem_of_find?_eq_some last))
  · exact resolvedBefore info (List.mem_of_find?_eq_some held)

theorem ids_two_passes {written resolved types : List TypeRecord}
    (sameIds : written.map TypeRecord.id = resolved.map TypeRecord.id) :
    ((written ++ resolved).foldl recordIn types).map TypeRecord.id =
      types.map TypeRecord.id ++ ((resolved.map TypeRecord.id).filter fun id =>
        id ∉ types.map TypeRecord.id).eraseDups := by
  let fresh := (resolved.map TypeRecord.id).filter fun id => id ∉ types.map TypeRecord.id
  have again : fresh.removeAll fresh = [] := by
    simp [List.removeAll]
  rw [ids_foldl_recordIn, List.map_append, sameIds, List.filter_append]
  change types.map TypeRecord.id ++ (fresh ++ fresh).eraseDups = _
  rw [List.eraseDups_append, again, List.eraseDups_nil, List.append_nil]

end Registry

end WireModules
