import Mathlib.Data.List.Induction
import WireModules.Proofs.Recording
import WireModules.Session.Compile

/-!
# Types noted one after the other

A session notes each type in its registry: it is recorded, and a public enum is listed for export
while it is not resolved yet. What a registry has come to is told by what was noted in it.
-/

set_option autoImplicit false

namespace WireModules

namespace Registry

def note (registry : Registry) (info : TypeRecord) : Except Failure (Registry × List LogRecord) :=
  match registry.record info with
  | .error failure => .error failure
  | .ok recording =>
    .ok (if !info.isResolved && Session.isPublicEnum info then recording.registry.listEnum info
      else recording.registry, recording.log)

/-- A registry comes of another one by noting some types; the log is what was said on the way. -/
inductive Replays : Registry → List TypeRecord → List LogRecord → Registry → Prop where
  | nil {registry : Registry} : Replays registry [] [] registry
  | cons {first between last : Registry} {info : TypeRecord} {rest : List TypeRecord}
      {own log : List LogRecord} :
      first.note info = .ok (between, own) → Replays between rest log last →
      Replays first (info :: rest) (own ++ log) last

namespace Replays

variable {first between last : Registry} {infos more : List TypeRecord}
  {log others : List LogRecord}

theorem append (replays : Replays first infos log between)
    (later : Replays between more others last) :
    Replays first (infos ++ more) (log ++ others) last := by
  induction replays with
  | nil => exact later
  | cons noted _ ih =>
    rw [List.append_assoc]
    exact .cons noted (ih later)

theorem append_inv (replays : Replays first (infos ++ more) log last) :
    ∃ between own others, Replays first infos own between ∧ Replays between more others last := by
  induction infos generalizing first log with
  | nil => exact ⟨first, [], log, .nil, replays⟩
  | cons info rest ih =>
    cases replays with
    | cons noted later =>
      obtain ⟨between, own, others, earlier, last⟩ := ih later
      exact ⟨between, _, others, .cons noted earlier, last⟩

end Replays

/-! ## One note -/

section Note

variable {registry met noted : Registry} {previous info : TypeRecord} {log : List LogRecord}

/-- Some collisions are kept, and one may be added with a warning, but not in a strict registry. -/
def AddsCollision (registry : Registry) (collisions : List Collision) (log : List LogRecord) :
    Prop :=
  collisions = registry.collisions ∨ registry.strict = false ∧ ∃ collision : Collision,
    collision.warning ∈ log ∧ collisions = registry.collisions ++ [collision]

/-- All that noting a type does to a registry. -/
structure IsNote (registry : Registry) (info : TypeRecord) (noted : Registry)
    (log : List LogRecord) : Prop where
  strict : noted.strict = registry.strict
  types : noted.types = recordIn registry.types info
  collisions : AddsCollision registry noted.collisions log
  met : ∀ previous, registry.find? info.id = some previous →
    previous.modulePath ≠ info.modulePath →
      noted.collisions.any (collisionOf previous info).same = true
  listed : noted.listedEnums =
    if !info.isResolved && Session.isPublicEnum info then (registry.listEnum info).listedEnums
    else registry.listedEnums

theorem meet_ok (meeting : registry.meet previous info = .ok (met, log)) :
    met = { registry with collisions := met.collisions } ∧
      AddsCollision registry met.collisions log ∧
      (previous.modulePath ≠ info.modulePath →
        met.collisions.any (collisionOf previous info).same = true) := by
  have inverted := meeting_meet registry previous info
  rw [meeting] at inverted
  cases inverted with
  | same same => exact ⟨rfl, .inl rfl, fun differ => absurd same differ⟩
  | known _ known => exact ⟨rfl, .inl rfl, fun _ => known⟩
  | warned _ _ lax =>
    refine ⟨rfl, .inr ⟨lax, _, .head _, rfl⟩, fun _ => ?_⟩
    simp [Collision.same]

theorem record_ok {recording : Recording} (recorded : registry.record info = .ok recording) :
    recording.registry.strict = registry.strict ∧
      recording.registry.listedEnums = registry.listedEnums ∧
      AddsCollision registry recording.registry.collisions recording.log ∧
      ∀ previous, registry.find? info.id = some previous →
        previous.modulePath ≠ info.modulePath →
          recording.registry.collisions.any (collisionOf previous info).same = true := by
  have inverted := recorded_record registry info
  rw [recorded] at inverted
  cases inverted with
  | new absent =>
    refine ⟨rfl, rfl, .inl rfl, fun previous found => ?_⟩
    cases absent.symm.trans found
  | @dropped previous met log found meeting =>
    obtain ⟨same, adds, collides⟩ := meet_ok meeting
    refine ⟨by rw [same], by rw [same], ?_, fun other isOther => ?_⟩
    · rcases adds with kept | ⟨lax, collision, warned, added⟩
      · exact .inl kept
      · exact .inr ⟨lax, collision, List.mem_append_left _ warned, added⟩
    · cases found.symm.trans isOther
      exact collides
  | @replaced previous met log found meeting =>
    obtain ⟨same, adds, collides⟩ := meet_ok meeting
    refine ⟨?_, ?_, adds, fun other isOther => ?_⟩
    · rw [same]
      rfl
    · rw [same]
      rfl
    · cases found.symm.trans isOther
      exact collides

theorem listEnum_eq (registry : Registry) (info : TypeRecord) :
    registry.listEnum info =
      { registry with listedEnums := (registry.listEnum info).listedEnums } := by
  rw [listEnum]
  split <;> rfl

theorem types_listEnum (registry : Registry) (info : TypeRecord) :
    (registry.listEnum info).types = registry.types := by
  rw [listEnum_eq]

theorem listed_listEnum (registry : Registry) (info : TypeRecord) (id : String) :
    (∃ listed ∈ (registry.listEnum info).listedEnums, listed.id = id) ↔
      (∃ listed ∈ registry.listedEnums, listed.id = id) ∨ info.id = id := by
  rw [listEnum]
  split
  · next already =>
    constructor
    · exact .inl
    · rintro (earlier | rfl)
      · exact earlier
      · obtain ⟨listed, member, same⟩ := List.any_eq_true.mp already
        exact ⟨listed, member, by simpa using And.left (by simpa using same)⟩
  · constructor
    · rintro ⟨listed, member, same⟩
      rcases List.mem_append.mp member with old | new
      · exact .inl ⟨listed, old, same⟩
      · cases List.mem_singleton.mp new
        exact .inr same
    · rintro (⟨listed, member, same⟩ | same)
      · exact ⟨listed, List.mem_append_left _ member, same⟩
      · exact ⟨info, by simp, same⟩

theorem listedEnums_listEnum {first second : Registry}
    (same : first.listedEnums = second.listedEnums) (info : TypeRecord) :
    (first.listEnum info).listedEnums = (second.listEnum info).listedEnums := by
  simp only [listEnum, same]
  split
  · exact same
  · rfl

theorem isNote_of_note (done : registry.note info = .ok (noted, log)) :
    IsNote registry info noted log := by
  rw [note] at done
  split at done
  · cases done
  · next recording recorded =>
    cases done
    obtain ⟨strict, listed, collisions, met⟩ := record_ok recorded
    have types := types_of_record recorded
    split
    · next isListed =>
      rw [listEnum_eq]
      refine ⟨strict, types, collisions, met, ?_⟩
      rw [if_pos isListed]
      exact listedEnums_listEnum listed info
    · next other =>
      refine ⟨strict, types, collisions, met, ?_⟩
      rw [if_neg other]
      exact listed

end Note

/-! ## Many notes -/

namespace Replays

variable {first last : Registry} {infos : List TypeRecord} {log : List LogRecord}

theorem strict (replays : Replays first infos log last) : last.strict = first.strict := by
  induction replays with
  | nil => rfl
  | cons noted _ ih => exact ih.trans (isNote_of_note noted).strict

theorem types (replays : Replays first infos log last) :
    last.types = infos.foldl recordIn first.types := by
  induction replays with
  | nil => rfl
  | cons noted _ ih => rw [ih, (isNote_of_note noted).types, List.foldl_cons]

theorem collisions_subset (replays : Replays first infos log last) :
    first.collisions ⊆ last.collisions := by
  induction replays with
  | nil => exact List.Subset.refl _
  | cons noted _ ih =>
    refine List.Subset.trans ?_ ih
    rcases (isNote_of_note noted).collisions with kept | ⟨_, _, _, added⟩
    · rw [kept]
      exact List.Subset.refl _
    · rw [added]
      exact List.subset_append_left ..

/-- A strict registry has no collision, since the first would have been a failure. -/
theorem collisions_of_strict (replays : Replays first infos log last)
    (strict : first.strict = true) : last.collisions = first.collisions := by
  induction replays with
  | nil => rfl
  | cons noted _ ih =>
    have isNote := isNote_of_note noted
    rw [ih (isNote.strict.trans strict)]
    rcases isNote.collisions with kept | ⟨lax, _⟩
    · exact kept
    · cases lax.symm.trans strict

/-- Every collision was warned of when it was added. -/
theorem warned (replays : Replays first infos log last) :
    ∀ collision ∈ last.collisions, collision ∈ first.collisions ∨ collision.warning ∈ log := by
  induction replays with
  | nil => exact fun collision member => .inl member
  | cons noted _ ih =>
    intro collision member
    rcases ih collision member with earlier | warned
    · rcases (isNote_of_note noted).collisions with kept | ⟨_, own, warned, added⟩
      · exact .inl (kept ▸ earlier)
      · rw [added] at earlier
        rcases List.mem_append.mp earlier with old | new
        · exact .inl old
        · cases List.mem_singleton.mp new
          exact .inr (List.mem_append_left _ warned)
    · exact .inr (List.mem_append_right _ warned)

/-- A name is among the listed enums once it has been that of an unresolved public enum. -/
theorem listed (replays : Replays first infos log last) (id : String) :
    (∃ listed ∈ last.listedEnums, listed.id = id) ↔
      (∃ listed ∈ first.listedEnums, listed.id = id) ∨
        ∃ info ∈ infos, info.id = id ∧ info.isResolved = false ∧ Session.isPublicEnum info := by
  induction replays with
  | nil => simp
  | @cons first between last info rest own log noted _ ih =>
    have step : (∃ listed ∈ between.listedEnums, listed.id = id) ↔
        (∃ listed ∈ first.listedEnums, listed.id = id) ∨
          (info.id = id ∧ info.isResolved = false ∧ Session.isPublicEnum info) := by
      rw [(isNote_of_note noted).listed]
      split
      · next isListed =>
        simp only [Bool.and_eq_true, Bool.not_eq_true'] at isListed
        rw [listed_listEnum]
        simp [isListed]
      · next other =>
        simp only [Bool.and_eq_true, Bool.not_eq_true'] at other
        simp [other]
    rw [ih, step, or_assoc]
    simp only [List.mem_cons, exists_eq_or_imp]

end Replays

/-! ## The record of a name -/

/-- Of the types noted under a name the last resolved one counts, or the last one if none is
resolved. -/
def governing (infos : List TypeRecord) (id : String) : Option TypeRecord :=
  (infos.reverse.find? fun info => info.id = id && info.isResolved).or
    (infos.reverse.find? fun info => info.id = id)

/-- A type that is not resolved gives way to a resolved one only. -/
theorem find?_recordIn_of_unresolved {types : List TypeRecord} {info : TypeRecord}
    (unresolved : info.isResolved = false) :
    (recordIn types info).find? (fun held => held.id = info.id) =
      match types.find? fun held => held.id = info.id with
      | some previous => if previous.isResolved then some previous else some info
      | none => some info := by
  rw [recordIn]
  cases found : types.find? fun held => held.id = info.id with
  | none => simp [find?_putAmong]
  | some previous =>
    cases resolved : previous.isResolved with
    | true => simpa [resolved, unresolved] using found
    | false => simp [resolved, find?_putAmong]

theorem find?_foldl_recordIn (infos : List TypeRecord) (id : String) :
    (infos.foldl recordIn []).find? (fun held => held.id = id) = governing infos id := by
  induction infos using List.reverseRecOn with
  | nil => rfl
  | append_singleton infos info ih =>
    rw [List.foldl_append, List.foldl_cons, List.foldl_nil, governing, List.reverse_append]
    by_cases own : info.id = id
    · subst own
      cases resolved : info.isResolved with
      | true => simp [find?_recordIn_of_resolved resolved, resolved]
      | false =>
        rw [find?_recordIn_of_unresolved resolved, ih, governing]
        cases last : infos.reverse.find? fun other => other.id = info.id && other.isResolved with
        | some other =>
          have isResolved : other.isResolved = true := by
            simpa using And.right (by simpa using List.find?_some last)
          simp [resolved, last, isResolved]
        | none =>
          cases lastOfAll : infos.reverse.find? fun other => other.id = info.id with
          | none => simp [resolved, last]
          | some other =>
            have isUnresolved : other.isResolved = false := by
              have named : other.id = info.id := by simpa using List.find?_some lastOfAll
              have passed := List.find?_eq_none.mp last other (List.mem_of_find?_eq_some lastOfAll)
              simpa [named] using passed
            simp [resolved, last, isUnresolved]
    · rw [find?_recordIn_of_ne own, ih, governing]
      simp [own]

/-! ## Files that collide -/

/-- A collision of a name is known in which a file took part. -/
def HasCollision (registry : Registry) (id : String) (path : Option Path) : Prop :=
  ∃ collision ∈ registry.collisions, collision.id = id ∧ collision.first ≠ collision.second ∧
    (collision.first = path ∨ collision.second = path)

section Collide

variable {first last registry noted : Registry} {infos : List TypeRecord} {log : List LogRecord}
  {info previous : TypeRecord} {id : String} {path : Option Path}

theorem HasCollision.mono (known : HasCollision first id path)
    (replays : Replays first infos log last) : HasCollision last id path := by
  obtain ⟨collision, member, named⟩ := known
  exact ⟨collision, replays.collisions_subset member, named⟩

theorem IsNote.hasCollision (isNote : IsNote registry info noted log)
    (found : registry.find? info.id = some previous)
    (differ : previous.modulePath ≠ info.modulePath) :
    HasCollision noted info.id previous.modulePath ∧ HasCollision noted info.id info.modulePath := by
  obtain ⟨collision, member, same⟩ := List.any_eq_true.mp (isNote.met previous found differ)
  have sides : info.id = collision.id ∧
      (previous.modulePath = collision.first ∧ info.modulePath = collision.second ∨
        previous.modulePath = collision.second ∧ info.modulePath = collision.first) := by
    simp only [Collision.same, collisionOf, Bool.and_eq_true, Bool.or_eq_true] at same
    obtain ⟨named, ⟨first, second⟩ | ⟨first, second⟩⟩ := same
    · exact ⟨of_decide_eq_true named, .inl ⟨of_decide_eq_true first, of_decide_eq_true second⟩⟩
    · exact ⟨of_decide_eq_true named, .inr ⟨of_decide_eq_true first, of_decide_eq_true second⟩⟩
  obtain ⟨named, ⟨first, second⟩ | ⟨first, second⟩⟩ := sides
  · rw [first, second] at differ ⊢
    exact ⟨⟨collision, member, named.symm, differ, .inl rfl⟩,
      ⟨collision, member, named.symm, differ, .inr rfl⟩⟩
  · rw [first, second] at differ ⊢
    exact ⟨⟨collision, member, named.symm, differ.symm, .inr rfl⟩,
      ⟨collision, member, named.symm, differ.symm, .inl rfl⟩⟩

/-- A file that a name has a type of: the recorded one, or one that is noted. -/
def IsFileOf (registry : Registry) (infos : List TypeRecord) (id : String) (path : Option Path) :
    Prop :=
  (∃ previous, registry.find? id = some previous ∧ previous.modulePath = path) ∨
    ∃ info ∈ infos, info.id = id ∧ info.modulePath = path

/-- A file that a name has a type of still has one after a note, or a type from another file has
taken its place. -/
theorem IsFileOf.of_cons {rest : List TypeRecord} (isNote : IsNote registry info noted log)
    (resolved : info.isResolved = true) (isFile : IsFileOf registry (info :: rest) id path) :
    IsFileOf noted rest id path ∨ (info.id = id ∧ path ≠ info.modulePath ∧
      ∃ previous, registry.find? id = some previous ∧ previous.modulePath = path) := by
  have finds : noted.find? id = if info.id = id then some info else registry.find? id := by
    rw [find?, isNote.types]
    exact find?_recordIn_of_resolved resolved id
  rcases isFile with ⟨previous, found, placed⟩ | ⟨other, member, named, placed⟩
  · by_cases own : info.id = id
    · rw [if_pos own] at finds
      by_cases same : path = info.modulePath
      · exact .inl (.inl ⟨info, finds, same.symm⟩)
      · exact .inr ⟨own, same, previous, found, placed⟩
    · rw [if_neg own] at finds
      exact .inl (.inl ⟨previous, finds.trans found, placed⟩)
  · rcases List.mem_cons.mp member with rfl | later
    · rw [if_pos named] at finds
      exact .inl (.inl ⟨other, finds, placed⟩)
    · exact .inl (.inr ⟨other, later, named, placed⟩)

/-- Where resolved types of one name are noted from two files, each file has taken part in a
collision, though not always in one with the other: the files between them come in the way. -/
theorem Replays.hasCollision (replays : Replays first infos log last)
    (resolved : ∀ info ∈ infos, info.isResolved = true) {other : Option Path}
    (isFile : IsFileOf first infos id path) (isOther : IsFileOf first infos id other)
    (differ : path ≠ other) : HasCollision last id path ∧ HasCollision last id other := by
  induction replays generalizing path other with
  | nil =>
    rcases isFile with ⟨previous, found, rfl⟩ | ⟨_, member, _⟩
    · rcases isOther with ⟨again, foundAgain, rfl⟩ | ⟨_, member, _⟩
      · cases found.symm.trans foundAgain
        exact absurd rfl differ
      · cases member
    · cases member
  | @cons first between last info rest own log noted later ih =>
    have isNote := isNote_of_note noted
    obtain ⟨isResolved, resolvedRest⟩ := List.forall_mem_cons.mp resolved
    -- The file that loses its place collides with the new one here. The other file is the new one,
    -- or it collides with the new one later on.
    have replaced : ∀ {path other}, (info.id = id ∧ path ≠ info.modulePath ∧
        ∃ previous, first.find? id = some previous ∧ previous.modulePath = path) →
          IsFileOf between rest id other → HasCollision last id path ∧ HasCollision last id other := by
      rintro _ other ⟨rfl, differs, previous, found, rfl⟩ isOther
      obtain ⟨former, latter⟩ := isNote.hasCollision found differs
      refine ⟨former.mono later, ?_⟩
      by_cases same : info.modulePath = other
      · exact same ▸ latter.mono later
      · have isOwn : IsFileOf between rest info.id info.modulePath := by
          refine .inl ⟨info, ?_, rfl⟩
          rw [find?, isNote.types, find?_recordIn_of_resolved isResolved, if_pos rfl]
        exact (ih resolvedRest isOwn isOther same).2
    rcases isFile.of_cons isNote isResolved with still | past
    · rcases isOther.of_cons isNote isResolved with otherStill | otherPast
      · exact ih resolvedRest still otherStill differ
      · exact (replaced otherPast still).symm
    · rcases isOther.of_cons isNote isResolved with otherStill | ⟨_, _, again, foundAgain, rfl⟩
      · exact replaced past otherStill
      · obtain ⟨_, _, previous, found, rfl⟩ := past
        cases found.symm.trans foundAgain
        exact absurd rfl differ

end Collide

end Registry

end WireModules
