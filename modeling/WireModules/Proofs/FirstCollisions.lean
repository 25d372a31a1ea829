import Mathlib.Data.Nat.Find
import WireModules.Proofs.CollisionWarnings
import WireModules.Proofs.RegistryCalls

/-!
# The first collision of two files

A registry that is not strict warns of two files that have types of one name at the first call at which
a type of the one meets a record of the other, whether the type is taken then or dropped, and never
again. A warning belongs to the call that writes it: its text need not tell the files apart.
-/

set_option autoImplicit false

namespace WireModules

namespace Collision

variable {first second third : Collision}

theorem same_iff : first.same second = true ↔ first.id = second.id ∧
    (first.first = second.first ∧ first.second = second.second ∨
      first.first = second.second ∧ first.second = second.first) := by
  simp [same]

theorem same_comm (first second : Collision) : first.same second = second.same first := by
  rw [Bool.eq_iff_iff, same_iff, same_iff]
  grind

theorem same_trans (alike : first.same second = true) (next : second.same third = true) :
    first.same third = true := by
  rw [same_iff] at *
  grind

theorem any_same_of_same {known : List Collision} (alike : first.same second = true) :
    known.any first.same = known.any second.same := by
  rw [Bool.eq_iff_iff, List.any_eq_true, List.any_eq_true]
  constructor
  · intro ⟨other, member, own⟩
    exact ⟨other, member, same_trans (same_comm first second ▸ alike) own⟩
  · intro ⟨other, member, own⟩
    exact ⟨other, member, same_trans alike own⟩

theorem any_report (known : List Collision) (pair collision : Collision) :
    (report known collision).any pair.same = (known.any pair.same || pair.same collision) := by
  rw [report]
  split
  · next isKnown =>
    cases alike : pair.same collision with
    | false => simp
    | true => rw [any_same_of_same alike, isKnown, Bool.true_or]
  · simp

end Collision

namespace Registry

open Collision

/-! ## One call -/

/-- The collision of the type that a call records with the record that its name has. -/
def collision? (registry : Registry) : Call → Option Collision
  | .listEnum _ => none
  | .record info =>
    match registry.find? info.id with
    | none => none
    | some previous =>
      if previous.modulePath = info.modulePath then none else some (collisionOf previous info)

/-- The collisions of which a call warns. -/
def warnings (registry : Registry) (call : Call) : List LogRecord :=
  (registry.answer call).log.filter LogRecord.isCollisionWarning

section Step

variable {registry : Registry} {call : Call}

theorem clashes_eq (registry : Registry) (info : TypeRecord) :
    clashes (registry.find? info.id) info = (registry.collision? (.record info)).toList := by
  rw [collision?]
  cases registry.find? info.id with
  | none => rfl
  | some previous => by_cases same : previous.modulePath = info.modulePath <;> simp [clashes, same]

theorem reports_of_answer (lax : registry.strict = false) (call : Call) :
    (registry.answer call).registry.collisions =
        (registry.collision? call).toList.foldl report registry.collisions ∧
      Accounts registry (registry.answer call).registry (registry.answer call).log := by
  cases call with
  | listEnum info =>
    have same := collisions_listEnum registry info
    exact ⟨same, .of_same same rfl⟩
  | record info =>
    cases recorded : registry.record info with
    | error failure => cases lax.symm.trans (record_refused recorded).1
    | ok recording =>
      simp only [answer, recorded]
      exact clashes_eq registry info ▸ reports_of_record recorded

/-- A call warns of the collision that it comes to, unless the two files are known. -/
theorem warnings_eq (lax : registry.strict = false) (call : Call) :
    registry.warnings call = ((registry.collision? call).toList.filter fun collision =>
      !registry.collisions.any collision.same).map Collision.warning := by
  obtain ⟨reported, fresh, added, warned⟩ := reports_of_answer lax call
  rw [warnings, warned]
  congr 1
  refine List.append_cancel_left (added.symm.trans (reported.trans ?_))
  cases registry.collision? call with
  | none => simp
  | some collision =>
    cases known : registry.collisions.any collision.same <;> simp [report, known]

theorem any_collisions_answer (lax : registry.strict = false) (call : Call) (pair : Collision) :
    (registry.answer call).registry.collisions.any pair.same =
      (registry.collisions.any pair.same || (registry.collision? call).any pair.same) := by
  rw [(reports_of_answer lax call).1]
  cases registry.collision? call with
  | none => simp
  | some collision => exact any_report _ pair collision

end Step

/-! ## The calls on a new registry -/

/-- What a registry that is not strict has come to at a call. -/
def atCall (calls : List Call) (index : Nat) : Registry :=
  answerAll { strict := false } (calls.take index)

def collisionAt? (calls : List Call) (index : Nat) : Option Collision :=
  calls[index]?.bind (atCall calls index).collision?

def warningsAt (calls : List Call) (index : Nat) : List LogRecord :=
  calls[index]?.toList.flatMap (atCall calls index).warnings

/-- At a call a type and the record of its name are of the two files. -/
def meetsAt (calls : List Call) (pair : Collision) (index : Nat) : Bool :=
  (collisionAt? calls index).any pair.same

/-- The warnings about two files, each with the call that gave it. -/
def warningsOf (calls : List Call) (pair : Collision) : List (Nat × LogRecord) :=
  (List.range calls.length).flatMap fun index =>
    if meetsAt calls pair index then (warningsAt calls index).map (index, ·) else []

structure IsFirst (calls : List Call) (pair : Collision) (index : Nat) (collision : Collision) :
    Prop where
  meets : collisionAt? calls index = some collision
  same : pair.same collision = true
  earliest : ∀ earlier < index, meetsAt calls pair earlier = false

section Run

variable {calls : List Call} {pair collision : Collision} {index : Nat}

theorem lax_atCall (calls : List Call) (index : Nat) : (atCall calls index).strict = false :=
  strict_answerAll _ _

theorem atCall_succ {call : Call} (given : calls[index]? = some call) :
    atCall calls (index + 1) = ((atCall calls index).answer call).registry := by
  simp [atCall, answerAll, List.take_add_one, given]

/-- The pairs of files that are known at a call are those that met at a call before it. -/
theorem known_iff (calls : List Call) (pair : Collision) (index : Nat) :
    (atCall calls index).collisions.any pair.same = true ↔
      ∃ earlier < index, meetsAt calls pair earlier = true := by
  induction index with
  | zero => simp [atCall, answerAll]
  | succ index ih =>
    cases given : calls[index]? with
    | none =>
      have ended : atCall calls (index + 1) = atCall calls index := by
        simp [atCall, List.take_add_one, given]
      have silent : meetsAt calls pair index = false := by
        simp [meetsAt, collisionAt?, given]
      rw [ended, ih]
      grind
    | some call =>
      have own : meetsAt calls pair index = ((atCall calls index).collision? call).any pair.same := by
        rw [meetsAt, collisionAt?, given, Option.bind_some]
      rw [atCall_succ given, any_collisions_answer (lax_atCall calls index), Bool.or_eq_true, ih, ← own]
      grind

theorem warningsAt_eq (calls : List Call) (index : Nat) :
    warningsAt calls index = ((collisionAt? calls index).toList.filter fun collision =>
      !(atCall calls index).collisions.any collision.same).map Collision.warning := by
  rw [warningsAt, collisionAt?]
  cases calls[index]? with
  | none => rfl
  | some call => simpa using warnings_eq (lax_atCall calls index) call

theorem warningsAt_of_isFirst (isFirst : IsFirst calls pair index collision) :
    warningsAt calls index = [collision.warning] := by
  have unknown : (atCall calls index).collisions.any collision.same = false := by
    rw [← any_same_of_same isFirst.same, Bool.eq_false_iff, Ne, known_iff]
    rintro ⟨earlier, before, met⟩
    cases (isFirst.earliest earlier before).symm.trans met
  simp [warningsAt_eq, isFirst.meets, unknown]

theorem meetsAt_iff : meetsAt calls pair index = true ↔
    ∃ collision, collisionAt? calls index = some collision ∧ pair.same collision = true := by
  rw [meetsAt]
  cases collisionAt? calls index <;> simp

theorem warningsAt_of_known {earlier : Nat} (before : earlier < index)
    (met : meetsAt calls pair earlier = true) (again : meetsAt calls pair index = true) :
    warningsAt calls index = [] := by
  obtain ⟨collision, meets, same⟩ := meetsAt_iff.mp again
  have known : (atCall calls index).collisions.any collision.same = true := by
    rw [← any_same_of_same same]
    exact (known_iff calls pair index).mpr ⟨earlier, before, met⟩
  simp [warningsAt_eq, meets, known]

theorem exists_isFirst (met : meetsAt calls pair index = true) :
    ∃ first collision, IsFirst calls pair first collision := by
  have meets : ∃ index, meetsAt calls pair index = true := ⟨index, met⟩
  obtain ⟨collision, isThere, same⟩ := meetsAt_iff.mp (Nat.find_spec meets)
  refine ⟨Nat.find meets, collision, isThere, same, fun earlier before => ?_⟩
  exact Bool.eq_false_iff.mpr (Nat.find_min meets before)

/-- All that is collected comes from one place. -/
theorem flatMap_range_eq {β : Type} {collect : Nat → List β} {length : Nat} (inside : index < length)
    (others : ∀ other ≠ index, collect other = []) :
    (List.range length).flatMap collect = collect index := by
  induction length with
  | zero => omega
  | succ length ih =>
    rw [List.range_succ, List.flatMap_append, List.flatMap_singleton]
    by_cases last : index = length
    · subst last
      have none : (List.range index).flatMap collect = [] := by
        rw [List.flatMap_eq_nil_iff]
        intro other earlier
        have before := List.mem_range.mp earlier
        exact others other (by omega)
      rw [none, List.nil_append]
    · rw [ih (by omega), others length (Ne.symm last), List.append_nil]

theorem warningsOf_of_isFirst (isFirst : IsFirst calls pair index collision) :
    warningsOf calls pair = [(index, collision.warning)] := by
  have met : meetsAt calls pair index = true := meetsAt_iff.mpr ⟨_, isFirst.meets, isFirst.same⟩
  have inside : index < calls.length := by
    by_contra outside
    have meets := isFirst.meets
    simp [collisionAt?, List.getElem?_eq_none (Nat.le_of_not_lt outside)] at meets
  rw [warningsOf, flatMap_range_eq inside, if_pos met, warningsAt_of_isFirst isFirst]
  · rfl
  intro other apart
  split
  · next again =>
    have later : index < other := by
      by_contra notLater
      cases (isFirst.earliest other (by omega)).symm.trans again
    rw [warningsAt_of_known later met again, List.map_nil]
  · rfl

/-- What is to be said of the warnings about two files under a name. -/
structure WarnsOnce (calls : List Call) (pair : Collision) : Prop where
  met : (∃ index, meetsAt calls pair index = true) →
    ∃ index collision, IsFirst calls pair index collision ∧
      warningsOf calls pair = [(index, collision.warning)]
  unmet : (∀ index, meetsAt calls pair index = false) → warningsOf calls pair = []
  /-- Any warning is about two files that meet at its call for the first time. -/
  accounted : ∀ index, ∀ warning ∈ warningsAt calls index,
    ∃ collision, IsFirst calls collision index collision ∧ warning = collision.warning

/-- Whatever a new registry that is not strict is asked to record, it warns of two files under a name
exactly once if the type of a call and the record of its name are ever of these two files, at the first
such call, and not at all otherwise. -/
theorem warnsOnce (calls : List Call) (pair : Collision) : WarnsOnce calls pair where
  met := by
    rintro ⟨index, met⟩
    obtain ⟨first, collision, isFirst⟩ := exists_isFirst met
    exact ⟨first, collision, isFirst, warningsOf_of_isFirst isFirst⟩
  unmet never := by
    simp [warningsOf, never]
  accounted index warning member := by
    rw [warningsAt_eq] at member
    obtain ⟨collision, fresh, rfl⟩ := List.mem_map.mp member
    obtain ⟨meets, unknown⟩ := List.mem_filter.mp fresh
    refine ⟨collision, ⟨by simpa using meets, same_self collision, fun earlier before => ?_⟩, rfl⟩
    refine Bool.eq_false_iff.mpr fun met => ?_
    have known := (known_iff calls collision index).mpr ⟨earlier, before, met⟩
    simp [known] at unknown

end Run

end Registry

end WireModules
