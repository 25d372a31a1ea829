import WireModules.Proofs.Noting

/-!
# Calls on a registry

A registry is asked to record types and to list enums, again and again. Each type is accepted, dropped
or refused. An accepted one is the record of its name from then on, until another one is accepted; a
type that is dropped or refused changes no record. Names are only ever added, and a name that has a
resolved record keeps a resolved one.
-/

set_option autoImplicit false

namespace WireModules.Registry

/-- What a registry can be asked to do, short of being cleared. -/
inductive Call where
  | record (info : TypeRecord)
  | listEnum (info : TypeRecord)

def Call.recorded? : Call → Option TypeRecord
  | .record info => some info
  | .listEnum _ => none

/-- How a call ends. Listing an enum is `done` and says no more. -/
inductive Ending where
  | accepted
  | dropped
  | refused (failure : Failure)
  | done

structure Answer where
  ending : Ending
  registry : Registry
  log : List LogRecord

/-- A registry that refuses a type is left as it was, and has written nothing. -/
def answer (registry : Registry) : Call → Answer
  | .record info =>
    match registry.record info with
    | .ok recording =>
      ⟨if recording.accepted then .accepted else .dropped, recording.registry, recording.log⟩
    | .error failure => ⟨.refused failure, registry, []⟩
  | .listEnum info => ⟨.done, registry.listEnum info, []⟩

def answerAll (registry : Registry) (calls : List Call) : Registry :=
  calls.foldl (fun current call => (current.answer call).registry) registry

def ids (registry : Registry) : List String :=
  registry.types.map TypeRecord.id

def HasResolved (registry : Registry) (id : String) : Prop :=
  ∃ info, registry.find? id = some info ∧ info.isResolved = true

/-! ## One call -/

section Step

variable {registry : Registry} {info : TypeRecord} {id : String}

/-- All that a call does to the records, and when. -/
inductive Effect (registry : Registry) : Call → Ending → Registry → Prop where
  | accepted {info : TypeRecord} {after : Registry} :
      after.types = putAmong info registry.types →
      (∀ previous, registry.find? info.id = some previous →
        previous.isResolved = true → info.isResolved = true) →
      Effect registry (.record info) .accepted after
  | dropped {info previous : TypeRecord} {after : Registry} : after.types = registry.types →
      registry.find? info.id = some previous → previous.isResolved = true →
      info.isResolved = false → Effect registry (.record info) .dropped after
  | refused {info previous : TypeRecord} {failure : Failure} : registry.strict = true →
      registry.find? info.id = some previous → previous.modulePath ≠ info.modulePath →
      Effect registry (.record info) (.refused failure) registry
  | listed {info : TypeRecord} {after : Registry} : after.types = registry.types →
      Effect registry (.listEnum info) .done after

theorem record_refused {failure : Failure} (refused : registry.record info = .error failure) :
    registry.strict = true ∧ ∃ previous, registry.find? info.id = some previous ∧
      previous.modulePath ≠ info.modulePath := by
  have inverted := recorded_record registry info
  rw [refused] at inverted
  cases inverted with
  | @refused previous _ found meeting =>
    have met := meeting_meet registry previous info
    rw [meeting] at met
    cases met with
    | refused differ strict => exact ⟨strict, previous, found, differ⟩

theorem effect_record (registry : Registry) (info : TypeRecord) :
    Effect registry (.record info) (registry.answer (.record info)).ending
      (registry.answer (.record info)).registry := by
  have inverted := recorded_record registry info
  cases recorded : registry.record info with
  | error failure =>
    simp only [answer, recorded]
    obtain ⟨strict, previous, found, differ⟩ := record_refused recorded
    exact .refused strict found differ
  | ok recording =>
    simp only [answer, recorded]
    rw [recorded] at inverted
    cases inverted with
    | new absent =>
      refine .accepted rfl fun previous found => ?_
      cases absent.symm.trans found
    | dropped found meeting resolved unresolved =>
      exact .dropped (types_of_meet meeting) found resolved unresolved
    | replaced found meeting refines =>
      refine .accepted (congrArg (putAmong info) (types_of_meet meeting)) fun previous isHeld => ?_
      cases found.symm.trans isHeld
      exact refines

theorem effect_answer (registry : Registry) (call : Call) :
    Effect registry call (registry.answer call).ending (registry.answer call).registry := by
  cases call with
  | record info => exact effect_record registry info
  | listEnum info => exact .listed (types_listEnum registry info)

variable {call : Call} {ending : Ending} {after : Registry}

theorem effect_of_ending (ends : (registry.answer call).ending = ending) :
    Effect registry call ending (registry.answer call).registry :=
  ends ▸ effect_answer registry call

theorem Effect.types_accepted (effect : Effect registry (.record info) .accepted after) :
    after.types = recordIn registry.types info := by
  cases effect with
  | accepted types refines => exact types.trans (recordIn_of_refines refines).symm

theorem Effect.ids_cases (effect : Effect registry call ending after) :
    after.ids = registry.ids ∨
      ∃ info, after.ids = (recordIn registry.types info).map TypeRecord.id := by
  cases effect with
  | accepted types refines =>
    exact .inr ⟨_, congrArg (List.map TypeRecord.id) (Effect.accepted types refines).types_accepted⟩
  | dropped types => exact .inl (congrArg (List.map TypeRecord.id) types)
  | refused => exact .inl rfl
  | listed types => exact .inl (congrArg (List.map TypeRecord.id) types)

theorem Effect.nodup_ids (effect : Effect registry call ending after)
    (distinct : registry.ids.Nodup) : after.ids.Nodup := by
  obtain same | ⟨info, added⟩ := effect.ids_cases
  · exact same ▸ distinct
  · exact added ▸ nodup_ids_recordIn info distinct

theorem Effect.ids_extend (effect : Effect registry call ending after) :
    registry.ids <+: after.ids := by
  obtain same | ⟨info, added⟩ := effect.ids_cases
  · exact same ▸ List.prefix_refl _
  · rw [added, ids_recordIn]
    split
    · exact List.prefix_refl _
    · exact List.prefix_append ..

theorem Effect.hasResolved (effect : Effect registry call ending after)
    (has : registry.HasResolved id) : after.HasResolved id := by
  obtain ⟨held, found, resolved⟩ := has
  have untouched : after.types = registry.types → after.HasResolved id := fun types =>
    ⟨held, by rw [find?, types]; exact found, resolved⟩
  cases effect with
  | @accepted info _ types refines =>
    by_cases own : info.id = id
    · subst own
      exact ⟨info, by rw [find?, types, find?_putAmong, if_pos rfl], refines held found resolved⟩
    · exact ⟨held, by rw [find?, types, find?_putAmong, if_neg own]; exact found, resolved⟩
  | dropped types => exact untouched types
  | refused => exact untouched rfl
  | listed types => exact untouched types

theorem Effect.find?_accepted (effect : Effect registry (.record info) .accepted after) :
    after.find? info.id = some info := by
  cases effect with
  | accepted types _ => rw [find?, types, find?_putAmong, if_pos rfl]

theorem Effect.of_refused {failure : Failure}
    (effect : Effect registry (.record info) (.refused failure) after) :
    registry.strict = true ∧ ∃ previous, registry.find? info.id = some previous ∧
      previous.modulePath ≠ info.modulePath := by
  generalize isCall : Call.record info = call at effect
  cases effect with
  | refused strict found differ =>
    cases isCall
    exact ⟨strict, _, found, differ⟩

theorem Effect.types_unless_accepted (effect : Effect registry call ending after)
    (other : ending ≠ .accepted) : after.types = registry.types := by
  cases effect with
  | accepted => exact absurd rfl other
  | dropped types => exact types
  | refused => rfl
  | listed types => exact types

/-- A registry that is not strict refuses nothing, and each type counts as it would among the records. -/
theorem Effect.types_of_lax (effect : Effect registry call ending after)
    (lax : registry.strict = false) :
    after.types = call.recorded?.toList.foldl recordIn registry.types := by
  cases effect with
  | accepted types refines => exact (Effect.accepted types refines).types_accepted
  | dropped types found resolved unresolved =>
    exact types.trans (recordIn_of_keeps found resolved unresolved).symm
  | refused strict => cases lax.symm.trans strict
  | listed types => exact types

theorem strict_answer (registry : Registry) (call : Call) :
    (registry.answer call).registry.strict = registry.strict := by
  cases call with
  | record info =>
    cases recorded : registry.record info with
    | error failure => simp only [answer, recorded]
    | ok recording =>
      simp only [answer, recorded]
      exact (record_ok recorded).1
  | listEnum info =>
    change (registry.listEnum info).strict = _
    rw [listEnum_eq]

end Step

/-! ## Many calls -/

section Run

variable {registry : Registry} {id : String}

/-- What every call keeps holds after all of them. -/
theorem answerAll_induction (Good : Registry → Prop) (calls : List Call) (start : Good registry)
    (keeps : ∀ {current call}, Good current → Good (answer current call).registry) :
    Good (registry.answerAll calls) := by
  induction calls generalizing registry with
  | nil => exact start
  | cons call rest ih => exact ih (keeps start)

theorem ids_prefix_answerAll (registry : Registry) (calls : List Call) :
    registry.ids <+: (registry.answerAll calls).ids := by
  refine answerAll_induction (registry.ids <+: ·.ids) calls (List.prefix_refl _) ?_
  intro current call grown
  exact grown.trans (effect_answer current call).ids_extend

theorem strict_answerAll (registry : Registry) (calls : List Call) :
    (registry.answerAll calls).strict = registry.strict :=
  answerAll_induction (·.strict = registry.strict) calls rfl fun same =>
    (strict_answer _ _).trans same

theorem types_answerAll (lax : registry.strict = false) (calls : List Call) :
    (registry.answerAll calls).types =
      (calls.filterMap Call.recorded?).foldl recordIn registry.types := by
  induction calls generalizing registry with
  | nil => rfl
  | cons call rest ih =>
    have own := (effect_answer registry call).types_of_lax lax
    have others : ((registry.answer call).registry.answerAll rest).types = _ :=
      ih ((strict_answer registry call).trans lax)
    rw [own] at others
    rw [answerAll, List.foldl_cons, ← answerAll, others]
    cases recorded : call.recorded? with
    | none => simp [recorded]
    | some info => simp [recorded]

/-- What is to be said of the records after some calls on a new registry. -/
structure KeepsRecords (strict : Bool) (calls : List Call) (registry : Registry) : Prop where
  distinct : registry.ids.Nodup
  grows : ∀ more, registry.ids <+: (registry.answerAll more).ids
  staysResolved : ∀ more id, registry.HasResolved id → (registry.answerAll more).HasResolved id
  accepted : ∀ info, (registry.answer (.record info)).ending = .accepted →
    (registry.answer (.record info)).registry.find? info.id = some info
  dropped : ∀ info, (registry.answer (.record info)).ending = .dropped →
    registry.HasResolved info.id ∧ info.isResolved = false
  refused : ∀ info failure, (registry.answer (.record info)).ending = .refused failure →
    strict = true ∧ ∃ previous, registry.find? info.id = some previous ∧
      previous.modulePath ≠ info.modulePath
  unaccepted : ∀ call, (registry.answer call).ending ≠ .accepted →
    (registry.answer call).registry.types = registry.types
  governed : strict = false →
    ∀ id, registry.find? id = governing (calls.filterMap Call.recorded?) id

/-- However a new registry is used, names are only added, and each once; a resolved record gives way to
resolved ones only; an accepted type is the record of its name, and any other call leaves the records as
they were. Hence a name of a registry that is not strict has the last resolved type that was given for
it, or else the last one. -/
theorem keepsRecords_answerAll (strict : Bool) (calls : List Call) :
    KeepsRecords strict calls (answerAll { strict } calls) where
  distinct :=
    answerAll_induction (·.ids.Nodup) calls List.nodup_nil fun distinct =>
      (effect_answer _ _).nodup_ids distinct
  grows more := ids_prefix_answerAll _ more
  staysResolved more id has :=
    answerAll_induction (·.HasResolved id) more has fun has => (effect_answer _ _).hasResolved has
  accepted info isAccepted := (effect_of_ending isAccepted).find?_accepted
  dropped info isDropped := by
    cases effect_of_ending isDropped with
    | dropped _ found resolved unresolved => exact ⟨⟨_, found, resolved⟩, unresolved⟩
  refused info failure isRefused := by
    obtain ⟨isStrict, previous⟩ := (effect_of_ending isRefused).of_refused
    exact ⟨(strict_answerAll { strict } calls).symm.trans isStrict, previous⟩
  unaccepted call other := (effect_answer _ call).types_unless_accepted other
  governed lax id := by
    rw [find?, types_answerAll lax]
    exact find?_foldl_recordIn _ id

end Run

end WireModules.Registry
