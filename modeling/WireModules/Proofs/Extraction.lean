import Mathlib.Data.List.Forall2
import WireModules.Proofs.ParsedModule
import WireModules.Registry.Extract

/-!
# The records of a unit

A unit that users see gives one record for every type it declares, in order and under the types'
qualified names.
-/

set_option autoImplicit false

namespace WireModules

theorem name_of_qualify_eq {module first second : String}
    (same : qualify module first = qualify module second) : first = second :=
  String.append_right_inj _ |>.mp same

/-- A record says of a declared type what the unit says, before resolution or after it. -/
structure TypeRecord.Describes (info : TypeRecord) (unit : ProgramUnit) (decl : TypeDecl)
    (resolved : Bool) : Prop where
  id : info.id = qualify unit.moduleId decl.name
  phase : info.isResolved = resolved
  definition : decl.definitionFor resolved = .ok info.type
  linkage : info.linkage = decl.linkage
  location : info.location = .ofPosition decl.position unit.file
  modulePath : info.modulePath = unit.path

namespace ProgramUnit

/-- The qualified names of the types that a unit declares. -/
def typeIds (unit : ProgramUnit) : List String :=
  unit.module.declaredTypes.map fun decl => qualify unit.moduleId decl.name

/-- The qualified names of the types that users see in some units, in order of declaration. -/
def visibleIds (units : List ProgramUnit) : List String :=
  (units.filter isUserVisible).flatMap typeIds

/-- The records of a unit, as far as users see it. -/
def shownRecords (unit : ProgramUnit) (resolved : Bool) : Except ExtractError (List TypeRecord) :=
  if unit.isUserVisible then unit.records resolved else .ok []

variable {unit : ProgramUnit} {decl : TypeDecl} {info : TypeRecord} {resolved : Bool}

theorem describes_of_record (recorded : decl.record unit resolved = .ok info) :
    info.Describes unit decl resolved := by
  rw [TypeDecl.record] at recorded
  split at recorded
  · cases recorded
  · next definition found =>
    split at recorded
    · next named =>
      cases recorded
      exact ⟨named, rfl, found, rfl, rfl, rfl⟩
    · cases recorded

/-- Records say of some declared types what the unit says, one after the other. -/
abbrev Described (unit : ProgramUnit) (resolved : Bool) :
    List TypeDecl → List TypeRecord → Prop :=
  List.Forall₂ fun decl info => info.Describes unit decl resolved

theorem described_of_recordsOf {decls : List TypeDecl} {infos : List TypeRecord}
    (recorded : unit.recordsOf resolved decls = .ok infos) : Described unit resolved decls infos := by
  induction decls generalizing infos with
  | nil =>
    cases recorded
    exact .nil
  | cons decl rest ih =>
    obtain ⟨info, first, continued⟩ := exists_of_bind_eq_ok recorded
    obtain ⟨others, later, same⟩ := exists_of_bind_eq_ok continued
    cases same
    exact .cons (describes_of_record first) (ih later)

theorem described_of_shownRecords {infos : List TypeRecord} (visible : unit.isUserVisible = true)
    (shown : unit.shownRecords resolved = .ok infos) :
    Described unit resolved unit.module.declaredTypes infos := by
  rw [shownRecords, if_pos visible, records] at shown
  simp only [isUserVisible, Bool.and_eq_true, Bool.not_eq_true'] at visible
  rw [if_neg (by simp [visible.1.2, visible.2])] at shown
  exact described_of_recordsOf shown

theorem ids_of_described {decls : List TypeDecl} {infos : List TypeRecord}
    (described : Described unit resolved decls infos) :
    infos.map TypeRecord.id = decls.map fun decl => qualify unit.moduleId decl.name := by
  induction described with
  | nil => rfl
  | cons first _ ih => rw [List.map_cons, List.map_cons, ih, first.id]

theorem phase_of_described {decls : List TypeDecl} {infos : List TypeRecord}
    (described : Described unit resolved decls infos) :
    ∀ info ∈ infos, info.isResolved = resolved := by
  induction described with
  | nil => simp
  | cons first _ ih => exact List.forall_mem_cons.mpr ⟨first.phase, ih⟩

theorem exists_of_described {decls : List TypeDecl} {infos : List TypeRecord}
    (described : Described unit resolved decls infos) (member : decl ∈ decls) :
    ∃ info ∈ infos, info.Describes unit decl resolved := by
  induction described with
  | nil => cases member
  | cons first _ ih =>
    rcases List.mem_cons.mp member with rfl | later
    · exact ⟨_, .head _, first⟩
    · obtain ⟨info, inside, describes⟩ := ih later
      exact ⟨info, .tail _ inside, describes⟩

/-- The record of a declared type, and what comes after it. -/
theorem exists_split_of_described {decls : List TypeDecl} {infos : List TypeRecord}
    (described : Described unit resolved decls infos) (member : decl ∈ decls)
    (distinct : (decls.map TypeDecl.name).Nodup) :
    ∃ before info after, infos = before ++ info :: after ∧
      info.Describes unit decl resolved ∧ info.id ∉ after.map TypeRecord.id := by
  induction described with
  | nil => cases member
  | @cons head info rest others first described ih =>
    rw [List.map_cons, List.nodup_cons] at distinct
    rcases List.mem_cons.mp member with rfl | later
    · refine ⟨[], info, others, rfl, first, fun repeated => distinct.1 ?_⟩
      rw [ids_of_described described, first.id] at repeated
      obtain ⟨other, inside, same⟩ := List.mem_map.mp repeated
      exact List.mem_map.mpr ⟨other, inside, name_of_qualify_eq same⟩
    · obtain ⟨before, own, after, rfl, describes, fresh⟩ := ih later distinct.2
      exact ⟨info :: before, own, after, rfl, describes, fresh⟩

theorem ids_of_shownRecords {infos : List TypeRecord}
    (shown : unit.shownRecords resolved = .ok infos) :
    infos.map TypeRecord.id = visibleIds [unit] := by
  by_cases visible : unit.isUserVisible = true
  · rw [visibleIds, List.filter_cons_of_pos visible, List.filter_nil, List.flatMap_singleton]
    exact ids_of_described (described_of_shownRecords visible shown)
  · rw [shownRecords, if_neg visible] at shown
    cases shown
    rw [visibleIds, List.filter_cons_of_neg visible]
    rfl

theorem phase_of_shownRecords {infos : List TypeRecord}
    (shown : unit.shownRecords resolved = .ok infos) :
    ∀ info ∈ infos, info.isResolved = resolved := by
  by_cases visible : unit.isUserVisible = true
  · exact phase_of_described (described_of_shownRecords visible shown)
  · rw [shownRecords, if_neg visible] at shown
    cases shown
    simp

end ProgramUnit

end WireModules
