import Mathlib.Data.List.Induction
import Mathlib.Data.List.Nodup
import WireModules.Proofs.Positions
import WireModules.Proofs.ReadingOutcome

/-!
# Duplicates in a module

A module is made of a text that the grammar accepts exactly if its type and constant names are distinct,
and so are the fields of each type and the labels of each enum. Else the first duplicate is reported,
where those inside a declaration come before the name of the declaration. Each of these names is found
to be a duplicate by what stands before it, so that one lemma about scans from left to right serves for
labels, fields and items.
-/

set_option autoImplicit false

namespace WireModules

/-! ## Scans -/

/-- A scan goes over items in order, up to the first with which something is wrong; what is wrong with
an item is told by the items before it. -/
structure Scans {α ε : Type} (scan : List α → Option ε) (wrong? : List α → α → Option ε) : Prop where
  nil : scan [] = none
  snoc : ∀ front item, scan (front ++ [item]) = (scan front).or (wrong? front item)

/-- Something is wrong with an item whose name an earlier one has. -/
def repeated? {α ε : Type} (name : α → String) (defect : α → ε) (front : List α) (item : α) :
    Option ε :=
  if name item ∈ front.map name then some (defect item) else none

namespace Scans

variable {α ε : Type} {scan : List α → Option ε} {wrong? : List α → α → Option ε} {items : List α}
  {error : ε}

theorem append_of_eq_some (scans : Scans scan wrong?) {front : List α}
    (ended : scan front = some error) (back : List α) : scan (front ++ back) = some error := by
  induction back using List.reverseRecOn with
  | nil => rwa [List.append_nil]
  | append_singleton back item ih => rw [← List.append_assoc, scans.snoc, ih, Option.some_or]

theorem eq_some_iff (scans : Scans scan wrong?) :
    scan items = some error ↔ ∃ front item back, items = front ++ item :: back ∧
      scan front = none ∧ wrong? front item = some error := by
  constructor
  · intro ended
    induction items using List.reverseRecOn with
    | nil => cases scans.nil.symm.trans ended
    | append_singleton front item ih =>
      rw [scans.snoc] at ended
      rcases Option.or_eq_some_iff.mp ended with earlier | ⟨passed, own⟩
      · obtain ⟨before, first, back, rfl, passed, wrong⟩ := ih earlier
        exact ⟨before, first, back ++ [item], by simp, passed, wrong⟩
      · exact ⟨front, item, [], rfl, passed, own⟩
  · intro split
    obtain ⟨front, item, back, rfl, passed, wrong⟩ := split
    have here : scan (front ++ [item]) = some error := by
      rw [scans.snoc, passed, wrong, Option.none_or]
    have split : front ++ item :: back = (front ++ [item]) ++ back := by simp
    rw [split]
    exact scans.append_of_eq_some here back

theorem snoc_eq_none_iff (scans : Scans scan wrong?) {front : List α} {item : α} :
    scan (front ++ [item]) = none ↔ scan front = none ∧ wrong? front item = none := by
  rw [scans.snoc, Option.or_eq_none_iff]

section Names

variable {name : α → String} {defect : α → ε}

/-- Where nothing is wrong but names that earlier items have, a scan finds nothing exactly if the names
are distinct. -/
theorem eq_none_iff_nodup (scans : Scans scan wrong?)
    (named : ∀ item ∈ items, ∀ front, wrong? front item = repeated? name defect front item) :
    scan items = none ↔ (items.map name).Nodup := by
  induction items using List.reverseRecOn with
  | nil => simp [scans.nil]
  | append_singleton front item ih =>
    rw [List.forall_mem_append, List.forall_mem_singleton] at named
    rw [scans.snoc_eq_none_iff, ih named.1, named.2, repeated?, List.map_append,
      List.map_singleton, List.nodup_middle, List.append_nil, List.nodup_cons]
    simp [and_comm]

theorem eq_some_iff_repeated (scans : Scans scan wrong?)
    (named : ∀ item ∈ items, ∀ front, wrong? front item = repeated? name defect front item) :
    scan items = some error ↔ ∃ front item back, items = front ++ item :: back ∧
      (front.map name).Nodup ∧ name item ∈ front.map name ∧ error = defect item := by
  rw [scans.eq_some_iff]
  constructor
  · intro split
    obtain ⟨front, item, back, rfl, passed, wrong⟩ := split
    have earlier := fun other member => named other (List.mem_append_left _ member)
    rw [named item (by simp), repeated?] at wrong
    split at wrong
    · next again =>
      cases wrong
      exact ⟨front, item, back, rfl, (scans.eq_none_iff_nodup earlier).mp passed, again, rfl⟩
    · cases wrong
  · intro split
    obtain ⟨front, item, back, rfl, distinct, again, rfl⟩ := split
    have earlier := fun other member => named other (List.mem_append_left _ member)
    refine ⟨front, item, back, rfl, (scans.eq_none_iff_nodup earlier).mpr distinct, ?_⟩
    rw [named item (by simp), repeated?, if_pos again]

end Names

end Scans

/-! ## Findings -/

/-- Checks find nothing exactly in what is fine, and else what is said to be first. -/
structure Finds (found : Option ModuleError) (fine : Prop) (first : ModuleDefect → Prop) : Prop where
  passes : found = none ↔ fine
  fails : ∀ error, found = some error ↔ ∃ defect, error = .defective defect ∧ first defect

namespace Finds

variable {found : Option ModuleError} {fine : Prop} {first : ModuleDefect → Prop}

theorem nothing : Finds none True fun _ => False where
  passes := by simp
  fails := by simp

theorem congr (finds : Finds found fine first) {sound : Prop} {foremost : ModuleDefect → Prop}
    (same : fine ↔ sound) (sameFirst : ∀ defect, first defect ↔ foremost defect) :
    Finds found sound foremost where
  passes := finds.passes.trans same
  fails error := by simp only [finds.fails, sameFirst]

/-- One more check comes after those that find nothing. -/
theorem andThen (finds : Finds found fine first) {wrong : Prop} [Decidable wrong]
    (defect : ModuleDefect) :
    Finds (found.or (if wrong then some (.defective defect) else none)) (fine ∧ ¬wrong)
      fun other => first other ∨ fine ∧ wrong ∧ other = defect where
  passes := by simp [Option.or_eq_none_iff, finds.passes]
  fails error := by
    rw [Option.or_eq_some_iff, finds.passes, finds.fails]
    constructor
    · intro failed
      rcases failed with ⟨other, same, earlier⟩ | ⟨passed, own⟩
      · exact ⟨other, same, .inl earlier⟩
      · split at own
        · next isWrong =>
          cases own
          exact ⟨defect, rfl, .inr ⟨passed, isWrong, rfl⟩⟩
        · cases own
    · intro failed
      obtain ⟨other, rfl, earlier | ⟨passed, isWrong, rfl⟩⟩ := failed
      · exact .inl ⟨other, rfl, earlier⟩
      · exact .inr ⟨passed, if_pos isWrong⟩

end Finds

theorem Scans.finds {α : Type} {scan : List α → Option ModuleError}
    {wrong? : List α → α → Option ModuleError} {items : List α} {name : α → String}
    {defect : α → ModuleDefect} (scans : Scans scan wrong?)
    (named : ∀ item ∈ items, ∀ front,
      wrong? front item = repeated? name (fun item => .defective (defect item)) front item) :
    Finds (scan items) (items.map name).Nodup fun found =>
      ∃ front item back, items = front ++ item :: back ∧ (front.map name).Nodup ∧
        name item ∈ front.map name ∧ found = defect item where
  passes := scans.eq_none_iff_nodup named
  fails error := by
    rw [scans.eq_some_iff_repeated named]
    constructor
    · intro split
      obtain ⟨front, item, back, split, distinct, again, same⟩ := split
      exact ⟨_, same, front, item, back, split, distinct, again, rfl⟩
    · intro split
      obtain ⟨_, same, front, item, back, split, distinct, again, rfl⟩ := split
      exact ⟨front, item, back, split, distinct, again, same⟩

/-! ## Distinct names -/

/-- Labels have different names, and fields have. -/
structure WrittenBody.Distinct (body : WrittenBody) : Prop where
  labels : (body.writtenLabels.map WrittenLabel.name).Nodup
  fields : (body.writtenFields.map WrittenField.name).Nodup

namespace WrittenItem

/-- The name that no other item of the module may have; an import claims none. -/
def declaredName? : WrittenItem → Option String
  | .imported _ _ => none
  | .constant _ name _ => some name
  | .type _ name _ => some name

def DistinctInside : WrittenItem → Prop
  | .type _ _ body => body.Distinct
  | _ => True

def literals : WrittenItem → List String
  | .imported _ _ => []
  | .constant _ _ literal => [literal]
  | .type _ _ body => body.writtenLabels.filterMap WrittenLabel.literal

/-- The names of types and constants. -/
def declaredNames (items : List WrittenItem) : List String :=
  items.filterMap declaredName?

/-- Types and constants have different names, and each of them is distinct inside. -/
structure Distinct (items : List WrittenItem) : Prop where
  names : (declaredNames items).Nodup
  inside : ∀ item ∈ items, item.DistinctInside

end WrittenItem

/-- The first duplicate inside a declared type. -/
inductive WrittenBody.FirstDuplicate (type : String) : WrittenBody → ModuleDefect → Prop where
  | label {front back : List WrittenLabel} {label : WrittenLabel} :
      (front.map WrittenLabel.name).Nodup → label.name ∈ front.map WrittenLabel.name →
      FirstDuplicate type (.enum (front ++ label :: back))
        (.duplicateLabel label.name label.position)
  | field {form : FieldsForm} {front back : List WrittenField} {field : WrittenField} :
      (front.map WrittenField.name).Nodup → field.name ∈ front.map WrittenField.name →
      FirstDuplicate type (.fields form (front ++ field :: back))
        (.duplicateField field.name type field.position)

/-- The first duplicate in an item, behind earlier items: inside it, or its own name. -/
inductive WrittenItem.FirstDuplicate (module : String) (earlier : List WrittenItem) :
    WrittenItem → ModuleDefect → Prop where
  | inside {heading : Heading} {name : String} {body : WrittenBody} {defect : ModuleDefect} :
      body.FirstDuplicate name defect →
      FirstDuplicate module earlier (.type heading name body) defect
  | ownName {item : WrittenItem} {name : String} : item.DistinctInside →
      item.declaredName? = some name → name ∈ declaredNames earlier →
      FirstDuplicate module earlier item (.duplicateDecl name module item.position)

namespace WrittenModule

/-- The first duplicate in a module. -/
def FirstDuplicate (written : WrittenModule) (defect : ModuleDefect) : Prop :=
  ∃ earlier item later, written.items = earlier ++ item :: later ∧
    WrittenItem.Distinct earlier ∧ item.FirstDuplicate written.name earlier defect

/-- The integer literals of a module. -/
def literals (written : WrittenModule) : List String :=
  written.items.flatMap WrittenItem.literals

/-! ## What the checks find -/

def Short (literal : String) : Prop :=
  Text.Decimal.digitCount literal.toList ≤ Text.Decimal.digitLimit

instance (literal : String) : Decidable (Short literal) :=
  inferInstanceAs (Decidable (_ ≤ _))

variable {module type : String}

theorem readLiteral_of_short {literal : String} (short : Short literal) :
    readLiteral literal = .ok (Text.Decimal.value literal.toList) := by
  have read : Text.Decimal.read literal = .ok (Text.Decimal.value literal.toList) := if_pos short
  rw [readLiteral, read]
  rfl

theorem error?_readable {literal : String} (short : Short literal) :
    (Check.readable literal).error? = none := by
  rw [Check.error?, readLiteral_of_short short]
  rfl

theorem error?_fresh {taken : List String} {name : String} {defect : ModuleDefect} :
    (Check.fresh taken name defect).error? =
      if name ∈ taken then some (.defective defect) else none := by
  simp [Check.error?]

def duplicateLabel (label : WrittenLabel) : ModuleError :=
  .defective (.duplicateLabel label.name label.position)

def duplicateField (type : String) (field : WrittenField) : ModuleError :=
  .defective (.duplicateField field.name type field.position)

theorem labelChecks_append (labels : List WrittenLabel) (label : WrittenLabel)
    (taken : List String) :
    labelChecks taken (labels ++ [label]) =
      labelChecks taken labels ++ (label.literal.toList.map .readable ++
        [.fresh ((labels.map WrittenLabel.name).reverse ++ taken) label.name
          (.duplicateLabel label.name label.position)]) := by
  induction labels generalizing taken with
  | nil => rfl
  | cons first rest ih => simp [labelChecks, ih]

theorem fieldChecks_append (fields : List WrittenField) (field : WrittenField)
    (taken : List String) :
    fieldChecks type taken (fields ++ [field]) =
      fieldChecks type taken fields ++
        [.fresh ((fields.map WrittenField.name).reverse ++ taken) field.name
          (.duplicateField field.name type field.position)] := by
  induction fields generalizing taken with
  | nil => rfl
  | cons first rest ih => simp [fieldChecks, ih]

theorem scans_labels : Scans (fun labels => firstFailing? (labelChecks [] labels))
    fun front label =>
      (firstFailing? (label.literal.toList.map .readable)).or
        (repeated? WrittenLabel.name duplicateLabel front label) where
  nil := rfl
  snoc front label := by
    rw [labelChecks_append, firstFailing?_append, firstFailing?_append, firstFailing?_cons,
      error?_fresh]
    simp [firstFailing?, repeated?, duplicateLabel]

theorem scans_fields : Scans (fun fields => firstFailing? (fieldChecks type [] fields))
    (repeated? WrittenField.name (duplicateField type)) where
  nil := rfl
  snoc front field := by
    rw [fieldChecks_append, firstFailing?_append, firstFailing?_cons, error?_fresh]
    simp [firstFailing?, repeated?, duplicateField]

/-- With a label whose literal can be read nothing can be wrong but its name. -/
theorem named_of_short {labels : List WrittenLabel}
    (short : ∀ literal ∈ labels.filterMap WrittenLabel.literal, Short literal) :
    ∀ label ∈ labels, ∀ front,
      (firstFailing? (label.literal.toList.map .readable)).or
          (repeated? WrittenLabel.name duplicateLabel front label) =
        repeated? WrittenLabel.name duplicateLabel front label := by
  intro label member front
  cases literal : label.literal with
  | none => rfl
  | some digits =>
    have readable := error?_readable (short digits (List.mem_filterMap.mpr ⟨label, member, literal⟩))
    rw [Option.toList_some, List.map_singleton, firstFailing?_cons, readable]
    rfl

theorem finds_bodyChecks (type : String) {body : WrittenBody}
    (short : ∀ literal ∈ body.writtenLabels.filterMap WrittenLabel.literal, Short literal) :
    Finds (firstFailing? (bodyChecks type body)) body.Distinct (body.FirstDuplicate type) := by
  cases body with
  | enum labels =>
    have finds := scans_labels.finds (named_of_short short)
    refine finds.congr ⟨fun distinct => ⟨distinct, .nil⟩, fun distinct => distinct.labels⟩ ?_
    intro defect
    constructor
    · intro split
      obtain ⟨front, label, back, rfl, distinct, again, rfl⟩ := split
      exact .label distinct again
    · intro first
      cases first with
      | label distinct again => exact ⟨_, _, _, rfl, distinct, again, rfl⟩
  | fields form fields =>
    have named : ∀ field ∈ fields, ∀ front, repeated? WrittenField.name (duplicateField type) front field =
        repeated? WrittenField.name (fun field => .defective (.duplicateField field.name type field.position))
          front field := fun _ _ _ => rfl
    have finds := scans_fields.finds named
    refine finds.congr ⟨fun distinct => ⟨.nil, distinct⟩, fun distinct => distinct.fields⟩ ?_
    intro defect
    constructor
    · intro split
      obtain ⟨front, field, back, rfl, distinct, again, rfl⟩ := split
      exact .field distinct again
    · intro first
      cases first with
      | field distinct again => exact ⟨_, _, _, rfl, distinct, again, rfl⟩
  | «alias» target =>
    refine Finds.nothing.congr ⟨fun _ => ⟨.nil, .nil⟩, fun _ => trivial⟩ fun defect => ⟨nofun, ?_⟩
    intro first
    cases first

/-- What is checked of an item when some names are taken. -/
def ownChecks (module : String) (taken : List String) : WrittenItem → List Check
  | .imported _ _ => []
  | .constant heading name literal =>
    [.readable literal, .fresh taken name (.duplicateDecl name module heading.position)]
  | .type heading name body =>
    bodyChecks name body ++ [.fresh taken name (.duplicateDecl name module heading.position)]

theorem itemChecks_append (items : List WrittenItem) (item : WrittenItem) (taken : List String) :
    itemChecks module taken (items ++ [item]) =
      itemChecks module taken items ++
        ownChecks module ((WrittenItem.declaredNames items).reverse ++ taken) item := by
  induction items generalizing taken with
  | nil => cases item <;> rfl
  | cons first rest ih =>
    cases first with
    | imported position name => exact ih taken
    | constant | type =>
      simp [itemChecks, ih, WrittenItem.declaredNames, WrittenItem.declaredName?]

theorem scans_items : Scans (fun items => firstFailing? (itemChecks module [] items))
    fun front item => firstFailing? (ownChecks module (WrittenItem.declaredNames front).reverse item) where
  nil := rfl
  snoc front item := by rw [itemChecks_append, firstFailing?_append, List.append_nil]

theorem finds_ownChecks {item : WrittenItem} (earlier : List WrittenItem)
    (short : ∀ literal ∈ item.literals, Short literal) :
    Finds (firstFailing? (ownChecks module (WrittenItem.declaredNames earlier).reverse item))
      (item.DistinctInside ∧ ∀ name ∈ item.declaredName?, name ∉ WrittenItem.declaredNames earlier)
      (item.FirstDuplicate module earlier) := by
  cases item with
  | imported position name =>
    refine Finds.nothing.congr ⟨fun _ => ⟨trivial, nofun⟩, fun _ => trivial⟩ fun defect => ⟨nofun, ?_⟩
    intro first
    cases first with
    | ownName _ named => cases named
  | constant heading name literal =>
    have own : firstFailing? (ownChecks module (WrittenItem.declaredNames earlier).reverse
        (.constant heading name literal)) =
        none.or (if name ∈ WrittenItem.declaredNames earlier then
          some (.defective (.duplicateDecl name module heading.position)) else none) := by
      rw [ownChecks, firstFailing?_cons, error?_readable (short literal (.head _)),
        firstFailing?_cons, error?_fresh]
      simp [firstFailing?]
    rw [own]
    refine (Finds.nothing.andThen _).congr
      (by simp [WrittenItem.DistinctInside, WrittenItem.declaredName?]) fun defect => ⟨?_, ?_⟩
    · intro first
      obtain ⟨⟨⟩⟩ | ⟨_, again, rfl⟩ := first
      exact .ownName trivial rfl again
    · intro first
      cases first with
      | ownName _ named again =>
        cases named
        exact .inr ⟨trivial, again, rfl⟩
  | type heading name body =>
    have own : firstFailing? (ownChecks module (WrittenItem.declaredNames earlier).reverse
        (.type heading name body)) =
        (firstFailing? (bodyChecks name body)).or (if name ∈ WrittenItem.declaredNames earlier then
          some (.defective (.duplicateDecl name module heading.position)) else none) := by
      rw [ownChecks, firstFailing?_append, firstFailing?_cons, error?_fresh]
      simp [firstFailing?]
    rw [own]
    refine ((finds_bodyChecks name short).andThen _).congr
      (by simp [WrittenItem.DistinctInside, WrittenItem.declaredName?]) fun defect => ⟨?_, ?_⟩
    · intro first
      obtain inside | ⟨distinct, again, rfl⟩ := first
      · exact .inside inside
      · exact .ownName distinct rfl again
    · intro first
      cases first with
      | inside first => exact .inl first
      | ownName distinct named again =>
        cases named
        exact .inr ⟨distinct, again, rfl⟩

end WrittenModule

theorem WrittenItem.distinct_append_iff {front : List WrittenItem} {item : WrittenItem} :
    Distinct (front ++ [item]) ↔ Distinct front ∧ item.DistinctInside ∧
      ∀ name ∈ item.declaredName?, name ∉ declaredNames front := by
  have names : (declaredNames (front ++ [item])).Nodup ↔ (declaredNames front).Nodup ∧
      ∀ name ∈ item.declaredName?, name ∉ declaredNames front := by
    rw [declaredNames, List.filterMap_append]
    cases own : item.declaredName? with
    | none => simp [own, declaredNames]
    | some name =>
      rw [List.filterMap_cons_some own, List.filterMap_nil, List.nodup_middle, List.append_nil,
        List.nodup_cons]
      simp [declaredNames, and_comm]
  constructor
  · intro distinct
    have inside := distinct.inside
    rw [List.forall_mem_append, List.forall_mem_singleton] at inside
    obtain ⟨earlier, fresh⟩ := names.mp distinct.names
    exact ⟨⟨earlier, inside.1⟩, inside.2, fresh⟩
  · intro apart
    obtain ⟨⟨earlier, inside⟩, own, fresh⟩ := apart
    exact ⟨names.mpr ⟨earlier, fresh⟩,
      List.forall_mem_append.mpr ⟨inside, List.forall_mem_singleton.mpr own⟩⟩

namespace WrittenModule

theorem firstFailing?_eq_none_iff {module : String} {items : List WrittenItem}
    (short : ∀ literal ∈ items.flatMap WrittenItem.literals, Short literal) :
    firstFailing? (itemChecks module [] items) = none ↔ WrittenItem.Distinct items := by
  induction items using List.reverseRecOn with
  | nil => exact ⟨fun _ => ⟨.nil, nofun⟩, fun _ => rfl⟩
  | append_singleton front item ih =>
    rw [List.flatMap_append, List.forall_mem_append] at short
    rw [scans_items.snoc_eq_none_iff, ih short.1, WrittenItem.distinct_append_iff]
    have own : ∀ literal ∈ item.literals, Short literal := by simpa using short.2
    exact and_congr_right fun _ => (finds_ownChecks front own).passes

theorem finds_firstError? {written : WrittenModule}
    (short : ∀ literal ∈ written.literals, Short literal) :
    Finds written.firstError? (WrittenItem.Distinct written.items) written.FirstDuplicate := by
  refine ⟨firstFailing?_eq_none_iff short, fun error => scans_items.eq_some_iff.trans ?_⟩
  have parts : ∀ {earlier item later}, written.items = earlier ++ item :: later →
      (∀ literal ∈ earlier.flatMap WrittenItem.literals, Short literal) ∧
        ∀ literal ∈ item.literals, Short literal := by
    intro earlier item later split
    rw [literals, split, List.flatMap_append, List.flatMap_cons, List.forall_mem_append,
      List.forall_mem_append] at short
    exact ⟨short.1, short.2.1⟩
  constructor
  · intro failing
    obtain ⟨earlier, item, later, split, passed, failed⟩ := failing
    obtain ⟨shortEarlier, shortItem⟩ := parts split
    obtain ⟨defect, same, first⟩ := ((finds_ownChecks earlier shortItem).fails error).mp failed
    have distinct := (firstFailing?_eq_none_iff shortEarlier).mp passed
    exact ⟨defect, same, earlier, item, later, split, distinct, first⟩
  · intro failing
    obtain ⟨defect, same, earlier, item, later, split, distinct, first⟩ := failing
    obtain ⟨shortEarlier, shortItem⟩ := parts split
    exact ⟨earlier, item, later, split, (firstFailing?_eq_none_iff shortEarlier).mpr distinct,
      ((finds_ownChecks earlier shortItem).fails error).mpr ⟨defect, same, first⟩⟩

end WrittenModule

/-! ## Modules -/

/-- The kinds of definitions that go with what a type is declared as. -/
inductive DeclKind.Defines : DeclKind → TypeKind → Prop where
  | struct : Defines .type .struct
  | alias : Defines .type .alias
  | enum : Defines .enum .enum
  | unit : Defines .unit .unit

theorem WrittenBody.defines_tag (body : WrittenBody) : body.tag.Defines body.kind := by
  cases body with
  | enum labels => exact .enum
  | fields form fields =>
    cases form with
    | unit => exact .unit
    | struct => exact .struct
  | «alias» target => exact .alias

/-- A type is defined as it is declared. -/
structure TypeDecl.IsDefined (module : String) (decl : TypeDecl) : Prop where
  qualified : decl.definition.name = qualify module decl.name
  ofKind : decl.kind.Defines decl.definition.kind
  fields : decl.definition.fields = decl.fields.map fun field => ⟨field.name, field.ref⟩

theorem TypeDecl.Mirrors.isDefined {module name : String} {heading : Heading} {body : WrittenBody}
    {decl : TypeDecl} (mirrors : decl.Mirrors module heading name body) : decl.IsDefined module where
  qualified := by rw [mirrors.qualified, mirrors.ownName]
  ofKind := by
    rw [mirrors.ownTag, mirrors.ofKind]
    exact body.defines_tag
  fields := mirrors.definedFields

namespace Module

open WrittenModule (Short)

variable {text : List Char} {written : WrittenModule} {file : Option String} {module : Module}

theorem Mirrors.isDefined (mirrors : module.Mirrors written) {decl : TypeDecl}
    (member : decl ∈ module.declaredTypes) : decl.IsDefined module.name := by
  obtain ⟨found, inside, isType⟩ := List.mem_filterMap.mp member
  split at isType
  · cases isType
    obtain ⟨item, _, own⟩ := exists_of_forall₂ mirrors.decls inside
    cases own with
    | type own => exact mirrors.name ▸ own.isDefined
  · cases isType

theorem parse_of_build (accepted : WrittenModule.read text = .ok written)
    (built : written.build = .ok module) : parse text file = .ok (.ok module) := by
  rw [parse, ofText, accepted]
  dsimp only
  rw [built]

theorem parse_of_defective {defect : ModuleDefect} (accepted : WrittenModule.read text = .ok written)
    (failed : written.build = .error (.defective defect)) :
    parse text file =
      .ok (.error (parserDiagnostic defect.message (.ofPosition defect.position file))) := by
  rw [parse, ofText, accepted]
  dsimp only
  rw [failed]

theorem build_of_parse (accepted : WrittenModule.read text = .ok written)
    (parsed : parse text file = .ok (.ok module)) : written.build = .ok module := by
  obtain ⟨_, other, reads, built⟩ := parse_eq_ok_iff.mp parsed
  cases accepted.symm.trans (Machine.run_eq_ok_iff.mpr ⟨_, reads⟩)
  exact built

/-- A text that the grammar accepts, and whose literals can be read, is a module exactly if the names in
it are distinct. Else the first duplicate, of which there is one, is reported at its own position, which
is that of its lexeme in the text. The types of a module that is read are defined as they are declared,
under the qualified name. -/
theorem parse_iff_distinct (accepted : WrittenModule.read text = .ok written)
    (short : ∀ literal ∈ written.literals, Short literal) (file : Option String) :
    (∃ occurrences, WrittenModule.machine.Reads written .start [] text occurrences ∧
      written.Stands occurrences) ∧
    ((∃ module, parse text file = .ok (.ok module)) ↔ WrittenItem.Distinct written.items) ∧
    (¬WrittenItem.Distinct written.items → ∃ defect,
      (∀ other, written.FirstDuplicate other ↔ other = defect) ∧
        parse text file =
          .ok (.error (parserDiagnostic defect.message (.ofPosition defect.position file)))) ∧
    ∀ module, parse text file = .ok (.ok module) → module.Mirrors written ∧
      ∀ decl ∈ module.declaredTypes, decl.IsDefined module.name := by
  have outcome := WrittenModule.errorOf?_build written
  obtain ⟨passes, fails⟩ := WrittenModule.finds_firstError? short
  obtain ⟨occurrences, reads⟩ := Machine.run_eq_ok_iff.mp accepted
  refine ⟨⟨occurrences, reads, WrittenModule.stands_of_reads reads⟩, ⟨?_, ?_⟩, ?_, ?_⟩
  · intro read
    obtain ⟨module, parsed⟩ := read
    rw [build_of_parse accepted parsed] at outcome
    exact passes.mp outcome.symm
  · intro distinct
    rw [passes.mpr distinct] at outcome
    obtain ⟨module, built⟩ := exists_of_errorOf?_eq_none outcome
    exact ⟨module, parse_of_build accepted built⟩
  · intro repeats
    obtain ⟨error, failed⟩ := Option.ne_none_iff_exists'.mp (mt passes.mp repeats)
    obtain ⟨defect, rfl, first⟩ := (fails error).mp failed
    refine ⟨defect, fun other => ⟨fun firstToo => ?_, fun same => same ▸ first⟩, ?_⟩
    · have failedToo := (fails _).mpr ⟨other, rfl, firstToo⟩
      cases failed.symm.trans failedToo
      rfl
    · exact parse_of_defective accepted (eq_error_of_errorOf? (outcome.trans failed))
  · intro module parsed
    have mirrors := WrittenModule.mirrors_of_build (build_of_parse accepted parsed)
    exact ⟨mirrors, fun decl member => mirrors.isDefined member⟩

/-- A type has the name of another one and of an import, and two fields of one name. -/
def repeatedText : List Char :=
  ("module m;\nimport T;\ntype T = enum \x7b A, B = -5 \x7d;\n" ++
    "public type T = struct \x7b a: bool; b: T;\n a: T; \x7d;\n").toList

theorem parse_iff_distinct_repeated : ∃ written, WrittenModule.read repeatedText = .ok written ∧
    (∀ literal ∈ written.literals, Short literal) ∧ ¬WrittenItem.Distinct written.items ∧
      ∃ defect, written.FirstDuplicate defect ∧
        defect.message = "duplicate field 'a' in type 'T'" ∧
        Span.ofPosition defect.position none = .ofPosition ⟨5, 2⟩ none := by
  have found : ∃ written ∈ (WrittenModule.read repeatedText).toOption,
      ∀ literal ∈ written.literals, Short literal := by
    decide +kernel
  have refused : ∃ outcome ∈ (parse repeatedText none).toOption, ∃ diagnostic ∈ errorOf? outcome,
      diagnostic.message = "duplicate field 'a' in type 'T'" ∧
        diagnostic.span = .ofPosition ⟨5, 2⟩ none := by
    decide +kernel
  obtain ⟨written, reads, short⟩ := found
  obtain ⟨outcome, ends, diagnostic, reported, message, span⟩ := refused
  have accepted := eq_ok_of_toOption reads
  have failed : parse repeatedText none = .ok (.error diagnostic) := by
    rw [eq_ok_of_toOption ends, eq_error_of_errorOf? reported]
  obtain ⟨_, distinctIff, first, _⟩ := parse_iff_distinct accepted short none
  have repeats : ¬WrittenItem.Distinct written.items := by
    intro distinct
    obtain ⟨module, parsed⟩ := distinctIff.mpr distinct
    cases failed.symm.trans parsed
  obtain ⟨defect, only, reportedToo⟩ := first repeats
  cases failed.symm.trans reportedToo
  exact ⟨written, accepted, short, repeats, defect, (only defect).mpr rfl, message, span⟩

end Module

end WireModules
