import Mathlib.Data.List.Forall2
import WireModules.Program.Prelude
import WireModules.Proofs.Outcome

/-!
# Modules that stand in a text

What the modules of texts have in common: the definition of every declared type goes by the type's
qualified name and has the fields that the declaration has, an alias has a target, nothing is
resolved, and no two types of a module have one name.
-/

set_option autoImplicit false

namespace WireModules

theorem exists_of_forall₂ {α β : Type} {related : α → β → Prop} {first : List α} {second : List β}
    (all : List.Forall₂ related first second) {item : α} (member : item ∈ first) :
    ∃ other ∈ second, related item other := by
  induction all with
  | nil => cases member
  | cons own _ ih =>
    rcases List.mem_cons.mp member with rfl | later
    · exact ⟨_, .head _, own⟩
    · obtain ⟨other, listed, found⟩ := ih later
      exact ⟨other, .tail _ listed, found⟩

/-- A declared type as the text of a module gives it. -/
structure TypeDecl.AsWritten (module : String) (decl : TypeDecl) : Prop where
  named : decl.definition.name = qualify module decl.name
  placed : decl.definition.fields = decl.fields.map fun field => ⟨field.name, field.ref⟩
  aliased : decl.definition.kind = .alias → decl.definition.target.isSome = true

namespace WrittenBody

def writtenLabels : WrittenBody → List WrittenLabel
  | .enum written => written
  | _ => []

def writtenFields : WrittenBody → List WrittenField
  | .fields _ written => written
  | _ => []

def target? : WrittenBody → Option TypeRef
  | .alias target => some target
  | _ => none

def kind : WrittenBody → TypeKind
  | .enum _ => .enum
  | .fields .unit _ => .unit
  | .fields .struct _ => .struct
  | .alias _ => .alias

/-- What a type with such a body is declared as. -/
def tag : WrittenBody → DeclKind
  | .enum _ => .enum
  | .fields .unit _ => .unit
  | .fields .struct _ | .alias _ => .type

end WrittenBody

def WrittenField.placed (field : WrittenField) : PlacedField :=
  ⟨field.name, field.ref, field.position⟩

/-- A declared type says what is written of it. -/
structure TypeDecl.Mirrors (module : String) (heading : Heading) (name : String)
    (body : WrittenBody) (decl : TypeDecl) : Prop where
  ownName : decl.name = name
  ownPosition : decl.position = heading.position
  ownLinkage : decl.linkage = heading.linkage
  ownTag : decl.kind = body.tag
  ownFields : decl.fields = body.writtenFields.map WrittenField.placed
  qualified : decl.definition.name = qualify module name
  ofKind : decl.definition.kind = body.kind
  labels : decl.definition.labels.map EnumLabel.name = body.writtenLabels.map WrittenLabel.name
  definedFields : decl.definition.fields = decl.fields.map fun field => ⟨field.name, field.ref⟩
  target : decl.definition.target = body.target?
  unresolved : decl.resolved = none

inductive Decl.Mirrors (module : String) : WrittenItem → Decl → Prop where
  | imported (position : Position) (name : String) :
      Mirrors module (.imported position name) (.imported name position)
  | constant {literal : String} {value : Int} (heading : Heading) (name : String) :
      WrittenModule.readLiteral literal = .ok value →
      Mirrors module (.constant heading name literal)
        (.constant name heading.position heading.linkage value)
  | type {heading : Heading} {name : String} {body : WrittenBody} {decl : TypeDecl} :
      decl.Mirrors module heading name body → Mirrors module (.type heading name body) (.type decl)

namespace WrittenModule

theorem names_of_buildLabels {taken : List String} {next : Int} {written : List WrittenLabel}
    {labels : List EnumLabel} (built : buildLabels taken next written = .ok labels) :
    labels.map EnumLabel.name = written.map WrittenLabel.name := by
  induction written generalizing taken next labels with
  | nil =>
    cases built
    rfl
  | cons label rest ih =>
    obtain ⟨value, _, continued⟩ := exists_of_bind_eq_ok built
    split at continued
    · cases continued
    · obtain ⟨others, builtRest, same⟩ := exists_of_bind_eq_ok continued
      cases same
      rw [List.map_cons, List.map_cons, ih builtRest]

theorem mirrors_of_buildType {module name : String} {heading : Heading} {body : WrittenBody}
    {decl : TypeDecl} (built : buildType module heading name body = .ok decl) :
    decl.Mirrors module heading name body := by
  cases body with
  | enum written =>
    obtain ⟨labels, builtLabels, same⟩ := exists_of_bind_eq_ok built
    cases same
    exact ⟨rfl, rfl, rfl, rfl, rfl, rfl, rfl, names_of_buildLabels builtLabels, rfl, rfl, rfl⟩
  | fields form written =>
    rw [buildType] at built
    split at built
    · cases built
    · cases built
      refine ⟨rfl, rfl, rfl, ?_, rfl, rfl, ?_, rfl, by simp [Function.comp_def], rfl, rfl⟩
      · cases form <;> rfl
      · cases form <;> rfl
  | «alias» target =>
    cases built
    exact ⟨rfl, rfl, rfl, rfl, rfl, rfl, rfl, rfl, rfl, rfl, rfl⟩

/-- A declaration is built of what is written of it. -/
theorem mirrors_of_buildDecl {module : String} {item : WrittenItem} {decl : Decl}
    (built : buildDecl module item = .ok decl) : decl.Mirrors module item := by
  cases item with
  | imported position name =>
    cases built
    exact .imported position name
  | constant heading name literal =>
    obtain ⟨value, read, same⟩ := exists_of_bind_eq_ok built
    cases same
    exact .constant heading name read
  | type heading name body =>
    obtain ⟨own, builtType, same⟩ := exists_of_bind_eq_ok built
    cases same
    exact .type (mirrors_of_buildType builtType)

theorem asWritten_of_buildDecl {module : String} {item : WrittenItem} {decl : TypeDecl}
    (built : buildDecl module item = .ok (.type decl)) : decl.AsWritten module := by
  cases mirrors_of_buildDecl built with
  | @type heading name body _ mirrors =>
    refine ⟨mirrors.ownName ▸ mirrors.qualified, mirrors.definedFields, fun isAlias => ?_⟩
    have kind : body.kind = .alias := mirrors.ofKind.symm.trans isAlias
    rw [mirrors.target]
    unfold WrittenBody.kind at kind
    split at kind <;> first | rfl | cases kind

/-- Declarations are built from items one by one. -/
theorem forall₂_of_buildDecls {module : String} {seen : List String} {items : List WrittenItem}
    {decls : List Decl} (built : buildDecls module seen items = .ok decls) :
    List.Forall₂ (fun decl item => buildDecl module item = .ok decl) decls items := by
  induction items generalizing seen decls with
  | nil =>
    cases built
    exact .nil
  | cons item rest ih =>
    obtain ⟨first, builtFirst, continued⟩ := exists_of_bind_eq_ok built
    have others : ∃ seen others, buildDecls module seen rest = .ok others ∧
        decls = first :: others := by
      split at continued
      · obtain ⟨others, builtRest, same⟩ := exists_of_bind_eq_ok continued
        cases same
        exact ⟨_, others, builtRest, rfl⟩
      · split at continued
        · cases continued
        · obtain ⟨others, builtRest, same⟩ := exists_of_bind_eq_ok continued
          cases same
          exact ⟨_, others, builtRest, rfl⟩
    obtain ⟨_, others, builtRest, rfl⟩ := others
    exact .cons builtFirst (ih builtRest)

/-- Every declaration is built from an item. -/
theorem exists_item_of_buildDecls {module : String} {seen : List String}
    {items : List WrittenItem} {decls : List Decl}
    (built : buildDecls module seen items = .ok decls) :
    ∀ decl ∈ decls, ∃ item ∈ items, buildDecl module item = .ok decl :=
  fun _ member => exists_of_forall₂ (forall₂_of_buildDecls built) member

theorem unresolved_of_buildDecl {module : String} {item : WrittenItem} {decl : TypeDecl}
    (built : buildDecl module item = .ok (.type decl)) : decl.resolved = none := by
  cases mirrors_of_buildDecl built with
  | type mirrors => exact mirrors.unresolved

/-- The declared types among declarations. -/
def typesOf (decls : List Decl) : List TypeDecl :=
  decls.filterMap fun
    | .type decl => some decl
    | _ => none

/-- Building keeps the names of types apart from one another and from the names seen before. -/
theorem typesOf_of_buildDecls {module : String} {seen : List String} {items : List WrittenItem}
    {decls : List Decl} (built : buildDecls module seen items = .ok decls) :
    (∀ decl ∈ typesOf decls, decl.AsWritten module ∧ decl.name ∉ seen) ∧
      ((typesOf decls).map TypeDecl.name).Nodup := by
  induction items generalizing seen decls with
  | nil =>
    cases built
    simp [typesOf]
  | cons item rest ih =>
    obtain ⟨decl, builtDecl, continued⟩ := exists_of_bind_eq_ok built
    cases decl with
    | imported name position =>
      obtain ⟨others, builtRest, same⟩ := exists_of_bind_eq_ok continued
      cases same
      have skipped : typesOf (.imported name position :: others) = typesOf others := rfl
      rw [skipped]
      exact ih builtRest
    | constant name position linkage value =>
      simp only [Decl.claimedName?] at continued
      split at continued
      · cases continued
      · obtain ⟨others, builtRest, same⟩ := exists_of_bind_eq_ok continued
        cases same
        obtain ⟨written, unique⟩ := ih builtRest
        have skipped : typesOf (.constant name position linkage value :: others) =
            typesOf others := rfl
        rw [skipped]
        refine ⟨fun decl member => ⟨(written decl member).1, fun earlier => ?_⟩, unique⟩
        exact (written decl member).2 (.tail _ earlier)
    | type decl =>
      simp only [Decl.claimedName?] at continued
      split at continued
      · cases continued
      · next fresh =>
        obtain ⟨others, builtRest, same⟩ := exists_of_bind_eq_ok continued
        cases same
        obtain ⟨written, unique⟩ := ih builtRest
        have first : typesOf (.type decl :: others) = decl :: typesOf others := rfl
        rw [first]
        refine ⟨?_, ?_⟩
        · intro other member
          rcases List.mem_cons.mp member with rfl | later
          · exact ⟨asWritten_of_buildDecl builtDecl, by simpa using fresh⟩
          · exact ⟨(written other later).1, fun earlier => (written other later).2 (.tail _ earlier)⟩
        · rw [List.map_cons, List.nodup_cons]
          refine ⟨fun repeated => ?_, unique⟩
          obtain ⟨other, later, same⟩ := List.mem_map.mp repeated
          exact (written other later).2 (same ▸ .head _)

end WrittenModule

namespace Module

/-- A module that some text denotes. -/
def IsParsed (module : Module) : Prop :=
  ∃ text, ofText text = .ok module

theorem isParsed_of_toOption {text : List Char} {module : Module}
    (denotes : (ofText text).toOption = some module) : module.IsParsed :=
  ⟨text, eq_ok_of_toOption denotes⟩

theorem IsParsed.built {module : Module} (parsed : module.IsParsed) :
    ∃ items, WrittenModule.buildDecls module.name [] items = .ok module.decls := by
  obtain ⟨text, denotes⟩ := parsed
  rw [ofText] at denotes
  split at denotes
  · cases denotes
  · next written _ =>
    obtain ⟨decls, built, same⟩ := exists_of_bind_eq_ok denotes
    cases same
    exact ⟨written.items, built⟩

theorem IsParsed.asWritten {module : Module} (parsed : module.IsParsed) {decl : TypeDecl}
    (member : decl ∈ module.declaredTypes) : decl.AsWritten module.name := by
  obtain ⟨items, built⟩ := parsed.built
  exact ((WrittenModule.typesOf_of_buildDecls built).1 decl member).1

theorem IsParsed.nodup_names {module : Module} (parsed : module.IsParsed) :
    (module.declaredTypes.map TypeDecl.name).Nodup := by
  obtain ⟨items, built⟩ := parsed.built
  exact (WrittenModule.typesOf_of_buildDecls built).2

/-- What a text gives has not been resolved. -/
theorem IsParsed.unresolved {module : Module} (parsed : module.IsParsed) {decl : TypeDecl}
    (member : decl ∈ module.declaredTypes) : decl.resolved = none := by
  obtain ⟨items, built⟩ := parsed.built
  obtain ⟨found, inside, isType⟩ := List.mem_filterMap.mp member
  split at isType
  · cases isType
    obtain ⟨item, _, builtDecl⟩ := WrittenModule.exists_item_of_buildDecls built _ inside
    exact WrittenModule.unresolved_of_buildDecl builtDecl
  · cases isType

end Module

/-- A module says what is written of it: a declaration stands for each item, in order. -/
structure Module.Mirrors (written : WrittenModule) (module : Module) : Prop where
  name : module.name = written.name
  position : module.position = written.position
  decls : List.Forall₂ (fun decl item => decl.Mirrors written.name item) module.decls written.items

theorem WrittenModule.mirrors_of_build {written : WrittenModule} {module : Module}
    (built : written.build = .ok module) : module.Mirrors written := by
  obtain ⟨decls, builtDecls, same⟩ := exists_of_bind_eq_ok built
  cases same
  exact ⟨rfl, rfl, (forall₂_of_buildDecls builtDecls).imp fun _ _ own => mirrors_of_buildDecl own⟩

/-- A unit as it comes from reading a file: it goes by the name that its module declares. -/
structure ProgramUnit.IsParsed (unit : ProgramUnit) : Prop where
  ownName : unit.moduleId = unit.module.name
  parsed : unit.module.IsParsed

theorem ProgramUnit.isParsed_prelude : ProgramUnit.prelude.IsParsed :=
  ⟨rfl, Module.isParsed_of_toOption Support.ofText_preludeText⟩

end WireModules
