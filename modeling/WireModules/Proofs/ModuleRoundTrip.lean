import WireModules.Proofs.ModuleReading
import WireModules.Proofs.Outcome

/-!
# Every text of a tree denotes the tree

The module that a text of a tree denotes is the module of the tree, except that its parts have the
places at which they stand in the text.
-/

set_option autoImplicit false

namespace WireModules

/-! ## Modules without places -/

/-- A declared type with all places at the start. -/
def TypeDecl.unplaced (decl : TypeDecl) : TypeDecl :=
  { decl with
    position := .start
    fields := decl.fields.map fun field => { field with position := .start } }

def Decl.unplaced : Decl → Decl
  | .imported name _ => .imported name .start
  | .constant name _ linkage value => .constant name .start linkage value
  | .type decl => .type decl.unplaced

def Module.unplaced (module : Module) : Module :=
  ⟨module.name, .start, module.decls.map Decl.unplaced⟩

namespace ModuleTree

/-- The definition that the right side of a declaration gives to a qualified name. -/
def Body.definition (id : String) : Body → TypeDef
  | .enum labels => { kind := .enum, name := id, labels }
  | .fields form members =>
    { kind := WrittenModule.FieldsForm.kind form, name := id, fields := members }
  | .alias target => { kind := .alias, name := id, target := some target }

def Body.placedFields : Body → List PlacedField
  | .fields _ members => members.map fun field => ⟨field.name, field.ref, .start⟩
  | _ => []

/-- The declaration of an item in a module. -/
def Item.decl (module : String) : Item → Decl
  | .imported name => .imported name .start
  | .constant linkage name value => .constant name .start linkage value
  | .type linkage name body =>
    .type {
      name
      position := .start
      linkage
      definition := body.definition (qualify module name)
      fields := body.placedFields }

/-- The module of a tree, with all places at the start. -/
def module (tree : ModuleTree) : Module :=
  ⟨tree.name, .start, tree.items.map (Item.decl tree.name)⟩

/-- Each type of a tree is declared in a module that is the module of the tree up to places. -/
theorem exists_type_of_unplaced {tree : ModuleTree} {module : Module}
    (same : module.unplaced = tree.module) {linkage : Linkage} {name : String} {body : Body}
    (member : .type linkage name body ∈ tree.items) :
    ∃ decl, .type decl ∈ module.decls ∧ decl.name = name ∧
      decl.definition = body.definition (qualify tree.name name) := by
  have decls : module.decls.map Decl.unplaced = tree.items.map (Item.decl tree.name) :=
    congrArg Module.decls same
  have declared := List.mem_map_of_mem (f := Item.decl tree.name) member
  rw [← decls] at declared
  obtain ⟨decl, inside, isDecl⟩ := List.mem_map.mp declared
  cases decl with
  | imported => cases isDecl
  | constant => cases isDecl
  | type decl =>
    have isType : decl.unplaced = _ := Decl.type.inj isDecl
    exact ⟨decl, inside, congrArg (·.name) isType, congrArg (·.definition) isType⟩

/-! ## Trees without duplicates -/

def Body.Distinct : Body → Prop
  | .enum labels => (labels.map EnumLabel.name).Nodup
  | .fields _ members => (members.map TypedField.name).Nodup
  | .alias _ => True

def Item.Distinct : Item → Prop
  | .type _ _ body => body.Distinct
  | _ => True

/-- The name that an item declares; an import declares none. -/
def Item.declaredName? : Item → Option String
  | .imported _ => none
  | .constant _ name _ => some name
  | .type _ name _ => some name

/-- No two declarations have one name, nor two fields of a type, nor two labels of an enum. -/
structure Distinct (tree : ModuleTree) : Prop where
  decls : (tree.items.filterMap Item.declaredName?).Nodup
  items : ∀ item ∈ tree.items, item.Distinct

/-! ## Building -/

theorem IsLiteral.readLiteral {literal : String} {value : Int}
    (isLiteral : IsLiteral literal value) : WrittenModule.readLiteral literal = .ok value := by
  rw [WrittenModule.readLiteral, Text.Decimal.read, if_pos isLiteral.2.1, isLiteral.2.2]
  rfl

theorem LabelsSay.build {count : Int} {written : List WrittenLabel} {labels : List EnumLabel}
    (labelsSaid : LabelsSay count written labels) (distinct : (labels.map EnumLabel.name).Nodup)
    {seen : List String} (fresh : ∀ label ∈ labels, label.name ∉ seen) :
    WrittenModule.buildLabels seen count written = .ok labels := by
  induction labelsSaid generalizing seen with
  | nil => rfl
  | @cons count written label rest labels labelSaid _ ih =>
    rw [List.map_cons, List.nodup_cons] at distinct
    have value : written.literal.elim (.ok count) WrittenModule.readLiteral =
        (.ok label.value : Except ModuleError Int) := by
      have said := labelSaid.value
      split at said
      · next unsaid => rw [unsaid, said, Option.elim_none]
      · next literal literalSaid =>
        rw [literalSaid, Option.elim_some]
        exact said.readLiteral
    have unseen : ¬seen.contains label.name = true := by
      simpa using fresh label (.head _)
    have freshLater : ∀ other ∈ labels, other.name ∉ label.name :: seen := by
      intro other member
      rw [List.mem_cons, not_or]
      refine ⟨fun same => distinct.1 ?_, fresh other (.tail _ member)⟩
      exact List.mem_map.mpr ⟨other, member, same⟩
    rw [WrittenModule.buildLabels, value, labelSaid.name]
    change (if seen.contains label.name = true then _ else _) = _
    rw [if_neg unseen]
    rw [ih distinct.2 freshLater]
    rfl

theorem firstRepeated?_eq_none {written : List WrittenField}
    (distinct : ((written.map fieldSaid).map TypedField.name).Nodup) {seen : List String}
    (fresh : ∀ field ∈ written, field.name ∉ seen) :
    WrittenModule.firstRepeated? seen written = none := by
  induction written generalizing seen with
  | nil => rfl
  | cons field rest ih =>
    rw [List.map_cons, List.map_cons, List.nodup_cons] at distinct
    have unseen : ¬seen.contains field.name = true := by
      simpa using fresh field (.head _)
    rw [WrittenModule.firstRepeated?, if_neg unseen]
    refine ih distinct.2 fun other member => ?_
    rw [List.mem_cons, not_or]
    refine ⟨fun same => distinct.1 ?_, fresh other (.tail _ member)⟩
    rw [List.map_map]
    exact List.mem_map.mpr ⟨other, member, same⟩

theorem BodySays.build {written : WrittenBody} {body : Body} (bodySaid : BodySays written body)
    (distinct : body.Distinct) (module name : String) (heading : Heading) :
    ∃ decl, WrittenModule.buildType module heading name written = .ok decl ∧
      Decl.unplaced (.type decl) = Item.decl module (.type heading.linkage name body) := by
  cases bodySaid with
  | enum labelsSaid =>
    have built : WrittenModule.buildLabels [] 0 _ = .ok _ := labelsSaid.build distinct (by simp)
    rw [WrittenModule.buildType, built]
    exact ⟨_, rfl, rfl⟩
  | fields form written =>
    have single : WrittenModule.firstRepeated? [] written = none :=
      firstRepeated?_eq_none distinct (by simp)
    rw [WrittenModule.buildType, single]
    refine ⟨_, rfl, ?_⟩
    simp [Decl.unplaced, TypeDecl.unplaced, Item.decl, Body.definition, Body.placedFields,
      fieldSaid, Function.comp_def]
  | «alias» target => exact ⟨_, rfl, rfl⟩

theorem ItemSays.build {written : WrittenItem} {item : Item} (itemSaid : ItemSays written item)
    (distinct : item.Distinct) (module : String) :
    ∃ decl, WrittenModule.buildDecl module written = .ok decl ∧
      decl.unplaced = item.decl module := by
  cases itemSaid with
  | imported position name => exact ⟨_, rfl, rfl⟩
  | constant isLiteral =>
    rw [WrittenModule.buildDecl, isLiteral.readLiteral]
    exact ⟨_, rfl, rfl⟩
  | type bodySaid =>
    obtain ⟨decl, built, same⟩ := bodySaid.build distinct module _ _
    rw [WrittenModule.buildDecl, built]
    exact ⟨.type decl, rfl, same⟩

@[simp]
theorem claimedName?_unplaced (decl : Decl) : decl.unplaced.claimedName? = decl.claimedName? := by
  cases decl <;> rfl

@[simp]
theorem Item.claimedName?_decl (module : String) (item : Item) :
    (item.decl module).claimedName? = item.declaredName? := by
  cases item <;> rfl

/-- The declarations of items whose names are distinct, and not among the names seen. -/
theorem build_items {module : String} {written : List WrittenItem} {items : List Item}
    (itemsSaid : List.Forall₂ ItemSays written items)
    (distinct : (items.filterMap Item.declaredName?).Nodup)
    (each : ∀ item ∈ items, item.Distinct) {seen : List String}
    (fresh : ∀ name ∈ items.filterMap Item.declaredName?, name ∉ seen) :
    ∃ decls, WrittenModule.buildDecls module seen written = .ok decls ∧
      decls.map Decl.unplaced = items.map (Item.decl module) := by
  induction itemsSaid generalizing seen with
  | nil => exact ⟨[], rfl, rfl⟩
  | @cons written item rest items itemSaid _ ih =>
    obtain ⟨decl, built, same⟩ := itemSaid.build (each item (.head _)) module
    have eachLater : ∀ later ∈ items, later.Distinct := fun later member =>
      each later (.tail _ member)
    have claimed : decl.claimedName? = item.declaredName? := by
      rw [← claimedName?_unplaced, same, Item.claimedName?_decl]
    rw [WrittenModule.buildDecls, built]
    -- An import claims no name; any other item must not have a name that was claimed before.
    cases declared : item.declaredName? with
    | none =>
      rw [List.filterMap_cons_none declared] at distinct fresh
      obtain ⟨decls, builtLater, sameLater⟩ := ih distinct eachLater fresh
      refine ⟨decl :: decls, ?_, by rw [List.map_cons, List.map_cons, same, sameLater]⟩
      simp only [bind, Except.bind, claimed, declared, builtLater]
      rfl
    | some name =>
      rw [List.filterMap_cons_some declared] at distinct fresh
      rw [List.nodup_cons] at distinct
      have unseen : ¬seen.contains name = true := by
        simpa using fresh name (.head _)
      have freshLater : ∀ later ∈ items.filterMap Item.declaredName?, later ∉ name :: seen := by
        intro later member
        rw [List.mem_cons, not_or]
        exact ⟨fun equal => distinct.1 (equal ▸ member), fresh later (.tail _ member)⟩
      obtain ⟨decls, builtLater, sameLater⟩ := ih distinct.2 eachLater freshLater
      refine ⟨decl :: decls, ?_, by rw [List.map_cons, List.map_cons, same, sameLater]⟩
      simp only [bind, Except.bind, claimed, declared, if_neg unseen, builtLater]
      rfl

theorem Says.build {written : WrittenModule} {tree : ModuleTree} (said : Says written tree)
    (distinct : tree.Distinct) :
    ∃ module, written.build = .ok module ∧ module.unplaced = tree.module := by
  obtain ⟨decls, built, same⟩ : ∃ decls, WrittenModule.buildDecls tree.name [] written.items =
      .ok decls ∧ decls.map Decl.unplaced = tree.items.map (Item.decl tree.name) :=
    build_items said.items distinct.decls distinct.items (by simp)
  refine ⟨⟨tree.name, written.position, decls⟩, ?_, ?_⟩
  · rw [WrittenModule.build, said.name, built]
    rfl
  · rw [Module.unplaced, same]
    rfl

/-- Reading any text of a tree gives the module of the tree, and no diagnostic. -/
theorem parse_of_isText {tree : ModuleTree} (distinct : tree.Distinct) {text : List Char}
    (isText : tree.IsText text) (file : Option String) :
    ∃ module, Module.parse text file = .ok (.ok module) ∧ module.unplaced = tree.module := by
  obtain ⟨written, wasRead, said⟩ := isText.read
  obtain ⟨module, built, same⟩ := said.build distinct
  have denotes : Module.ofText text = .ok module := by
    rw [Module.ofText, wasRead]
    exact built
  refine ⟨module, ?_, same⟩
  rw [Module.parse, denotes]

/-! ## A tree whose names are keywords -/

def keywordTree : ModuleTree where
  name := "import"
  items := [
    .type .internal "type" (.enum [⟨"public", 0⟩, ⟨"unit", 1⟩]),
    .type .external "list" (.alias { name := "base::list", args := [{ name := "type" }] })]

def keywordText : List Char :=
  "module import; #!\ntype type=enum{public,unit=1,};\npublic type list=base::list<type>;".toList

def keywordWords : List Word :=
  [.ofTerminal .module, .name "import", .ofTerminal .semicolon,
    .ofTerminal .type, .name "type", .ofTerminal .equal, .ofTerminal .enum,
    .ofTerminal .leftBrace, .name "public", .ofTerminal .comma, .name "unit", .ofTerminal .equal,
    .integer "1", .ofTerminal .comma, .ofTerminal .rightBrace, .ofTerminal .semicolon,
    .ofTerminal .publicWord, .ofTerminal .type, .name "list", .ofTerminal .equal, .name "base",
    .ofTerminal .scope, .name "list", .ofTerminal .lessThan, .name "type", .ofTerminal .moreThan,
    .ofTerminal .semicolon]

theorem keywordTree_distinct : keywordTree.Distinct where
  decls := by decide
  items := by
    intro item member
    simp only [keywordTree, List.mem_cons, List.not_mem_nil, or_false] at member
    rcases member with rfl | rfl
    · change List.Nodup ["public", "unit"]
      decide
    · trivial

theorem keywordTree_words : keywordTree.Words keywordWords := by
  have argument : RefWords { name := "type" } "type" _ :=
    @RefWords.plain "type" [] (by rfl) (by simp)
  have parts : ∀ part ∈ ["list"], IsIdentifier part := by
    rintro part (_ | ⟨_, ⟨⟩⟩)
    rfl
  have target : RefWords { name := "base::list", args := [{ name := "type" }] } "base" _ :=
    @RefWords.generic "base" ["list"] _ _ (by rfl) parts (.last argument)
  have value : IsLiteral "1" 1 := ⟨by rfl, by decide, by rfl⟩
  have labels : LabelsWords 0 [⟨"public", 0⟩, ⟨"unit", 1⟩] _ :=
    .more (.counted (by rfl)) (.ended (.valued (by rfl) value))
  have enum : ItemWords (.type .internal "type" (.enum [⟨"public", 0⟩, ⟨"unit", 1⟩])) _ :=
    .type .unsaid (by rfl) (.enum labels)
  exact .module (by rfl)
    (.cons enum (.cons (.type .external (by rfl) (.alias target (by decide))) .nil))

theorem keywordText_spaced : Spaced false keywordWords keywordText := by
  unfold keywordWords keywordText
  simp only [String.reduceToList]
  have comment : Gap [' ', '#', '!', '\n'] := .blank rfl (@Gap.comment ['!'] [] (by decide) .nil)
  refine .word .nil (by decide) (.word (.blank rfl .nil) (by decide) (.word .nil (by decide) ?_))
  refine .word comment (by decide) (.word (.blank rfl .nil) (by decide) ?_)
  iterate 11 refine .word .nil (by decide) ?_
  iterate 3 refine .word (.blank rfl .nil) (by decide) ?_
  iterate 8 refine .word .nil (by decide) ?_
  exact .done .nil

theorem parse_of_isText_keyword :
    keywordTree.Distinct ∧ keywordTree.IsText keywordText ∧
      ∃ module, Module.parse keywordText none = .ok (.ok module) ∧
        module.unplaced = keywordTree.module :=
  have isText : keywordTree.IsText keywordText := ⟨_, keywordTree_words, keywordText_spaced⟩
  ⟨keywordTree_distinct, isText, parse_of_isText keywordTree_distinct isText none⟩

end ModuleTree

end WireModules
