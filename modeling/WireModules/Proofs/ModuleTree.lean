import Mathlib.Data.List.Forall2
import WireModules.Module.Basic
import WireModules.Proofs.Spacing

/-!
# Trees of modules and their texts

The tree of a module says what the module declares, without any places. A tree can be written down
in many ways: a private declaration may say so or not, a label may or may not repeat the value that
it has by counting, labels may end with a comma, and layout stands between the words.
-/

set_option autoImplicit false

namespace WireModules

namespace ModuleTree

/-- The right side of a type declaration. -/
inductive Body where
  | enum (labels : List EnumLabel)
  | fields (form : FieldsForm) (fields : List TypedField)
  | alias (target : TypeRef)

inductive Item where
  | imported (name : String)
  | constant (linkage : Linkage) (name : String) (value : Int)
  | type (linkage : Linkage) (name : String) (body : Body)

end ModuleTree

structure ModuleTree where
  name : String
  items : List ModuleTree.Item

namespace ModuleTree

def IsIdentifier (text : String) : Prop :=
  Scan.isName text.toList = true

/-- A literal of an integer, which has at most as many digits as are read. -/
def IsLiteral (literal : String) (value : Int) : Prop :=
  Scan.isInteger literal.toList = true ∧
    Text.Decimal.digitCount literal.toList ≤ Text.Decimal.digitLimit ∧
    Text.Decimal.value literal.toList = value

/-! ## The words of a tree -/

open Word

/-- The words of a scoped name after its first part. -/
def scopedWords (parts : List String) : List Word :=
  parts.flatMap fun part => [ofTerminal .scope, Word.name part]

/-- Identifiers joined by the sign of a scope. -/
def IsScopedName (name : String) : Prop :=
  ∃ parts, parts ≠ [] ∧ (∀ part ∈ parts, IsIdentifier part) ∧ name = scopeSeparator.intercalate parts

theorem intercalate_eq_foldl (first : String) (parts : List String) :
    scopeSeparator.intercalate (first :: parts) = parts.foldl extendName first := by
  rw [String.intercalate]
  induction parts generalizing first with
  | nil => rfl
  | cons part rest ih => exact ih (extendName first part)

theorem toList_foldl_extendName (first : String) (parts : List String) :
    (parts.foldl extendName first).toList =
      first.toList ++ parts.flatMap fun part => (ofTerminal .scope).text ++ part.toList := by
  induction parts generalizing first with
  | nil => simp
  | cons part rest ih =>
    have sign : (ofTerminal .scope).text = scopeSeparator.toList := by decide
    rw [List.foldl_cons, ih, List.flatMap_cons, extendName, sign]
    simp

theorem spaced_scopedWords (parts : List String) {after : Bool} :
    Spaced after (scopedWords parts)
      (parts.flatMap fun part => (ofTerminal .scope).text ++ part.toList) := by
  induction parts generalizing after with
  | nil => exact .done .nil
  | cons part rest ih =>
    rw [List.flatMap_cons, List.append_assoc]
    exact .sign (by decide) (.word .nil (by simp) ih)

theorem spaced_name (first : String) (parts : List String) :
    Spaced false (Word.name first :: scopedWords parts) (parts.foldl extendName first).toList := by
  rw [toList_foldl_extendName]
  exact .word .nil (by simp) (spaced_scopedWords parts)

mutual

/-- The words of a reference: the first part of its name, and the words after it. -/
inductive RefWords : TypeRef → String → List Word → Prop where
  | plain {first : String} {parts : List String} : IsIdentifier first →
      (∀ part ∈ parts, IsIdentifier part) →
      RefWords { name := parts.foldl extendName first } first (scopedWords parts)
  | generic {first : String} {parts : List String} {args : List TypeRef} {words : List Word} :
      IsIdentifier first → (∀ part ∈ parts, IsIdentifier part) → ArgWords args words →
      RefWords { name := parts.foldl extendName first, args } first
        (scopedWords parts ++ ofTerminal .lessThan :: words ++ [ofTerminal .moreThan])

/-- The words of arguments, of which there is at least one. -/
inductive ArgWords : List TypeRef → List Word → Prop where
  | last {ref : TypeRef} {first : String} {tail : List Word} : RefWords ref first tail →
      ArgWords [ref] (Word.name first :: tail)
  | more {ref : TypeRef} {first : String} {tail words : List Word} {args : List TypeRef} :
      RefWords ref first tail → ArgWords args words →
      ArgWords (ref :: args) (Word.name first :: tail ++ ofTerminal .comma :: words)

end

theorem RefWords.isIdentifier {ref : TypeRef} {first : String} {tail : List Word}
    (words : RefWords ref first tail) : IsIdentifier first := by
  cases words <;> assumption

/-- The words of a label, where `count` is the value that it has if it does not say so. -/
inductive LabelWords (count : Int) : EnumLabel → List Word → Prop where
  | counted {name : String} : IsIdentifier name → LabelWords count ⟨name, count⟩ [Word.name name]
  | valued {name literal : String} {value : Int} : IsIdentifier name → IsLiteral literal value →
      LabelWords count ⟨name, value⟩
        [Word.name name, ofTerminal .equal, Word.integer literal]

/-- The words of labels, of which there is at least one; they may end with a comma. -/
inductive LabelsWords : Int → List EnumLabel → List Word → Prop where
  | last {count : Int} {label : EnumLabel} {words : List Word} : LabelWords count label words →
      LabelsWords count [label] words
  | ended {count : Int} {label : EnumLabel} {words : List Word} : LabelWords count label words →
      LabelsWords count [label] (words ++ [ofTerminal .comma])
  | more {count : Int} {label : EnumLabel} {labels : List EnumLabel} {words later : List Word} :
      LabelWords count label words → LabelsWords (label.value + 1) labels later →
      LabelsWords count (label :: labels) (words ++ ofTerminal .comma :: later)

inductive FieldsWords : List TypedField → List Word → Prop where
  | nil : FieldsWords [] []
  | cons {name first : String} {ref : TypeRef} {fields : List TypedField}
      {tail words : List Word} : IsIdentifier name → RefWords ref first tail →
      FieldsWords fields words →
      FieldsWords (⟨name, ref⟩ :: fields)
        (Word.name name :: ofTerminal .colon :: Word.name first :: tail ++
          ofTerminal .semicolon :: words)

def formWord : FieldsForm → Word
  | .unit => ofTerminal .unit
  | .struct => ofTerminal .struct

/-- The words that would be read as the start of another body than an alias. -/
def bodyKeywords : List String := ["enum", "unit", "struct"]

inductive BodyWords : Body → List Word → Prop where
  | enum {labels : List EnumLabel} {words : List Word} : LabelsWords 0 labels words →
      BodyWords (.enum labels)
        (ofTerminal .enum :: ofTerminal .leftBrace :: words ++ [ofTerminal .rightBrace])
  | fields {form : FieldsForm} {fields : List TypedField} {words : List Word} :
      FieldsWords fields words →
      BodyWords (.fields form fields)
        (formWord form :: ofTerminal .leftBrace :: words ++ [ofTerminal .rightBrace])
  | alias {target : TypeRef} {first : String} {tail : List Word} : RefWords target first tail →
      first ∉ bodyKeywords → BodyWords (.alias target) (Word.name first :: tail)

/-- The words of a linkage: a declaration is private if it does not say so. -/
inductive LinkageWords : Linkage → List Word → Prop where
  | unsaid : LinkageWords .internal []
  | internal : LinkageWords .internal [ofTerminal .privateWord]
  | external : LinkageWords .external [ofTerminal .publicWord]

inductive ItemWords : Item → List Word → Prop where
  | imported {name : String} : IsIdentifier name →
      ItemWords (.imported name)
        [ofTerminal .importWord, Word.name name, ofTerminal .semicolon]
  | constant {linkage : Linkage} {name literal : String} {value : Int} {words : List Word} :
      LinkageWords linkage words → IsIdentifier name → IsLiteral literal value →
      ItemWords (.constant linkage name value)
        (words ++ [ofTerminal .const, Word.name name, ofTerminal .equal, Word.integer literal,
          ofTerminal .semicolon])
  | type {linkage : Linkage} {name : String} {body : Body} {words inner : List Word} :
      LinkageWords linkage words → IsIdentifier name → BodyWords body inner →
      ItemWords (.type linkage name body)
        (words ++ ofTerminal .type :: Word.name name :: ofTerminal .equal :: inner ++
          [ofTerminal .semicolon])

inductive ItemsWords : List Item → List Word → Prop where
  | nil : ItemsWords [] []
  | cons {item : Item} {items : List Item} {words later : List Word} : ItemWords item words →
      ItemsWords items later → ItemsWords (item :: items) (words ++ later)

theorem FieldsWords.append {fields others : List TypedField} {words more : List Word}
    (fieldsWords : FieldsWords fields words) (otherWords : FieldsWords others more) :
    FieldsWords (fields ++ others) (words ++ more) := by
  induction fieldsWords with
  | nil => exact otherWords
  | cons named refWords _ ih => simpa using FieldsWords.cons named refWords ih

theorem ItemsWords.append {items others : List Item} {words more : List Word}
    (itemsWords : ItemsWords items words) (otherWords : ItemsWords others more) :
    ItemsWords (items ++ others) (words ++ more) := by
  induction itemsWords with
  | nil => exact otherWords
  | cons itemWords _ ih =>
    rw [List.cons_append, List.append_assoc]
    exact .cons itemWords ih

inductive Words : ModuleTree → List Word → Prop where
  | module {name : String} {items : List Item} {words : List Word} : IsIdentifier name →
      ItemsWords items words →
      Words ⟨name, items⟩
        (ofTerminal .module :: Word.name name :: ofTerminal .semicolon :: words)

/-- A text of a tree: its words, with layout between them. -/
def IsText (tree : ModuleTree) (text : List Char) : Prop :=
  ∃ words, tree.Words words ∧ Spaced false words text

/-! ## What is written of a tree -/

/-- A label as written has the name of a label, and its value or else the count. -/
structure LabelSays (count : Int) (written : WrittenLabel) (label : EnumLabel) : Prop where
  name : written.name = label.name
  value : match written.literal with
    | none => label.value = count
    | some literal => IsLiteral literal label.value

inductive LabelsSay : Int → List WrittenLabel → List EnumLabel → Prop where
  | nil {count : Int} : LabelsSay count [] []
  | cons {count : Int} {written : WrittenLabel} {label : EnumLabel} {rest : List WrittenLabel}
      {labels : List EnumLabel} : LabelSays count written label →
      LabelsSay (label.value + 1) rest labels → LabelsSay count (written :: rest) (label :: labels)

def fieldSaid (written : WrittenField) : TypedField :=
  ⟨written.name, written.ref⟩

inductive BodySays : WrittenBody → Body → Prop where
  | enum {written : List WrittenLabel} {labels : List EnumLabel} : LabelsSay 0 written labels →
      BodySays (.enum written) (.enum labels)
  | fields (form : FieldsForm) (written : List WrittenField) :
      BodySays (.fields form written) (.fields form (written.map fieldSaid))
  | alias (target : TypeRef) : BodySays (.alias target) (.alias target)

inductive ItemSays : WrittenItem → Item → Prop where
  | imported (position : Position) (name : String) :
      ItemSays (.imported position name) (.imported name)
  | constant {heading : Heading} {name literal : String} {value : Int} : IsLiteral literal value →
      ItemSays (.constant heading name literal) (.constant heading.linkage name value)
  | type {heading : Heading} {name : String} {written : WrittenBody} {body : Body} :
      BodySays written body → ItemSays (.type heading name written) (.type heading.linkage name body)

/-- A module as written says what a tree says. -/
structure Says (written : WrittenModule) (tree : ModuleTree) : Prop where
  name : written.name = tree.name
  items : List.Forall₂ ItemSays written.items tree.items

end ModuleTree

end WireModules
