import WireModules.Types.Ref

/-!
# Definitions of types

A definition is what a module declares under a qualified name. Which of its parts carries meaning
depends on its kind: fields for units and structs, labels for enums, a target for aliases.
-/

set_option autoImplicit false

namespace WireModules

structure TypedField where
  name : String
  ref : TypeRef
deriving DecidableEq

structure EnumLabel where
  name : String
  value : Int
deriving DecidableEq, Repr

structure TypeDef where
  kind : TypeKind
  name : String
  fields : List TypedField := []
  labels : List EnumLabel := []
  target : Option TypeRef := none
deriving DecidableEq

namespace TypeDef

/-- Whether the type is of a kind; an alias is also of the kind that its target denotes. -/
def isOfKind (definition : TypeDef) (kind : TypeKind) : Bool :=
  definition.kind = kind ||
    (definition.kind = .alias &&
      match definition.target with
      | some target => target.kind = some kind
      | none => false)

/-- The references of a definition, without their arguments' own: fields, then the target. -/
def refs (definition : TypeDef) : List TypeRef :=
  definition.fields.map TypedField.ref ++ definition.target.toList

def isResolved (definition : TypeDef) : Bool :=
  definition.refs.all TypeRef.isResolved

def replaceRefs (replace : TypeRef → TypeRef) (definition : TypeDef) : TypeDef :=
  { definition with
    fields := definition.fields.map fun field => { field with ref := replace field.ref }
    target := definition.target.map replace }

def label? (definition : TypeDef) (name : String) : Option EnumLabel :=
  definition.labels.find? fun label => label.name = name

theorem refs_replaceRefs (replace : TypeRef → TypeRef) (definition : TypeDef) :
    (definition.replaceRefs replace).refs = definition.refs.map replace := by
  cases target : definition.target <;> simp [refs, replaceRefs, target, Function.comp_def]

end TypeDef

end WireModules
