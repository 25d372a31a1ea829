import WireModules.Module.Grammar
import WireModules.Report.Diagnostic
import WireModules.Text.Decimal
import WireModules.Types.Definition

/-!
# Modules

A module is its name and its declarations in order. A module is made from a module as written by
reading its integer literals and checking that type and constant names, the fields of each type
and the labels of each enum are distinct. Defects are found in the order of the text; a literal
that is too long to be read is no defect of the module but ends the reading.
-/

set_option autoImplicit false

namespace WireModules

/-- What a declaration is: a struct or an alias, an enum, a unit, or none of these. -/
inductive DeclKind where
  | type
  | enum
  | unit
  | other
deriving DecidableEq, Repr

def DeclKind.label : DeclKind → String
  | .type => "type"
  | .enum => "enum"
  | .unit => "unit"
  | .other => "other"

structure PlacedField where
  name : String
  ref : TypeRef
  position : Position
deriving DecidableEq

/-- A declared type: its definition as written and, once the program is resolved, its resolved
definition. -/
structure TypeDecl where
  name : String
  position : Position
  linkage : Linkage
  definition : TypeDef
  fields : List PlacedField := []
  resolved : Option TypeDef := none
deriving DecidableEq

namespace TypeDecl

def kind (decl : TypeDecl) : DeclKind :=
  match decl.definition.kind with
  | .enum => .enum
  | .unit => .unit
  | _ => .type

end TypeDecl

inductive Decl where
  | imported (name : String) (position : Position)
  | constant (name : String) (position : Position) (linkage : Linkage) (value : Int)
  | type (decl : TypeDecl)
deriving DecidableEq

namespace Decl

def name : Decl → String
  | .imported name _ => name
  | .constant name _ _ _ => name
  | .type decl => decl.name

def position : Decl → Position
  | .imported _ position => position
  | .constant _ position _ _ => position
  | .type decl => decl.position

def linkage : Decl → Linkage
  | .imported _ _ => .internal
  | .constant _ _ linkage _ => linkage
  | .type decl => decl.linkage

def kind : Decl → DeclKind
  | .type decl => decl.kind
  | _ => .other

def fields : Decl → List PlacedField
  | .type decl => decl.fields
  | _ => []

/-- The name that no other declaration of the module may have; an import claims none. -/
def claimedName? : Decl → Option String
  | .imported _ _ => none
  | .constant name _ _ _ => some name
  | .type decl => some decl.name

end Decl

structure Module where
  name : String
  position : Position
  decls : List Decl
deriving DecidableEq

structure Import where
  name : String
  position : Position
deriving DecidableEq, Repr

inductive ModuleNode where
  | root (module : Module)
  | decl (decl : Decl)
  | field (field : PlacedField)

namespace Module

def imports (module : Module) : List Import :=
  module.decls.filterMap fun
    | .imported name position => some ⟨name, position⟩
    | _ => none

def declaredTypes (module : Module) : List TypeDecl :=
  module.decls.filterMap fun
    | .type decl => some decl
    | _ => none

/-- Every node once, each before the nodes below it. -/
def nodes (module : Module) : List ModuleNode :=
  .root module ::
    module.decls.flatMap fun decl => .decl decl :: decl.fields.map .field

end Module

inductive ModuleDefect where
  | duplicateDecl (name module : String) (position : Position)
  | duplicateLabel (name : String) (position : Position)
  | duplicateField (name type : String) (position : Position)
deriving DecidableEq, Repr

namespace ModuleDefect

def position : ModuleDefect → Position
  | .duplicateDecl _ _ position => position
  | .duplicateLabel _ position => position
  | .duplicateField _ _ position => position

def message : ModuleDefect → String
  | .duplicateDecl name module _ =>
    "duplicate declaration of '" ++ name ++ "' in module '" ++ module ++ "'"
  | .duplicateLabel name _ => "duplicate enum label '" ++ name ++ "'"
  | .duplicateField name type _ => "duplicate field '" ++ name ++ "' in type '" ++ type ++ "'"

end ModuleDefect

inductive ModuleError where
  | rejected (rejection : Rejection)
  | defective (defect : ModuleDefect)
  | tooLong (refusal : Text.Decimal.TooLong)
deriving DecidableEq, Repr

namespace WrittenModule

def readLiteral (literal : String) : Except ModuleError Int :=
  (Text.Decimal.read literal).mapError .tooLong

/-- The labels of an enum. A label without a written value has the value after the one before it,
and the first label has zero. -/
def buildLabels (seen : List String) (next : Int) :
    List WrittenLabel → Except ModuleError (List EnumLabel)
  | [] => .ok []
  | label :: rest => do
    let value ← label.literal.elim (.ok next) readLiteral
    if seen.contains label.name then
      throw (.defective (.duplicateLabel label.name label.position))
    let labels ← buildLabels (label.name :: seen) (value + 1) rest
    return ⟨label.name, value⟩ :: labels

/-- The first field whose name an earlier field has. -/
def firstRepeated? (seen : List String) : List WrittenField → Option WrittenField
  | [] => none
  | field :: rest =>
    if seen.contains field.name then some field else firstRepeated? (field.name :: seen) rest

def FieldsForm.kind : FieldsForm → TypeKind
  | .unit => .unit
  | .struct => .struct

def buildType (module : String) (heading : Heading) (name : String) :
    WrittenBody → Except ModuleError TypeDecl
  | .enum written => do
    let labels ← buildLabels [] 0 written
    return {
      name
      position := heading.position
      linkage := heading.linkage
      definition := { kind := .enum, name := qualify module name, labels } }
  | .fields form written =>
    match firstRepeated? [] written with
    | some field => .error (.defective (.duplicateField field.name name field.position))
    | none =>
      .ok {
        name
        position := heading.position
        linkage := heading.linkage
        definition :=
          { kind := FieldsForm.kind form
            name := qualify module name
            fields := written.map fun field => ⟨field.name, field.ref⟩ }
        fields := written.map fun field => ⟨field.name, field.ref, field.position⟩ }
  | .alias target =>
    .ok {
      name
      position := heading.position
      linkage := heading.linkage
      definition := { kind := .alias, name := qualify module name, target := some target } }

def buildDecl (module : String) : WrittenItem → Except ModuleError Decl
  | .imported position name => .ok (.imported name position)
  | .constant heading name literal => do
    let value ← readLiteral literal
    return .constant name heading.position heading.linkage value
  | .type heading name body => do
    let decl ← buildType module heading name body
    return .type decl

/-- The declarations of a module; `seen` are the names that earlier declarations claim. -/
def buildDecls (module : String) (seen : List String) :
    List WrittenItem → Except ModuleError (List Decl)
  | [] => .ok []
  | item :: rest => do
    let decl ← buildDecl module item
    match decl.claimedName? with
    | none =>
      let decls ← buildDecls module seen rest
      return decl :: decls
    | some name =>
      if seen.contains name then
        throw (.defective (.duplicateDecl name module decl.position))
      let decls ← buildDecls module (name :: seen) rest
      return decl :: decls

def build (written : WrittenModule) : Except ModuleError Module := do
  let decls ← buildDecls written.name [] written.items
  return ⟨written.name, written.position, decls⟩

end WrittenModule

def Module.ofText (text : List Char) : Except ModuleError Module :=
  match WrittenModule.read text with
  | .error rejection => .error (.rejected rejection)
  | .ok written => written.build

/-- The outcome of reading a module from a source: the module, or the one diagnostic that says
why there is none. -/
abbrev ModuleReading := Except Diagnostic Module

namespace Module

def parserDiagnostic (message : String) (span : Span) : Diagnostic :=
  { message, phase := some "parser", span }

/-- Read a module from a text; `file` is what diagnostics name as the place. -/
def parse (text : List Char) (file : Option String) :
    Except Text.Decimal.TooLong ModuleReading :=
  match ofText text with
  | .ok module => .ok (.ok module)
  | .error (.rejected rejection) =>
    .ok (.error (parserDiagnostic rejection.message
      { file
        line := some rejection.position.line
        column := some rejection.position.column }))
  | .error (.defective defect) =>
    .ok (.error (parserDiagnostic defect.message (.ofPosition defect.position file)))
  | .error (.tooLong refusal) => .error refusal

end Module

end WireModules
