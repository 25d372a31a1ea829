import WireModules.Program.Basic
import WireModules.Registry.Record
import WireModules.Support
import WireModules.Text.Quoted
import WireModules.Types.Name

/-!
# Types that a unit declares

A unit gives one record for every type it declares, in order, from the definitions as written or
from the resolved ones. Users see the types of units that were read from a source file and are no
support modules.
-/

set_option autoImplicit false

namespace WireModules

inductive ExtractError where
  | unresolved (name : String)
  /-- The definition goes by another name than the unit's name and the declaration's give. -/
  | misnamed (definition id : String)
deriving DecidableEq, Repr

def ExtractError.message : ExtractError → String
  | .unresolved name => name ++ ": missing resolved definition"
  | .misnamed definition id =>
    "(" ++ Text.quoted definition ++ ", " ++ Text.quoted id ++ ")"

namespace TypeDecl

def definitionFor (decl : TypeDecl) (resolved : Bool) : Except ExtractError TypeDef :=
  if resolved then
    match decl.resolved with
    | some definition => .ok definition
    | none => .error (.unresolved decl.name)
  else .ok decl.definition

def record (decl : TypeDecl) (unit : ProgramUnit) (resolved : Bool) :
    Except ExtractError TypeRecord :=
  match decl.definitionFor resolved with
  | .error error => .error error
  | .ok definition =>
    if definition.name = qualify unit.moduleId decl.name then
      .ok {
        id := definition.name
        type := definition
        linkage := decl.linkage
        isResolved := resolved
        moduleId := unit.moduleId
        modulePath := unit.path
        location := .ofPosition decl.position unit.file
        declKind := decl.kind }
    else .error (.misnamed definition.name (qualify unit.moduleId decl.name))

end TypeDecl

namespace ProgramUnit

def shownExtension : String := ".weft"

def isInternal (unit : ProgramUnit) : Bool :=
  Support.internalIds.contains unit.moduleId

def isUserVisible (unit : ProgramUnit) : Bool :=
  unit.extension = shownExtension && !unit.hasNoFile && !unit.isInternal

def recordsOf (unit : ProgramUnit) (resolved : Bool) :
    List TypeDecl → Except ExtractError (List TypeRecord)
  | [] => .ok []
  | decl :: rest => do
    let record ← decl.record unit resolved
    let records ← recordsOf unit resolved rest
    return record :: records

/-- The records of the types of a unit. Units in memory and support modules have none. -/
def records (unit : ProgramUnit) (resolved : Bool) : Except ExtractError (List TypeRecord) :=
  if unit.hasNoFile || unit.isInternal then .ok []
  else unit.recordsOf resolved unit.module.declaredTypes

end ProgramUnit

end WireModules
