import WireModules.Module.Basic
import WireModules.Path

/-!
# Records of declared types
-/

set_option autoImplicit false

namespace WireModules

structure TypeRecord where
  id : String
  type : TypeDef
  linkage : Linkage
  isResolved : Bool
  moduleId : String
  modulePath : Option Path
  location : Span := {}
  declKind : DeclKind := .type
deriving DecidableEq

def TypeRecord.toJson (info : TypeRecord) : Json :=
  .object
    [("id", .string info.id),
      ("kind", .string info.type.kind.label),
      ("linkage", .string info.linkage.label),
      ("is_resolved", .boolean info.isResolved),
      ("module_id", .string info.moduleId),
      ("module_path", .ofString? (info.modulePath.map toString)),
      ("line", .ofInt? info.location.line)]

end WireModules
