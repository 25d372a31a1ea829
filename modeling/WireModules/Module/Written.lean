import WireModules.Grammar.Reference
import WireModules.Types.Ref

/-!
# Modules as written

What the grammar of modules says of a text, before integer literals are read and before names are
checked to be unique: each item with the place where it starts.
-/

set_option autoImplicit false

namespace WireModules

inductive Linkage where
  | internal
  | external
deriving DecidableEq, Repr

def Linkage.label : Linkage → String
  | .internal => "private"
  | .external => "public"

structure WrittenLabel where
  name : String
  position : Position
  literal : Option String

structure WrittenField where
  name : String
  position : Position
  ref : TypeRef

/-- Whether a body with fields describes a wire format or a plain record. -/
inductive FieldsForm where
  | unit
  | struct
deriving DecidableEq, Repr

inductive WrittenBody where
  | enum (labels : List WrittenLabel)
  | fields (form : FieldsForm) (fields : List WrittenField)
  | alias (target : TypeRef)

/-- What a declaration starts with: its first token's position, and its linkage, which is private
unless it is written. -/
structure Heading where
  position : Position
  linkage : Linkage

inductive WrittenItem where
  | imported (position : Position) (name : String)
  | constant (heading : Heading) (name : String) (literal : String)
  | type (heading : Heading) (name : String) (body : WrittenBody)

structure WrittenModule where
  position : Position
  name : String
  items : List WrittenItem

end WireModules
