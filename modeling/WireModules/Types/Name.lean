/-!
# Names of types

A type is known outside its module by its qualified name, the module's name and its own joined
by `::`. The builtin types have plain names and can be named without an import.
-/

set_option autoImplicit false

namespace WireModules

def scopeSeparator : String := "::"

def qualify (moduleId name : String) : String :=
  moduleId ++ scopeSeparator ++ name

/-- Cut a name, given last character first, at its last separator: what follows the separator and
what precedes it, both last character first. -/
def cutAtScope? : List Char → Option (List Char × List Char)
  | [] => none
  | ':' :: ':' :: before => some ([], before)
  | char :: rest => (cutAtScope? rest).map fun (after, before) => (char :: after, before)

/-- The module part of a name, if it has one, and the part after its last separator. -/
def splitAtScope (name : String) : Option String × String :=
  match cutAtScope? name.toList.reverse with
  | none => (none, name)
  | some (after, before) =>
    (some (String.ofList before.reverse), String.ofList after.reverse)

def builtinScalars : List String :=
  ["bool", "bytes", "string", "real", "int8", "int16", "int32", "int64",
    "uint8", "uint16", "uint32", "uint64"]

def isBuiltinScalar (name : String) : Bool :=
  builtinScalars.contains name

def genericArity? (name : String) : Option Nat :=
  if name = "vector" then some 1 else none

end WireModules
