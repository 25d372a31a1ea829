import WireModules.Program.Basic
import WireModules.Support
import WireModules.Types.Name

/-!
# The prelude

The prelude is the module that every compilation starts with. It is in no file: it is written out
here, and is what its text denotes.
-/

set_option autoImplicit false

namespace WireModules

namespace Support

def preludeText : String :=
  "\nmodule weft;\n\n" ++
  "public type Byte = uint8;\n" ++
  "public type Port = uint16;\n" ++
  "public type ByteOrder = enum \x7b Little, Big, Network \x7d;\n"

def preludeType (name : String) (line : Nat) (kind : TypeKind) (labels : List EnumLabel)
    (target : Option TypeRef) : Decl :=
  .type {
    name
    position := ⟨line, 1⟩
    linkage := .external
    definition := { kind, name := qualify preludeId name, labels, target } }

/-- The prelude: a byte, a port and the byte orders. -/
def prelude : Module where
  name := preludeId
  position := ⟨2, 1⟩
  decls :=
    [preludeType "Byte" 4 .alias [] (some { name := "uint8" }),
      preludeType "Port" 5 .alias [] (some { name := "uint16" }),
      preludeType "ByteOrder" 6 .enum [⟨"Little", 0⟩, ⟨"Big", 1⟩, ⟨"Network", 2⟩] none]

theorem ofText_preludeText : (Module.ofText preludeText.toList).toOption = some prelude := by
  decide +kernel

end Support

def ProgramUnit.prelude : ProgramUnit where
  moduleId := Support.preludeId
  path := none
  extension := ".weft"
  module := Support.prelude

end WireModules
