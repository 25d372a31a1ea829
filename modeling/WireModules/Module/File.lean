import WireModules.Fault
import WireModules.Module.Basic
import WireModules.Source

/-!
# Module files
-/

set_option autoImplicit false

namespace WireModules

def Module.load (files : FileSystem) (path : Path) : Except Fault ModuleReading :=
  let file := some (toString path)
  if path.hasNull then .error (.place .nullCharacter)
  else
    match files.readSource path with
    | .error error => .ok (.error (parserDiagnostic (error.message path) { file }))
    | .ok text => (Module.parse text file).mapError .tooLong

end WireModules
