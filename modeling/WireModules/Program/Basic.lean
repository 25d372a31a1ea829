import WireModules.Module.Basic
import WireModules.Path

/-!
# Programs

A program is the modules that are compiled together and the inputs that are only handed to the
linker. A module that stands in no file has no path.
-/

set_option autoImplicit false

namespace WireModules

/-- A module of a program: the name it goes by, the file it was read from and the file's
extension. -/
structure ProgramUnit where
  moduleId : String
  path : Option Path
  extension : String
  module : Module
deriving DecidableEq

namespace ProgramUnit

def file (unit : ProgramUnit) : Option String :=
  unit.path.map toString

def hasNoFile (unit : ProgramUnit) : Bool :=
  unit.path.isNone

end ProgramUnit

structure Program where
  units : List ProgramUnit := []
  linkInputs : List Path := []
deriving DecidableEq

def Program.unit? (program : Program) (moduleId : String) : Option ProgramUnit :=
  program.units.reverse.find? fun unit => unit.moduleId = moduleId

end WireModules
