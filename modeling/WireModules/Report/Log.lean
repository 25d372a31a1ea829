/-!
# Log records

Each part of a run writes records under a name of its own.
-/

set_option autoImplicit false

namespace WireModules

inductive LogLevel where
  | debug
  | warning
  | error
deriving DecidableEq, Repr

namespace LogLevel

def label : LogLevel → String
  | .debug => "DEBUG"
  | .warning => "WARNING"
  | .error => "ERROR"

def weight : LogLevel → Nat
  | .debug => 0
  | .warning => 1
  | .error => 2

end LogLevel

inductive LogSource where
  | session
  | compiler
  | registry
  | glue
  | runtime
deriving DecidableEq, Repr

def LogSource.name : LogSource → String
  | .session => "weft.weftc.driver"
  | .compiler => "weft.weftc.compiler.compiler"
  | .registry => "weft.weftc.registry"
  | .glue => "weft.glue.glue_compiler"
  | .runtime => "weft.weftc.runtime"

structure LogRecord where
  level : LogLevel
  source : LogSource
  text : String
deriving DecidableEq, Repr

namespace LogRecord

def reaches (record : LogRecord) (level : LogLevel) : Bool :=
  level.weight ≤ record.level.weight

def line (record : LogRecord) : String :=
  "[" ++ record.source.name ++ "] " ++ record.level.label ++ ": " ++ record.text

end LogRecord

end WireModules
