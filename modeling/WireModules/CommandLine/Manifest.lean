import WireModules.Glue.Binder
import WireModules.Program.Basic

/-!
# Manifests

A manifest lists what a run recorded: the types, what is exported to the host, the analyzers and
the inputs for the linker.
-/

set_option autoImplicit false

namespace WireModules

structure Manifest where
  types : List TypeRecord
  exports : List (TypeRecord × String)
  analyzers : List BoundAnalyzer
  linkInputs : List Path

def BoundAnalyzer.toJson (binding : BoundAnalyzer) : Json :=
  .object
    [("name", .string binding.name),
      ("transport", .string binding.transport),
      ("unit", .string binding.unit),
      ("ports", .array (binding.ports.map .integer))]

namespace Manifest

def toJson (manifest : Manifest) : Json :=
  .object
    [("types", .array (manifest.types.map TypeRecord.toJson)),
      ("exports",
        .array (manifest.exports.map fun (info, host) =>
          .object [("id", .string info.id), ("name", .string host)])),
      ("analyzers", .array (manifest.analyzers.map BoundAnalyzer.toJson)),
      ("link_inputs", .array (manifest.linkInputs.map fun path => .string (toString path)))]

def content (manifest : Manifest) : List UInt8 :=
  (manifest.toJson.indented ++ "\n").toUTF8.toList

end Manifest

end WireModules
