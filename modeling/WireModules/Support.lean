/-!
# Support modules

Three modules belong to the tool itself: the prelude, which every compilation contains and which
is in no file; the runtime support module, which is loaded with every compilation unless that is
switched off; and the host support module, which a module has to import. The latter two stand as
files in the bundled library directory.
-/

set_option autoImplicit false

namespace WireModules.Support

def preludeId : String := "weft"

def runtimeId : String := "weft_rt"

def hostId : String := "host_rt"

def internalIds : List String := [preludeId, runtimeId, hostId]

def runtimeText : String :=
  "# Runtime support types available to every compilation as `weft_rt::...`.\n" ++
  "module weft_rt;\n\n" ++
  "public type Direction = enum \x7b Originator, Responder \x7d;\n" ++
  "public type ParseError = struct \x7b offset: uint64; reason: string; \x7d;\n" ++
  "public type Sink = unit \x7b data: bytes; \x7d;\n"

def hostText : String :=
  "# Host runtime support types; import with `import host_rt;`.\n" ++
  "module host_rt;\n\n" ++
  "public type Protocol = enum \x7b Unknown, TCP, UDP, ICMP \x7d;\n" ++
  "public type Connection = struct \x7b proto: Protocol; " ++
  "orig_port: weft::Port; resp_port: weft::Port; \x7d;\n"

def bundledFiles : List (String × String) :=
  [(runtimeId ++ ".weft", runtimeText), (hostId ++ ".weft", hostText)]

end WireModules.Support
