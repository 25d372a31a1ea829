import WireModules.Registry.Record
import WireModules.Report.Failure
import WireModules.Report.Log

/-!
# The registry of types

The registry keeps one record for every qualified name, in the order in which the names were first
recorded, and the list of public enums that are exported to the host without being asked for. A
record made before resolution never takes the place of one made after it. Records of one name from
two files collide; each pair of files is reported once for a name.
-/

set_option autoImplicit false

namespace WireModules

structure Collision where
  id : String
  first : Option Path
  second : Option Path
deriving DecidableEq, Repr

/-- Whether two collisions are about one name and the same two files in either order. -/
def Collision.same (first second : Collision) : Bool :=
  first.id = second.id &&
    ((first.first = second.first && first.second = second.second) ||
      (first.first = second.second && first.second = second.first))

structure Registry where
  strict : Bool
  types : List TypeRecord := []
  listedEnums : List TypeRecord := []
  collisions : List Collision := []

structure Recording where
  registry : Registry
  accepted : Bool
  log : List LogRecord

namespace Registry

def find? (registry : Registry) (id : String) : Option TypeRecord :=
  registry.types.find? fun info => info.id = id

def contains (registry : Registry) (id : String) : Bool :=
  (registry.find? id).isSome

/-- Put a record in the place of the record of its name, or at the end. -/
def putAmong (info : TypeRecord) : List TypeRecord → List TypeRecord
  | [] => [info]
  | first :: rest => if first.id = info.id then info :: rest else first :: putAmong info rest

def put (registry : Registry) (info : TypeRecord) : Registry :=
  { registry with types := putAmong info registry.types }

def shownPath : Option Path → String
  | some path => toString path
  | none => "None"

def collisionMessage (previous info : TypeRecord) : String :=
  "type '" ++ info.id ++ "' redefined by " ++ shownPath info.modulePath ++
    " (first defined in " ++ shownPath previous.modulePath ++ ")"

/-- Report the collision of a record with the one before it, unless it has been reported. In a
strict registry the report is a failure. -/
def collide (registry : Registry) (previous info : TypeRecord) :
    Except Failure (Registry × List LogRecord) :=
  let collision : Collision := ⟨info.id, previous.modulePath, info.modulePath⟩
  if registry.collisions.any collision.same then .ok (registry, [])
  else if registry.strict then
    .error (.typeNameCollision (collisionMessage previous info) (info.modulePath.map toString))
  else
    .ok ({ registry with collisions := registry.collisions ++ [collision] },
      [⟨.warning, .registry, collisionMessage previous info ++ "; later definition wins"⟩])

/-- What happens before a record may take the place of another: files that differ collide. -/
def meet (registry : Registry) (previous info : TypeRecord) :
    Except Failure (Registry × List LogRecord) :=
  if previous.modulePath = info.modulePath then .ok (registry, [])
  else registry.collide previous info

/-- Record a type. The record is dropped if a resolved record of its name is there and it is not
resolved itself. -/
def record (registry : Registry) (info : TypeRecord) : Except Failure Recording :=
  match registry.find? info.id with
  | none => .ok ⟨registry.put info, true, []⟩
  | some previous =>
    match registry.meet previous info with
    | .error failure => .error failure
    | .ok (registry, log) =>
      if previous.isResolved && !info.isResolved then
        .ok ⟨registry, false,
          log ++ [⟨.debug, .registry, "  keeping resolved record for '" ++ info.id ++ "'"⟩]⟩
      else .ok ⟨registry.put info, true, log⟩

/-- List an enum for export, once for every file. -/
def listEnum (registry : Registry) (info : TypeRecord) : Registry :=
  if registry.listedEnums.any fun listed =>
      listed.id = info.id && listed.modulePath = info.modulePath then registry
  else { registry with listedEnums := registry.listedEnums ++ [info] }

/-- The record of a name, which is of a given kind if one is given. -/
def lookup (registry : Registry) (id : String) (kind : Option TypeKind) :
    Except Failure TypeRecord :=
  match registry.find? id with
  | none => .error (.unknownType id)
  | some info =>
    if kind.all info.type.isOfKind then .ok info else .error (.wrongKind id)

def exportedTypes (registry : Registry) (exported : List String) : List TypeRecord :=
  registry.types.filter fun info =>
    exported.contains info.id || registry.listedEnums.any fun listed => listed.id = info.id

def clear (registry : Registry) : Registry :=
  { strict := registry.strict }

end Registry

end WireModules
