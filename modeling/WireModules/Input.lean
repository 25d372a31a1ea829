import WireModules.Fault
import WireModules.FileTree

/-!
# Inputs

The extension of an input decides what handles it. A requested input is looked for in a base
directory, then as it stands, then along the library directories. A search that comes to nowhere
before it finds anything goes no further, nor does one that comes to a path that cannot be looked up.
-/

set_option autoImplicit false

namespace WireModules

/-- What an input is: a glue file, a module's source, a module's intermediate form, a compiled
module or native code. -/
inductive InputKind where
  | glue
  | source
  | intermediate
  | precompiled
  | native
deriving DecidableEq, Repr

namespace InputKind

def label : InputKind → String
  | .glue => "glue"
  | .source => "source"
  | .intermediate => "ir"
  | .precompiled => "precompiled"
  | .native => "native"

/-- The kind that an extension stands for; capital letters make another extension. -/
def ofExtension? (extension : String) : Option InputKind :=
  match extension with
  | ".glue" => some .glue
  | ".weft" => some .source
  | ".wir" => some .intermediate
  | ".wiro" => some .precompiled
  | ".cc" => some .native
  | ".cxx" => some .native
  | _ => none

def isParsed : InputKind → Bool
  | .source | .intermediate => true
  | _ => false

end InputKind

namespace Path

def inputKind? (path : Path) : Option InputKind :=
  InputKind.ofExtension? path.suffix

def classify (path : Path) : Except Failure InputKind :=
  match path.inputKind? with
  | some kind => .ok kind
  | none => .error (.unsupportedInput (toString path))

end Path

namespace FileSystem

/-- What stands at a path, if anything does. -/
def standing (files : FileSystem) (path : Path) : Except Fault (Option FileTree) :=
  match files.lookUp path with
  | .ok location => .ok (files.root.find? location)
  | .error error => if error.isAbsence then .ok none else .error (.lookup path error)

def contains (files : FileSystem) (path : Path) : Except Fault Bool :=
  (files.standing path).map Option.isSome

def isFile (files : FileSystem) (path : Path) : Except Fault Bool :=
  (files.standing path).map (Option.any fun tree => !tree.isDirectory)

/-- The path as seen from the first place in which it exists. -/
def firstExisting (files : FileSystem) (path : Path) : List Place → Except Fault (Option Path)
  | [] => .ok none
  | .nowhere :: _ => .error (.place .searchNowhere)
  | .path directory :: rest => do
    if ← files.contains (directory / path) then return some (directory / path)
    else files.firstExisting path rest

/-- Where a request is looked for first: in the base directory if it holds the request. -/
def candidate (files : FileSystem) (requested : Path) (base : Option Path) : Except Fault Path :=
  match base with
  | none => .ok requested
  | some base => do
    if requested.isAbsolute then return requested
    else if ← files.contains (base / requested) then return base / requested
    else return requested

/-- The existing file or directory that a request stands for, in normal form. -/
def resolveInput (files : FileSystem) (requested : Path) (base : Option Path)
    (libraries : List Place) : Except Fault Path := do
  let candidate ← files.candidate requested base
  if ← files.contains candidate then return candidate.normalize
  else if requested.isAbsolute then throw (.failure (.inputNotFound (toString requested)))
  else
    match ← files.firstExisting requested libraries with
    | some found => return found.normalize
    | none => throw (.failure (.inputNotFound (toString requested)))

end FileSystem

end WireModules
