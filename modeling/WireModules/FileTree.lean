import WireModules.Path

/-!
# File trees

A file tree holds plain files and directories. A path is located one component at a time: every
component but the last has to denote a directory, also when `..` follows it. A name is not looked up
if it is too long, nor in a directory that is closed to the user; so that a path that leads nowhere
is one error, and a path that is not followed to its end is another.
-/

set_option autoImplicit false

namespace WireModules

inductive FileTree where
  | file (content : List UInt8)
  | directory (entries : List (String × FileTree))

/-- A place in a tree: the names that lead to it from the root. -/
abbrev Location := List String

inductive FileError where
  | missing
  | isDirectory
  | notDirectory
  | nameTooLong
  | permissionDenied
deriving DecidableEq, Repr

namespace FileError

def reason : FileError → String
  | .missing => "No such file or directory"
  | .isDirectory => "Is a directory"
  | .notDirectory => "Not a directory"
  | .nameTooLong => "File name too long"
  | .permissionDenied => "Permission denied"

def number : FileError → Nat
  | .missing => 2
  | .permissionDenied => 13
  | .notDirectory => 20
  | .isDirectory => 21
  | .nameTooLong => 36

/-- Whether an error tells that nothing stands at a path. -/
def isAbsence : FileError → Bool
  | .missing | .notDirectory => true
  | _ => false

end FileError

namespace FileTree

def empty : FileTree := .directory []

def entries : FileTree → List (String × FileTree)
  | .file _ => []
  | .directory entries => entries

def isDirectory : FileTree → Bool
  | .file _ => false
  | .directory _ => true

mutual

/-- The number of files and directories in a tree, the tree itself counted. -/
def size : FileTree → Nat
  | .file _ => 1
  | .directory entries => sizeOfEntries entries + 1

def sizeOfEntries : List (String × FileTree) → Nat
  | [] => 0
  | (_, tree) :: rest => tree.size + sizeOfEntries rest

end

def find? : FileTree → Location → Option FileTree
  | tree, [] => some tree
  | tree, name :: rest =>
    match tree.entries.lookup name with
    | some child => child.find? rest
    | none => none
termination_by structural _ location => location

/-- Put a tree under a name among entries, in the place of the entry that had the name. -/
def setEntry (name : String) (tree : FileTree) :
    List (String × FileTree) → List (String × FileTree)
  | [] => [(name, tree)]
  | entry :: rest =>
    if entry.1 = name then (name, tree) :: rest else entry :: setEntry name tree rest

/-- Put a tree at a location, with the directories that lead to it. -/
def insert : FileTree → Location → FileTree → FileTree
  | _, [], subtree => subtree
  | tree, name :: rest, subtree =>
    let child := (tree.entries.lookup name).getD .empty
    .directory (setEntry name (child.insert rest subtree) tree.entries)
termination_by structural _ location => location

def remove : FileTree → Location → FileTree
  | tree, [] => tree
  | tree, [name] => .directory (tree.entries.filter fun entry => entry.1 ≠ name)
  | tree, name :: rest =>
    match tree.entries.lookup name with
    | some child => .directory (setEntry name (child.remove rest) tree.entries)
    | none => tree
termination_by structural _ location => location

end FileTree

/-- A file tree as a user has it. In a directory that is closed to the user nothing can be looked up,
and a file that is closed can be neither read nor written. -/
structure FileSystem where
  root : FileTree
  workingDirectory : Location
  closed : List Location := []

namespace FileSystem

/-- Entries of a root directory in which one works. Nothing is closed. -/
def ofEntries (entries : List (String × FileTree)) : FileSystem where
  root := .directory entries
  workingDirectory := []

/-- The bytes that a name may have. -/
def nameLimit : Nat := 255

def origin (files : FileSystem) (path : Path) : Location :=
  if path.isAbsolute then [] else files.workingDirectory

def isClosed (files : FileSystem) (location : Location) : Bool :=
  files.closed.contains location

/-- Why a name is not looked up in a directory, if it is not. -/
def refusal? (files : FileSystem) (directory : Location) (name : String) : Option FileError :=
  if files.isClosed directory then some .permissionDenied
  else if nameLimit < name.utf8ByteSize then some .nameTooLong
  else none

/-- Where a component leads from a directory; above the root there is the root. -/
def onward (directory : Location) (component : String) : Location :=
  if component = Path.up then directory.dropLast else directory ++ [component]

def follow (files : FileSystem) : Location → List String → Except FileError Location
  | location, [] =>
    match files.root.find? location with
    | some _ => .ok location
    | none => .error .missing
  | location, component :: rest =>
    match files.root.find? location with
    | none => .error .missing
    | some (.file _) => .error .notDirectory
    | some (.directory _) =>
      match files.refusal? location component with
      | some error => .error error
      | none => files.follow (onward location component) rest

def locate (files : FileSystem) (path : Path) : Except FileError Location :=
  files.follow (files.origin path) path.components

/-- Look a path up. None is found that holds a null character or that is too long as a whole. -/
def lookUp (files : FileSystem) (path : Path) : Except FileError Location :=
  if path.hasNull then .error .missing
  else if path.isTooLong then .error .nameTooLong
  else files.locate path

def read (files : FileSystem) (path : Path) : Except FileError (List UInt8) :=
  match files.lookUp path with
  | .error reason => .error reason
  | .ok location =>
    if files.isClosed location then .error .permissionDenied
    else
      match files.root.find? location with
      | some (.file content) => .ok content
      | some (.directory _) => .error .isDirectory
      | none => .error .missing

/-- Where a file can be written, which may be new; the directory it stands in has to exist. -/
def writable (files : FileSystem) (path : Path) : Except FileError Location :=
  match path.components.getLast? with
  | none => .error .isDirectory
  | some name =>
    if name = Path.up then
      match files.locate path with
      | .error reason => .error reason
      | .ok _ => .error .isDirectory
    else
      match files.locate path.parent with
      | .error reason => .error reason
      | .ok location =>
        match files.root.find? location, files.refusal? location name,
          files.root.find? (location ++ [name]) with
        | some (.file _), _, _ => .error .notDirectory
        | _, some reason, _ => .error reason
        | _, _, some (.directory _) => .error .isDirectory
        | _, _, _ =>
          if files.isClosed (location ++ [name]) then .error .permissionDenied
          else .ok (location ++ [name])

def write (files : FileSystem) (path : Path) (content : List UInt8) :
    Except FileError FileSystem :=
  if path.isTooLong then .error .nameTooLong
  else
    match files.writable path with
    | .error reason => .error reason
    | .ok location => .ok { files with root := files.root.insert location (.file content) }

end FileSystem

end WireModules
