import WireModules.Text.Segments

/-!
# Paths

A path is an anchor and a list of components. Reading a path drops empty components and
components that are a single dot, and keeps `..` as a component: whether a path with `..` denotes
anything depends on the file tree. `normalize` collapses `..` lexically.
-/

set_option autoImplicit false

namespace WireModules

/-- Where a path starts: at the working directory, or at the root with one or two slashes. -/
inductive Anchor where
  | relative
  | root
  | doubleRoot
deriving DecidableEq, Repr

structure Path where
  anchor : Anchor
  components : List String
deriving DecidableEq, Repr

namespace Path

def up : String := ".."

def Anchor.slashes : Anchor → String
  | .relative => ""
  | .root => "/"
  | .doubleRoot => "//"

/-- The anchor that leading slashes stand for: three or more mean the same as one. -/
def anchorOf : List Char → Anchor
  | '/' :: '/' :: '/' :: _ => .root
  | '/' :: '/' :: _ => .doubleRoot
  | '/' :: _ => .root
  | _ => .relative

def isBlank (component : String) : Bool :=
  component = "" || component = "."

def ofString (text : String) : Path where
  anchor := anchorOf text.toList
  components :=
    ((Text.segments '/' text.toList).map String.ofList).filter fun component => !isBlank component

def here : Path := ⟨.relative, []⟩

protected def toString (path : Path) : String :=
  if path = here then "." else Anchor.slashes path.anchor ++ "/".intercalate path.components

instance : ToString Path := ⟨Path.toString⟩

def isAbsolute (path : Path) : Bool :=
  path.anchor ≠ .relative

/-- The second path seen from the first; an absolute second path stands alone. -/
def join (base path : Path) : Path :=
  if path.isAbsolute then path else ⟨base.anchor, base.components ++ path.components⟩

instance : HDiv Path Path Path := ⟨join⟩

/-- Whether a path holds a null character. No file has such a path, and none can be opened by it. -/
def hasNull (path : Path) : Bool :=
  path.components.any fun component => component.toList.contains '\x00'

/-- The bytes that a path may not reach as a whole. -/
def sizeLimit : Nat := 4096

def isTooLong (path : Path) : Bool :=
  sizeLimit ≤ (toString path).utf8ByteSize

def parent (path : Path) : Path :=
  ⟨path.anchor, path.components.dropLast⟩

def name (path : Path) : String :=
  path.components.getLast?.getD ""

/-- The extension of a file name from its last dot on; a dot that begins or ends the name begins
no extension. -/
def extensionOf (name : List Char) : List Char :=
  let tail := name.reverse.takeWhile (· ≠ '.')
  let before := (name.reverse.dropWhile (· ≠ '.')).drop 1
  if tail.isEmpty || before.isEmpty then [] else '.' :: tail.reverse

def suffix (path : Path) : String :=
  String.ofList (extensionOf path.name.toList)

/-- Add a component to components already collapsed, which are given last first: `..` takes back
a component that is not itself `..`, and disappears at the root. -/
def collapseOnto (anchor : Anchor) (collapsed : List String) (component : String) : List String :=
  if isBlank component then collapsed
  else if component ≠ up then component :: collapsed
  else
    match collapsed with
    | [] => if anchor = .relative then [up] else []
    | last :: before => if last = up then up :: collapsed else before

/-- The path with `..` collapsed against the component before it, without regard to what the
components denote. -/
def normalize (path : Path) : Path :=
  ⟨path.anchor, (path.components.foldl (collapseOnto path.anchor) []).reverse⟩

end Path

end WireModules
