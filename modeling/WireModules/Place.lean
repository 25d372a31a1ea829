import WireModules.Path

/-!
# Places

A place is what an option names: a path, or nowhere, if what was given names no path. Nowhere keeps
its turn in a list of places and is shown as an empty list, but nothing can be looked for or
written there.
-/

set_option autoImplicit false

namespace WireModules

inductive Place where
  | path (path : Path)
  | nowhere
deriving DecidableEq, Repr

/-- Why a place is refused, whatever files there are. -/
inductive PlaceError where
  | searchNowhere
  | outputNowhere
  | nullCharacter
deriving DecidableEq, Repr

def PlaceError.message : PlaceError → String
  | .searchNowhere => "expected str, bytes or os.PathLike object, not list"
  | .outputNowhere => "'list' object has no attribute 'write_text'"
  | .nullCharacter => "embedded null byte"

namespace Place

protected def toString : Place → String
  | .path named => toString named
  | .nowhere => "[]"

instance : ToString Place := ⟨Place.toString⟩

def path? : Place → Option Path
  | .path named => some named
  | .nowhere => none

end Place

end WireModules
