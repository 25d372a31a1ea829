import WireModules.Place

/-!
# Options of a run
-/

set_option autoImplicit false

namespace WireModules

structure Options where
  bundled : Path
  libraryPaths : List Place := []
  /-- Make it an error when two files declare a type of one name. -/
  strictTypeNames : Bool := false
  autoImportRuntime : Bool := true

namespace Options

/-- Nothing is searched but the working directory, and the runtime support module is left out. -/
def plain : Options where
  bundled := .here
  autoImportRuntime := false

/-- The environment variable that lists more library directories, with colons between them. -/
def environmentVariable : String := "WEFT_PATH"

/-- Add the directories of an environment entry after those already given. -/
def extend (options : Options) (entry : String) : Options :=
  let extra := (Text.segments ':' entry.toList).filter fun directory => !directory.isEmpty
  { options with
    libraryPaths :=
      options.libraryPaths ++
        extra.map fun directory => .path (.ofString (String.ofList directory)) }

/-- The places to search, in order; the bundled directory is last unless it is given. -/
def searchOrder (options : Options) : List Place :=
  if options.libraryPaths.contains (.path options.bundled) then options.libraryPaths
  else options.libraryPaths ++ [.path options.bundled]

end Options

end WireModules
