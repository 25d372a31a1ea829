import WireModules.Input

/-!
# The queue of a compilation

Inputs wait in a queue, in normal form and without repetition, until they are compiled together.
-/

set_option autoImplicit false

namespace WireModules

structure Queue where
  paths : List Path := []

namespace Queue

def isEmpty (queue : Queue) : Bool :=
  queue.paths.isEmpty

/-- Queue a plain file that is no glue file; queueing it again changes nothing. -/
def add (queue : Queue) (files : FileSystem) (path : Path) : Except Fault Queue := do
  let path := path.normalize
  match path.inputKind? with
  | none | some .glue => throw (.failure (.notACompilerInput (toString path)))
  | some _ =>
    if !(← files.isFile path) then throw (.failure (.notARegularFile (toString path)))
    else if queue.paths.contains path then return queue
    else return ⟨queue.paths ++ [path]⟩

end Queue

end WireModules
