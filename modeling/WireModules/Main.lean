import WireModules.CommandLine.Run

/-!
# The command line tool

The tool takes a snapshot of its working directory, of the directories it is told to search and of
the directories of its inputs, runs on the snapshot, prints what the run printed and writes the
manifest. The bundled directory stands beside the program; its files are part of the program.
-/

set_option autoImplicit false

namespace WireModules.CommandLine

def snapshotDepth : Nat := 32

/-- What stands at a place. Only inputs are read; other files matter by being there. -/
def snapshotOf : Nat → String → IO FileTree
  | 0, _ => return .empty
  | depth + 1, place => do
    let real ← IO.FS.realPath place
    let entries? ← (some <$> real.readDir).catchExceptions fun _ => return none
    match entries? with
    | none =>
      if (Path.ofString place).inputKind?.isNone then return .file []
      else return .file (← IO.FS.readBinFile place).toList
    | some entries =>
      let mut tree := FileTree.empty
      for entry in entries do
        let child? ← (some <$> snapshotOf depth (place ++ "/" ++ entry.fileName)).catchExceptions
          fun _ => return none
        if let some child := child? then
          tree := tree.insert [entry.fileName] child
      return tree

def addSnapshot (tree : FileTree) (directory : Path) : IO FileTree := do
  let child? ← (some <$> snapshotOf snapshotDepth (toString directory)).catchExceptions
    fun _ => return none
  return (child?.map fun child => tree.insert directory.normalize.components child).getD tree

def directoriesOf (here : Path) (words : List String) (options : Options) : List Path :=
  let inputs :=
    match Arguments.ofWords words with
    | .ok arguments => arguments.inputs.map Path.parent
    | .error _ => []
  let directories := options.libraryPaths.filterMap Place.path? ++ inputs
  here :: directories.map fun directory => here / directory

def addBundled (tree : FileTree) (bundled : Path) : FileTree :=
  Support.bundledFiles.foldl (fun tree (name, text) =>
    tree.insert ((bundled / .ofString name).components) (.file text.toUTF8.toList)) tree

def saveManifest (words : List String) (outcome : Outcome) : IO Unit := do
  let .ok arguments := Arguments.ofWords words | return
  let some (.path path) := arguments.output | return
  let .ok content := outcome.files.read path | return
  if outcome.status = 0 then
    IO.FS.writeBinFile (toString path) ⟨content.toArray⟩

end WireModules.CommandLine

open WireModules CommandLine in
def main (words : List String) : IO UInt32 := do
  let here := Path.ofString (toString (← IO.currentDir))
  let bundled := Path.ofString (toString (← IO.appDir)) / Path.ofString "lib"
  let entry ← IO.getEnv Options.environmentVariable
  let options :=
    match Arguments.ofWords words with
    | .ok arguments => optionsOf arguments bundled entry
    | .error _ => { bundled }
  let tree ← (directoriesOf here words options).foldlM addSnapshot FileTree.empty
  let files : FileSystem :=
    { root := addBundled tree bundled, workingDirectory := here.components }
  match run words bundled entry files with
  | .error fault =>
    (← IO.getStderr).putStrLn (toolName ++ ": " ++ fault.message)
    return 1
  | .ok outcome =>
    (← IO.getStdout).putStr outcome.output
    (← IO.getStderr).putStr outcome.errors
    saveManifest words outcome
    return outcome.status.toUInt32
