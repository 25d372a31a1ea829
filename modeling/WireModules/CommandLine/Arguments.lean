import WireModules.Place
import WireModules.Text.Digit
import WireModules.Text.Quoted

/-!
# Command line arguments

Arguments are options and inputs in any order, but the inputs have to stand together. A long
option may be shortened as long as it stays the only one that fits, and may have its value after
an equals sign; short options without a value may be written in one word, and a value may follow a
short option in its word, after an equals sign if the option begins the word. After `--` all
arguments are inputs.

Words are told apart first, so that a word that fits several options is refused before anything
else; then options take effect one after the other.
-/

set_option autoImplicit false

namespace WireModules.CommandLine

inductive Switch where
  | help
  | libraryPath
  | strictTypeNames
  | debug
  | json
  | output
  | printLibraryPath
  | version
deriving DecidableEq, Repr

namespace Switch

def all : List Switch :=
  [.help, .libraryPath, .strictTypeNames, .debug, .json, .output, .printLibraryPath, .version]

def spellings : Switch → List String
  | .help => ["-h", "--help"]
  | .libraryPath => ["-L", "--library-path"]
  | .strictTypeNames => ["--strict-type-names"]
  | .debug => ["-D", "--debug"]
  | .json => ["--json"]
  | .output => ["-o", "--output"]
  | .printLibraryPath => ["--print-library-path"]
  | .version => ["-v", "--version"]

def takesValue : Switch → Bool
  | .libraryPath | .output => true
  | _ => false

def title (switch : Switch) : String :=
  "/".intercalate switch.spellings

def allSpellings : List (String × Switch) :=
  all.flatMap fun switch => switch.spellings.map fun spelling => (spelling, switch)

def ofSpelling? (word : String) : Option Switch :=
  all.find? fun switch => switch.spellings.contains word

end Switch

inductive UsageError where
  | ambiguous (word : String) (candidates : List String)
  | missingValue (switch : Switch)
  | surplusValue (switch : Switch) (value : String)
  | unrecognized (words : List String)
  | noInputs
deriving DecidableEq, Repr

def UsageError.message : UsageError → String
  | .ambiguous word candidates =>
    "ambiguous option: " ++ word ++ " could match " ++ ", ".intercalate candidates
  | .missingValue switch => "argument " ++ switch.title ++ ": expected one argument"
  | .surplusValue switch value =>
    "argument " ++ switch.title ++ ": ignored explicit argument " ++ Text.quoted value
  | .unrecognized words => "unrecognized arguments: " ++ " ".intercalate words
  | .noInputs => "no input files"

/-- A word read as an option: a long option with the value after its equals sign, or a short
option with the text attached to it. -/
inductive Reading where
  | long (switch : Switch) (value : Option (List Char))
  | short (switch : Switch) (attached : Option (List Char))
deriving DecidableEq, Repr

inductive Word where
  | plain (text : String)
  | option (reading : Reading)
  /-- A word that looks like an option and is none. -/
  | unknown (text : String)
  /-- The mark after which all words are plain. -/
  | endOfOptions
deriving DecidableEq, Repr

namespace Word

def endMark : String := "--"

def valueOf? (word : List Char) : Option (List Char) :=
  match word.dropWhile (· ≠ '=') with
  | [] => none
  | _ :: value => some value

/-- The text attached to the short option that begins a word, by the rest of the word: an equals
sign in front does not belong to it. -/
def attachedText? : List Char → Option (List Char)
  | [] => none
  | '=' :: text => some text
  | text => some text

/-- The long options that a name stands for: the option spelled so, else all that begin so. -/
def longCandidates (name : List Char) : List (String × Switch) :=
  match Switch.ofSpelling? (String.ofList name) with
  | some switch => [(String.ofList name, switch)]
  | none =>
    Switch.allSpellings.filter fun (spelling, _) => name.isPrefixOf spelling.toList

def readings (word : List Char) : List (String × Reading) :=
  match word with
  | '-' :: '-' :: _ =>
    (longCandidates (word.takeWhile (· ≠ '='))).map fun (spelling, switch) =>
      (spelling, .long switch (valueOf? word))
  | '-' :: letter :: rest =>
    let spelling := String.ofList ['-', letter]
    (Switch.ofSpelling? spelling).toList.map fun switch =>
      (spelling, .short switch (attachedText? rest))
  | _ => []

/-- Digits up to the end, or up to a line feed that is the end. -/
def areFinalDigits (text : List Char) : Bool :=
  let rest := text.dropWhile Text.isDecimalDigit
  rest.length < text.length && (rest = [] || rest = ['\n'])

def isNegativeNumber : List Char → Bool
  | '-' :: text =>
    areFinalDigits text ||
      match text.dropWhile Text.isDecimalDigit with
      | '.' :: fraction => areFinalDigits fraction
      | _ => false
  | _ => false

def read (word : String) : Except UsageError Word :=
  let chars := word.toList
  if chars.head? ≠ some '-' || chars = ['-'] then .ok (.plain word)
  else
    match readings chars with
    | [(_, reading)] => .ok (.option reading)
    | [] =>
      if isNegativeNumber chars || chars.contains ' ' then .ok (.plain word)
      else .ok (.unknown word)
    | several => .error (.ambiguous word (several.map Prod.fst))

def readAll : List String → Except UsageError (List Word)
  | [] => .ok []
  | word :: rest =>
    if word = endMark then .ok (.endOfOptions :: rest.map .plain)
    else do
      let first ← read word
      let others ← readAll rest
      return first :: others

end Word

/-- What the options of one word come to: options without a value, and then the last option, with
the value attached to it if there is one. -/
structure Cluster where
  flags : List Switch
  last : Switch
  value : Option String
deriving DecidableEq, Repr

namespace Cluster

def after (switch : Switch) (cluster : Cluster) : Cluster :=
  { cluster with flags := switch :: cluster.flags }

def ofOption (switch : Switch) : Option (List Char) → Except UsageError Cluster
  | none => .ok ⟨[], switch, none⟩
  | some text =>
    if switch.takesValue then .ok ⟨[], switch, some (String.ofList text)⟩
    else .error (.surplusValue switch (String.ofList text))

/-- A short option and the letters after it: after an option that takes no value they are more
options, and after one that takes a value they are its value. -/
def ofLetters (switch : Switch) : List Char → Except UsageError Cluster
  | [] => ofOption switch none
  | letter :: rest =>
    match switch.takesValue, Switch.ofSpelling? (String.ofList ['-', letter]) with
    | false, some next => (ofLetters next rest).map (after switch)
    | _, _ => ofOption switch (some (letter :: rest))

def ofReading : Reading → Except UsageError Cluster
  | .short switch (some (letter :: rest)) => ofLetters switch (letter :: rest)
  | .short switch attached => ofOption switch attached
  | .long switch value => ofOption switch value

end Cluster

structure Arguments where
  inputs : List Path := []
  libraryPaths : List Place := []
  strictTypeNames : Bool := false
  debug : Bool := false
  json : Bool := false
  output : Option Place := none
  printLibraryPath : Bool := false

inductive Halt where
  | help
  | version
  | refused (error : UsageError)
deriving DecidableEq, Repr

namespace Arguments

inductive Phase where
  | before
  | within
  | after
deriving DecidableEq, Repr

structure Progress where
  arguments : Arguments := {}
  phase : Phase := .before
  unrecognized : List String := []

def setFlag (arguments : Arguments) : Switch → Except Halt Arguments
  | .help => .error .help
  | .version => .error .version
  | .strictTypeNames => .ok { arguments with strictTypeNames := true }
  | .debug => .ok { arguments with debug := true }
  | .json => .ok { arguments with json := true }
  | .printLibraryPath => .ok { arguments with printLibraryPath := true }
  | .libraryPath | .output => .ok arguments

def setFlags (arguments : Arguments) : List Switch → Except Halt Arguments
  | [] => .ok arguments
  | switch :: rest => do
    let arguments ← arguments.setFlag switch
    setFlags arguments rest

/-- The place that a value names: the mark that ends the options names none. -/
def placeOf (value : String) : Place :=
  if value = Word.endMark then .nowhere else .path (.ofString value)

def setValue (arguments : Arguments) (switch : Switch) (value : String) : Arguments :=
  if switch = .output then { arguments with output := some (placeOf value) }
  else { arguments with libraryPaths := arguments.libraryPaths ++ [placeOf value] }

namespace Progress

/-- Take a plain word as an input, unless the inputs have been read. -/
def takePlain (progress : Progress) (text : String) : Progress :=
  if progress.phase = .after then
    { progress with unrecognized := progress.unrecognized ++ [text] }
  else
    let inputs := progress.arguments.inputs ++ [.ofString text]
    { progress with arguments := { progress.arguments with inputs }, phase := .within }

/-- Pass the end of options, which belongs to the inputs. -/
def takeEnd (progress : Progress) : Progress :=
  if progress.phase = .after then
    { progress with unrecognized := progress.unrecognized ++ [Word.endMark] }
  else { progress with phase := .within }

/-- An option ends the inputs, if there were any before it. -/
def endInputs (progress : Progress) : Progress :=
  if progress.phase = .within then { progress with phase := .after } else progress

def takeUnknown (progress : Progress) (text : String) : Progress :=
  { progress with unrecognized := progress.unrecognized ++ [text] }

def takeFlags (progress : Progress) (switches : List Switch) : Except Halt Progress := do
  let arguments ← progress.arguments.setFlags switches
  return { progress with arguments }

def takeValue (progress : Progress) (switch : Switch) (value : String) : Progress :=
  { progress with arguments := progress.arguments.setValue switch value }

def readWords (progress : Progress) : List Word → Except Halt Progress
  | [] => .ok progress
  | .plain text :: rest => (progress.takePlain text).readWords rest
  | .endOfOptions :: rest => progress.takeEnd.readWords rest
  | .unknown text :: rest => (progress.endInputs.takeUnknown text).readWords rest
  | .option reading :: rest =>
    match Cluster.ofReading reading with
    | .error error => .error (.refused error)
    | .ok ⟨flags, switch, some value⟩ => do
      let taken ← progress.endInputs.takeFlags flags
      (taken.takeValue switch value).readWords rest
    | .ok ⟨flags, switch, none⟩ =>
      if switch.takesValue then
        match rest with
        | .plain value :: rest => do
          let taken ← progress.endInputs.takeFlags flags
          (taken.takeValue switch value).readWords rest
        | _ => .error (.refused (.missingValue switch))
      else do
        let taken ← progress.endInputs.takeFlags (flags ++ [switch])
        taken.readWords rest

end Progress

def ofWords (words : List String) : Except Halt Arguments :=
  match Word.readAll words with
  | .error error => .error (.refused error)
  | .ok words =>
    match Progress.readWords {} words with
    | .error halt => .error halt
    | .ok progress =>
      if progress.unrecognized.isEmpty then .ok progress.arguments
      else .error (.refused (.unrecognized progress.unrecognized))

end Arguments

end WireModules.CommandLine
