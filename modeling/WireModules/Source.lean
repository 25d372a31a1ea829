import WireModules.FileTree
import WireModules.Text.Newline
import WireModules.Text.Utf8

/-!
# Source texts

Source files are read as UTF-8, with every line ending as one line feed.
-/

set_option autoImplicit false

namespace WireModules

inductive SourceError where
  | unreadable (error : FileError)
  | undecodable (defect : Text.EncodingDefect)
deriving DecidableEq, Repr

def SourceError.message (error : SourceError) (path : Path) : String :=
  match error with
  | .unreadable error => "cannot read " ++ toString path ++ ": " ++ error.reason
  | .undecodable defect => "cannot decode " ++ toString path ++ ": " ++ defect.reason

def FileSystem.readSource (files : FileSystem) (path : Path) : Except SourceError (List Char) :=
  match files.read path with
  | .error error => .error (.unreadable error)
  | .ok bytes =>
    match Text.Utf8.decode bytes with
    | .error defect => .error (.undecodable defect)
    | .ok text => .ok (Text.unifyNewlines text)

end WireModules
