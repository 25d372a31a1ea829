import WireModules.Text.Position

/-!
# Spans

A span says as much as is known about a place in a file. Numbers are integers, since a span may be
given from outside.
-/

set_option autoImplicit false

namespace WireModules

structure Span where
  file : Option String := none
  line : Option Int := none
  column : Option Int := none
  endLine : Option Int := none
  endColumn : Option Int := none
deriving DecidableEq, Repr

/-- A place as some other source describes it. An `empty` place has no position, and the file may
stand under either of two names. -/
structure Landmark where
  empty : Bool := false
  file : Option String := none
  fileName : Option String := none
  line : Option Int := none
  column : Option Int := none
  endLine : Option Int := none
  endColumn : Option Int := none

namespace Span

def withFile (span : Span) (file : Option String) : Span :=
  match span.file with
  | some _ => span
  | none => { span with file }

def firstNamed (candidates : List (Option String)) : Option String :=
  (candidates.filterMap id).find? fun name => name ≠ ""

/-- The span of a place described elsewhere; a file given here goes before the place's own. -/
def ofLandmark (landmark : Landmark) (file : Option String) : Span :=
  if landmark.empty then { file }
  else
    { file := firstNamed [file, landmark.file, landmark.fileName]
      line := landmark.line
      column := landmark.column
      endLine := landmark.endLine
      endColumn := landmark.endColumn }

def ofPosition (position : Position) (file : Option String) : Span :=
  ofLandmark { line := some position.line, column := some position.column } file

/-- The span of the text between two positions; the second is the position just past it. -/
def between (first past : Position) (file : Option String) : Span :=
  ofLandmark
    { line := some first.line, column := some first.column
      endLine := some past.line, endColumn := some past.column } file

def shownNumber : Option Int → String
  | some value => toString value
  | none => "?"

def short (span : Span) : String :=
  (firstNamed [span.file]).getD "<unknown>" ++ ":" ++
    shownNumber span.line ++ ":" ++ shownNumber span.column

end Span

end WireModules
