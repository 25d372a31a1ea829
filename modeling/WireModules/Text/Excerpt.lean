/-!
# Excerpts that point at a character

An excerpt shows the line around a place in a text, at most forty characters to either side, and
below it a caret under the character at that place.
-/

set_option autoImplicit false

namespace WireModules.Text

def excerptReach : Nat := 40

def tabStop : Nat := 8

/-- The screen column after one more character: a tab goes to the next stop, and a line ending
goes back to the margin. -/
def screenColumn (column : Nat) (char : Char) : Nat :=
  if char = '\t' then column + (tabStop - column % tabStop)
  else if char = '\n' ∨ char = '\r' then 0
  else column + 1

/-- How many blanks a text takes when its tabs are expanded. A carriage return takes one and
starts the count of tab stops anew. -/
def expandedWidth (text : List Char) : Nat :=
  (text.foldl step (0, 0)).1
where
  step (state : Nat × Nat) (char : Char) : Nat × Nat :=
    let (width, column) := state
    let next := screenColumn column char
    if char = '\t' then (width + (next - column), next) else (width + 1, next)

/-- The characters after the last line feed. -/
def lastLine (text : List Char) : List Char :=
  (text.reverse.takeWhile (· ≠ '\n')).reverse

def firstLine (text : List Char) : List Char :=
  text.takeWhile (· ≠ '\n')

/-- The excerpt of `text` around its character at `offset`: the line, and the caret line below. -/
def excerpt (text : List Char) (offset : Nat) : List (List Char) :=
  let before := lastLine ((text.take offset).drop (offset - excerptReach))
  let after := firstLine ((text.drop offset).take excerptReach)
  [before ++ after, List.replicate (expandedWidth before) ' ' ++ ['^']]

end WireModules.Text
