/-!
# Positions in text

A position is the line and column of a character. Both count from one, and a column counts the
characters since the last line feed: a tab or a carriage return is one character like any other.
-/

set_option autoImplicit false

namespace WireModules

structure Position where
  line : Nat
  column : Nat
deriving DecidableEq, Repr, Inhabited

namespace Position

def start : Position := ⟨1, 1⟩

def next (position : Position) (char : Char) : Position :=
  if char = '\n' then ⟨position.line + 1, 1⟩ else ⟨position.line, position.column + 1⟩

def advance (position : Position) (text : List Char) : Position :=
  text.foldl next position

@[simp] theorem advance_nil (position : Position) : position.advance [] = position := rfl

@[simp] theorem advance_cons (position : Position) (char : Char) (text : List Char) :
    position.advance (char :: text) = (position.next char).advance text := rfl

theorem advance_append (position : Position) (first second : List Char) :
    position.advance (first ++ second) = (position.advance first).advance second :=
  List.foldl_append

def Before (first second : Position) : Prop :=
  first.line < second.line ∨ first.line = second.line ∧ first.column < second.column

instance (first second : Position) : Decidable (Before first second) :=
  inferInstanceAs (Decidable (_ ∨ _))

end Position

end WireModules
