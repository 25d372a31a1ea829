import WireModules.Grammar.Machine
import WireModules.Types.Name
import WireModules.Types.Ref

/-!
# Reading names with scopes and references to types

A scoped name is a sequence of names joined by `::`. A reference is a scoped name with optional
arguments in angle brackets, and references nest to any depth; the open outer references are kept
innermost first.
-/

set_option autoImplicit false

namespace WireModules

def extendName (name part : String) : String :=
  name ++ scopeSeparator ++ part

/-- A reference whose arguments are being read, with the arguments so far, last first. -/
structure OpenRef where
  name : String
  args : List TypeRef

inductive RefState where
  /-- A name has to come, for the reference itself or for an argument. -/
  | wanted (outer : List OpenRef)
  /-- A name has to come after a scope sign. -/
  | scoped (outer : List OpenRef) (name : String)
  /-- A name has come, which may go on or take arguments. -/
  | named (outer : List OpenRef) (name : String)
  /-- The reference has come to its end. -/
  | closed (outer : List OpenRef) (ref : TypeRef)

namespace RefState

def nextArg : List OpenRef → TypeRef → Option RefState
  | [], _ => none
  | inner :: outer, arg => some (.wanted (⟨inner.name, arg :: inner.args⟩ :: outer))

def lastArg : List OpenRef → TypeRef → Option RefState
  | [], _ => none
  | inner :: outer, arg =>
    some (.closed outer { name := inner.name, args := (arg :: inner.args).reverse })

def step : RefState → Terminal → Option (Token → RefState)
  | .wanted outer, .name => some fun token => .named outer token.text
  | .scoped outer name, .name => some fun token => .named outer (extendName name token.text)
  | .named outer name, .scope => some fun _ => .scoped outer name
  | .named outer name, .lessThan => some fun _ => .wanted (⟨name, []⟩ :: outer)
  | .named outer name, .comma => (nextArg outer { name }).map fun state _ => state
  | .named outer name, .moreThan => (lastArg outer { name }).map fun state _ => state
  | .closed outer ref, .comma => (nextArg outer ref).map fun state _ => state
  | .closed outer ref, .moreThan => (lastArg outer ref).map fun state _ => state
  | _, _ => none

def finished? : RefState → Option TypeRef
  | .named [] name => some { name }
  | .closed [] ref => some ref
  | _ => none

/-- After a name or a closed reference the scanner looks for all that can end a reference
anywhere, not only for what can end this one. -/
def alsoScanned : RefState → List Terminal
  | .named _ _ => [.comma, .moreThan, .semicolon]
  | .closed _ _ => [.comma, .moreThan, .semicolon]
  | _ => []

/-- A reference that can only be ended. -/
def settle : RefState → RefState
  | .named outer name => .closed outer { name }
  | state => state

end RefState

/-- How far a scoped name has been read that is not a reference to a type. -/
inductive NameState where
  | wanted
  | scoped (name : String)
  | named (name : String)
  | closed (name : String)

namespace NameState

def step : NameState → Terminal → Option (Token → NameState)
  | .wanted, .name => some fun token => .named token.text
  | .scoped name, .name => some fun token => .named (extendName name token.text)
  | .named name, .scope => some fun _ => .scoped name
  | _, _ => none

def finished? : NameState → Option String
  | .named name => some name
  | .closed name => some name
  | _ => none

/-- A name that can only be ended. -/
def settle : NameState → NameState
  | .named name => .closed name
  | state => state

end NameState

/-- The outcome of a step inside a part of a text: the part goes on, or it is complete. -/
inductive Advance (State Result : Type) where
  | more (state : State)
  | done (result : Result)

namespace Advance

variable {State Other Result : Type}

/-- Go on with a larger part, of which this part was one. -/
def within {Part Whole : Type} (resume : State → Part) (complete : Result → Advance Part Whole) :
    Advance State Result → Advance Part Whole
  | .more state => .more (resume state)
  | .done result => complete result

end Advance

end WireModules
