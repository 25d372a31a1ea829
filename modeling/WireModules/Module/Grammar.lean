import WireModules.Module.Written

/-!
# The grammar of modules

A module is a heading and items: imports, constants and types. Reading is a machine whose states
say how far each part has come. The parts are layered: a body inside a type declaration, an item
inside a module.

    module proto; import common;
    public type Color = enum { Red, Green = 5 };
    public type Msg = unit { kind: uint8; color: Color; };
-/

set_option autoImplicit false

namespace WireModules

/-- How far a list of enum labels has been read; the labels are kept last first. -/
inductive LabelsState where
  | opening
  | first
  | labelled (done : List WrittenLabel) (label : Token)
  | valued (done : List WrittenLabel) (label : Token)
  | between (done : List WrittenLabel)
  | next (done : List WrittenLabel)

namespace LabelsState

def plain (label : Token) : WrittenLabel := ⟨label.text, label.position, none⟩

def explicit (label value : Token) : WrittenLabel :=
  ⟨label.text, label.position, some value.text⟩

def step : LabelsState → Terminal → Option (Token → Advance LabelsState (List WrittenLabel))
  | .opening, .leftBrace => some fun _ => .more .first
  | .first, .name => some fun token => .more (.labelled [] token)
  | .labelled done label, .equal => some fun _ => .more (.valued done label)
  | .labelled done label, .comma => some fun _ => .more (.next (plain label :: done))
  | .labelled done label, .rightBrace => some fun _ => .done (plain label :: done).reverse
  | .valued done label, .integer =>
    some fun token => .more (.between (explicit label token :: done))
  | .between done, .comma => some fun _ => .more (.next done)
  | .between done, .rightBrace => some fun _ => .done done.reverse
  | .next done, .name => some fun token => .more (.labelled done token)
  | .next done, .rightBrace => some fun _ => .done done.reverse
  | _, _ => none

end LabelsState

/-- How far a list of fields has been read; the fields are kept last first. -/
inductive FieldsState where
  | opening
  | next (done : List WrittenField)
  | fieldNamed (done : List WrittenField) (name : Token)
  | typed (done : List WrittenField) (name : Token) (ref : RefState)

namespace FieldsState

def step : FieldsState → Terminal → Option (Token → Advance FieldsState (List WrittenField))
  | .opening, .leftBrace => some fun _ => .more (.next [])
  | .next done, .name => some fun token => .more (.fieldNamed done token)
  | .next done, .rightBrace => some fun _ => .done done.reverse
  | .fieldNamed done name, .colon => some fun _ => .more (.typed done name (.wanted []))
  | .typed done name ref, .semicolon =>
    ref.finished?.map fun finished _ => .more (.next (⟨name.text, name.position, finished⟩ :: done))
  | .typed done name ref, terminal =>
    (ref.step terminal).map fun advance token => .more (.typed done name (advance token))
  | _, _ => none

def alsoScanned : FieldsState → List Terminal
  | .typed _ _ ref => ref.alsoScanned
  | _ => []

def settle : FieldsState → FieldsState
  | .typed done name ref => .typed done name ref.settle
  | state => state

end FieldsState

inductive BodyState where
  | opening
  | enum (labels : LabelsState)
  | fields (form : FieldsForm) (fields : FieldsState)
  | alias (target : RefState)
  | closing (body : WrittenBody)

namespace BodyState

/-- A body ends with a semicolon, which also ends the declaration. -/
def step : BodyState → Terminal → Option (Token → Advance BodyState WrittenBody)
  | .opening, .enum => some fun _ => .more (.enum .opening)
  | .opening, .unit => some fun _ => .more (.fields .unit .opening)
  | .opening, .struct => some fun _ => .more (.fields .struct .opening)
  | .opening, .name => some fun token => .more (.alias (.named [] token.text))
  | .enum labels, terminal =>
    (labels.step terminal).map fun advance token =>
      (advance token).within .enum fun finished => .more (.closing (.enum finished))
  | .fields form inner, terminal =>
    (inner.step terminal).map fun advance token =>
      (advance token).within (.fields form) fun finished =>
        .more (.closing (.fields form finished))
  | .alias target, .semicolon => target.finished?.map fun finished _ => .done (.alias finished)
  | .alias target, terminal =>
    (target.step terminal).map fun advance token => .more (.alias (advance token))
  | .closing body, .semicolon => some fun _ => .done body
  | _, _ => none

def alsoScanned : BodyState → List Terminal
  | .fields _ inner => inner.alsoScanned
  | .alias target => target.alsoScanned
  | _ => []

def settle : BodyState → BodyState
  | .fields form inner => .fields form inner.settle
  | .alias target => .alias target.settle
  | state => state

end BodyState

inductive ItemState where
  | importing (position : Position)
  | imported (position : Position) (name : String)
  | linked (heading : Heading)
  | constant (heading : Heading)
  | constantNamed (heading : Heading) (name : String)
  | constantEqual (heading : Heading) (name : String)
  | constantValued (heading : Heading) (name literal : String)
  | type (heading : Heading)
  | typeNamed (heading : Heading) (name : String)
  | typeBody (heading : Heading) (name : String) (body : BodyState)

namespace ItemState

def first : Terminal → Option (Token → ItemState)
  | .importWord => some fun token => .importing token.position
  | .privateWord => some fun token => .linked ⟨token.position, .internal⟩
  | .publicWord => some fun token => .linked ⟨token.position, .external⟩
  | .const => some fun token => .constant ⟨token.position, .internal⟩
  | .type => some fun token => .type ⟨token.position, .internal⟩
  | _ => none

def step : ItemState → Terminal → Option (Token → Advance ItemState WrittenItem)
  | .importing position, .name => some fun token => .more (.imported position token.text)
  | .imported position name, .semicolon => some fun _ => .done (.imported position name)
  | .linked heading, .const => some fun _ => .more (.constant heading)
  | .linked heading, .type => some fun _ => .more (.type heading)
  | .constant heading, .name => some fun token => .more (.constantNamed heading token.text)
  | .constantNamed heading name, .equal => some fun _ => .more (.constantEqual heading name)
  | .constantEqual heading name, .integer =>
    some fun token => .more (.constantValued heading name token.text)
  | .constantValued heading name literal, .semicolon =>
    some fun _ => .done (.constant heading name literal)
  | .type heading, .name => some fun token => .more (.typeNamed heading token.text)
  | .typeNamed heading name, .equal => some fun _ => .more (.typeBody heading name .opening)
  | .typeBody heading name body, terminal =>
    (body.step terminal).map fun advance token =>
      (advance token).within (.typeBody heading name) fun finished =>
        .done (.type heading name finished)
  | _, _ => none

def alsoScanned : ItemState → List Terminal
  | .typeBody _ _ body => body.alsoScanned
  | _ => []

def settle : ItemState → ItemState
  | .typeBody heading name body => .typeBody heading name body.settle
  | state => state

end ItemState

/-- How far a module has been read; the items are kept last first. -/
inductive ModuleState where
  | start
  | heading (position : Position)
  | named (position : Position) (name : String)
  | items (position : Position) (name : String) (done : List WrittenItem)
  | item (position : Position) (name : String) (done : List WrittenItem) (current : ItemState)

namespace ModuleState

def step : ModuleState → Terminal → Option (Token → ModuleState)
  | .start, .module => some fun token => .heading token.position
  | .heading position, .name => some fun token => .named position token.text
  | .named position name, .semicolon => some fun _ => .items position name []
  | .items position name done, terminal =>
    (ItemState.first terminal).map fun begin token => .item position name done (begin token)
  | .item position name done current, terminal =>
    (current.step terminal).map fun advance token =>
      match advance token with
      | .more next => .item position name done next
      | .done finished => .items position name (finished :: done)
  | _, _ => none

def alsoScanned : ModuleState → List Terminal
  | .item _ _ _ current => current.alsoScanned
  | _ => []

def settle : ModuleState → ModuleState
  | .item position name done current => .item position name done current.settle
  | state => state

def finish? : ModuleState → Option WrittenModule
  | .items position name done => some ⟨position, name, done.reverse⟩
  | _ => none

end ModuleState

namespace WrittenModule

def alphabet : List Terminal :=
  [.name, .integer, .const, .enum, .importWord, .module, .privateWord, .publicWord, .struct, .type,
    .unit, .scope, .colon, .comma, .equal, .leftBrace, .lessThan, .moreThan, .rightBrace,
    .semicolon]

def machine : Machine ModuleState WrittenModule where
  alphabet
  start := .start
  step := ModuleState.step
  alsoScanned := ModuleState.alsoScanned
  settle := ModuleState.settle
  finish? := ModuleState.finish?

def read (text : List Char) : Except Rejection WrittenModule :=
  machine.run text

end WrittenModule

end WireModules
