import WireModules.Grammar.Reference

/-!
# The grammar of glue files

A glue file is a list of directives. An export names a type for the host, under its own name or
another; an analyzer binds a unit type to a transport, with ports.

    export proto::Msg;
    export proto::Color as Host::Color;
    analyzer HTTP over TCP: parse with proto::Request, port 80, port 8080;
-/

set_option autoImplicit false

namespace WireModules

/-- The text that a directive covers: the position of its first character and the one just past
its semicolon. -/
structure Extent where
  first : Position
  past : Position
deriving DecidableEq, Repr

inductive WrittenDirective where
  | exported (source : String) (host : Option String) (extent : Extent)
  | analyzer (name transport unit : String) (ports : List String) (extent : Extent)
deriving DecidableEq, Repr

structure AnalyzerHeading where
  first : Position
  name : String
  transport : String

/-- How far a directive has been read; ports are kept last first. -/
inductive DirectiveState where
  | source (first : Position) (name : NameState)
  | host (first : Position) (source : String) (name : NameState)
  | analyzer (first : Position)
  | named (first : Position) (name : String)
  | over (first : Position) (name : String)
  | transported (heading : AnalyzerHeading)
  | announced (heading : AnalyzerHeading)
  | parsing (heading : AnalyzerHeading)
  | unit (heading : AnalyzerHeading) (name : NameState)
  | port (heading : AnalyzerHeading) (unit : String) (ports : List String)
  | number (heading : AnalyzerHeading) (unit : String) (ports : List String)
  | afterPort (heading : AnalyzerHeading) (unit : String) (ports : List String)

namespace DirectiveState

def first : Terminal → Option (Token → DirectiveState)
  | .exportWord => some fun token => .source token.position .wanted
  | .analyzer => some fun token => .analyzer token.position
  | _ => none

def step : DirectiveState → Terminal →
    Option (Token → Advance DirectiveState WrittenDirective)
  | .source start name, .semicolon =>
    name.finished?.map fun exported token =>
      .done (.exported exported none ⟨start, token.past⟩)
  | .source start name, .asWord =>
    name.finished?.map fun exported _ => .more (.host start exported .wanted)
  | .source start name, terminal =>
    (name.step terminal).map fun advance token => .more (.source start (advance token))
  | .host start exported name, .semicolon =>
    name.finished?.map fun target token =>
      .done (.exported exported (some target) ⟨start, token.past⟩)
  | .host start exported name, terminal =>
    (name.step terminal).map fun advance token => .more (.host start exported (advance token))
  | .analyzer start, .name => some fun token => .more (.named start token.text)
  | .named start name, .over => some fun _ => .more (.over start name)
  | .over start name, .transport =>
    some fun token => .more (.transported ⟨start, name, token.text⟩)
  | .transported heading, .colon => some fun _ => .more (.announced heading)
  | .announced heading, .parse => some fun _ => .more (.parsing heading)
  | .parsing heading, .withWord => some fun _ => .more (.unit heading .wanted)
  | .unit heading name, .semicolon =>
    name.finished?.map fun target token =>
      .done (.analyzer heading.name heading.transport target [] ⟨heading.first, token.past⟩)
  | .unit heading name, .comma =>
    name.finished?.map fun target _ => .more (.port heading target [])
  | .unit heading name, terminal =>
    (name.step terminal).map fun advance token => .more (.unit heading (advance token))
  | .port heading target ports, .port => some fun _ => .more (.number heading target ports)
  | .number heading target ports, .natural =>
    some fun token => .more (.afterPort heading target (token.text :: ports))
  | .afterPort heading target ports, .comma => some fun _ => .more (.port heading target ports)
  | .afterPort heading target ports, .semicolon =>
    some fun token =>
      .done (.analyzer heading.name heading.transport target ports.reverse
        ⟨heading.first, token.past⟩)
  | _, _ => none

/-- The scoped name that is being read, if the directive has come to one. -/
def name? : DirectiveState → Option NameState
  | .source _ name => some name
  | .host _ _ name => some name
  | .unit _ name => some name
  | _ => none

/-- After a name the scanner looks for all that can end a scoped name anywhere. -/
def alsoScanned (state : DirectiveState) : List Terminal :=
  match state.name? with
  | some (.named _) => [.asWord, .comma, .semicolon]
  | _ => []

def settle : DirectiveState → DirectiveState
  | .source start name => .source start name.settle
  | .host start exported name => .host start exported name.settle
  | .unit heading name => .unit heading name.settle
  | state => state

end DirectiveState

/-- How far a glue file has been read; the directives are kept last first. -/
inductive GlueState where
  | directives (done : List WrittenDirective)
  | directive (done : List WrittenDirective) (current : DirectiveState)

namespace GlueState

def step : GlueState → Terminal → Option (Token → GlueState)
  | .directives done, terminal =>
    (DirectiveState.first terminal).map fun begin token => .directive done (begin token)
  | .directive done current, terminal =>
    (current.step terminal).map fun advance token =>
      match advance token with
      | .more next => .directive done next
      | .done finished => .directives (finished :: done)

def alsoScanned : GlueState → List Terminal
  | .directives _ => []
  | .directive _ current => current.alsoScanned

def settle : GlueState → GlueState
  | .directives done => .directives done
  | .directive done current => .directive done current.settle

/-- A glue file may end between directives, and may be empty. -/
def finish? : GlueState → Option (List WrittenDirective)
  | .directives done => some done.reverse
  | .directive _ _ => none

end GlueState

namespace WrittenDirective

def alphabet : List Terminal :=
  [.name, .natural, .transport, .analyzer, .asWord, .exportWord, .over, .parse, .port, .withWord,
    .scope, .colon, .comma, .semicolon]

def machine : Machine GlueState (List WrittenDirective) where
  alphabet
  start := .directives []
  step := GlueState.step
  alsoScanned := GlueState.alsoScanned
  settle := GlueState.settle
  finish? := GlueState.finish?

def read (text : List Char) : Except Rejection (List WrittenDirective) :=
  machine.run text

end WrittenDirective

end WireModules
