import WireModules.Grammar.Layout
import WireModules.Grammar.Terminal
import WireModules.Text.Excerpt
import WireModules.Text.Position

/-!
# Machines that read text lexeme by lexeme

A machine steps from state to state, one token at a time; the state decides which terminals are
looked for next. Text that a machine rejects is described by a `Rejection`: where it is, what
stands there and what could have stood there instead.
-/

set_option autoImplicit false

namespace WireModules

/-- A lexeme with its place in the text: the position of its first character and the position
just past it. -/
structure Token where
  terminal : Terminal
  text : String
  position : Position
  past : Position
deriving DecidableEq, Repr

def Token.shown (token : Token) : String :=
  "Token('" ++ token.terminal.label ++ "', '" ++ token.text ++ "')"

/-- What may follow at a place: a terminal or the end of the text. -/
inductive Expectation where
  | terminal (terminal : Terminal)
  | endOfText
deriving DecidableEq, Repr

inductive Rejection where
  /-- No terminal of the language matches at a character. -/
  | strayCharacter (char : Char) (position : Position) (excerpt : List String)
      (expected : List Terminal) (previous : Option Token)
  /-- A terminal matches that was not looked for. -/
  | strayToken (token : Token) (expected : List Expectation) (previous : Option Token)
  /-- A terminal that was looked for does not fit what surrounds it. -/
  | misplacedToken (token : Token) (expected : List Expectation)
  /-- The text ends too early; the position is that of the last token. -/
  | earlyEnd (position : Position) (expected : List Expectation)
deriving DecidableEq, Repr

namespace Rejection

def position : Rejection → Position
  | .strayCharacter _ position _ _ _ => position
  | .strayToken token _ _ => token.position
  | .misplacedToken token _ => token.position
  | .earlyEnd position _ => position

/-- The label of a terminal in a list of what the scanner looked for: the sign without a name of
its own is shown as it is spelled. -/
def scannedLabel : Terminal → String
  | .scope => "\"::\""
  | terminal => terminal.label

def expectationLabel (label : Terminal → String) : Expectation → String
  | .terminal terminal => label terminal
  | .endOfText => "$END"

/-- The list of what was expected, in order of the labels' characters. -/
def expectedLines (labels : List String) : List String :=
  "Expected one of: " ::
    (labels.mergeSort fun first second => first ≤ second).map fun label => "\t* " ++ label

def unexpectedLine (shown : String) (position : Position) : String :=
  "Unexpected token " ++ shown ++ " at line " ++ toString position.line ++
    ", column " ++ toString position.column ++ "."

def lines : Rejection → List String
  | .strayCharacter char position excerpt expected previous =>
    ["No terminal matches '" ++ String.singleton char ++
        "' in the current parser context, at line " ++ toString position.line ++
        " col " ++ toString position.column, ""] ++
      excerpt ++
      expectedLines (expected.map scannedLabel) ++
      (match previous with
        | some token => ["", "Previous tokens: " ++ token.shown]
        | none => [])
  | .strayToken token expected previous =>
    unexpectedLine token.shown token.position ::
      expectedLines (expected.map (expectationLabel scannedLabel)) ++
      ["Previous tokens: [" ++ previous.elim "None" Token.shown ++ "]"]
  | .misplacedToken token expected =>
    unexpectedLine token.shown token.position ::
      expectedLines (expected.map (expectationLabel Terminal.label))
  | .earlyEnd position expected =>
    unexpectedLine "Token('$END', '')" position ::
      expectedLines (expected.map (expectationLabel Terminal.label))

def message (rejection : Rejection) : String :=
  "\n".intercalate rejection.lines

def text (rejection : Rejection) : String :=
  rejection.message ++ "\n"

end Rejection

/-- A machine over the terminals of a language. `step` has a value where a terminal may follow.
In some states the scanner looks for more terminals than may follow, those of `alsoScanned`;
when one of these is found, the state counts as `settle` of itself. -/
structure Machine (State Result : Type) where
  alphabet : List Terminal
  start : State
  step : State → Terminal → Option (Token → State)
  alsoScanned : State → List Terminal
  settle : State → State
  finish? : State → Option Result

namespace Machine

variable {State Result : Type}

def accepts (machine : Machine State Result) (state : State) (terminal : Terminal) : Bool :=
  (machine.step state terminal).isSome

def expected (machine : Machine State Result) (state : State) : List Expectation :=
  (if (machine.finish? state).isSome then [.endOfText] else []) ++
    (machine.alphabet.filter (machine.accepts state)).map .terminal

def scanned (machine : Machine State Result) (state : State) : List Terminal :=
  machine.alphabet.filter fun terminal =>
    machine.accepts state terminal || (machine.alsoScanned state).contains terminal

/-- What a message about a stray character lists: keywords are left out where a name would do. -/
def advertised (machine : Machine State Result) (state : State) : List Terminal :=
  let scanned := machine.scanned state
  if scanned.contains .name then scanned.filter fun terminal => !terminal.isKeyword else scanned

/-- A lexeme found at a position, as a token. -/
def tokenAt (position : Position) (lexeme : Lexeme) : Token :=
  ⟨lexeme.terminal, String.ofList lexeme.text, position, position.advance lexeme.text⟩

/-- Why the text at a position is rejected in a state whose scanner found nothing there. -/
def reject (machine : Machine State Result) (whole : List Char) (state : State)
    (previous : Option Token) (position : Position) (char : Char) (text : List Char) :
    Rejection :=
  match Scan.lexeme? machine.alphabet text with
  | some lexeme =>
    .strayToken (tokenAt position lexeme) (machine.expected state) previous
  | none =>
    .strayCharacter char position
      ((Text.excerpt whole (whole.length - text.length)).map String.ofList)
      (machine.advertised state) previous

/-- Read the text from a position on; `whole` is all of the text. -/
def runFrom (machine : Machine State Result) (whole : List Char) (state : State)
    (previous : Option Token) (position : Position) (text : List Char) :
    Except Rejection Result :=
  match _layoutSplit : Layout.split text with
  | (_, []) =>
    match machine.finish? state with
    | some result => .ok result
    | none =>
      .error (.earlyEnd (previous.elim Position.start Token.position) (machine.expected state))
  | (layout, char :: rest) =>
    let here := position.advance layout
    match _lexemeFound : Scan.lexeme? (machine.scanned state) (char :: rest) with
    | none => .error (machine.reject whole state previous here char (char :: rest))
    | some lexeme =>
      let token := tokenAt here lexeme
      match machine.step state token.terminal with
      | some next => machine.runFrom whole (next token) (some token) token.past lexeme.rest
      | none =>
        .error (.misplacedToken token (machine.expected (machine.settle state)))
termination_by text.length
decreasing_by
  have shorter := Scan.length_of_lexeme? _lexemeFound
  have bound := Layout.length_split_le text
  rw [_layoutSplit] at bound
  exact Nat.lt_of_lt_of_le shorter bound

def run (machine : Machine State Result) (text : List Char) : Except Rejection Result :=
  machine.runFrom text machine.start none .start text

end Machine

end WireModules
