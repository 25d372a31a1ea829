/-!
# Terminals and lexemes

The words and signs of module files and glue files. A scanner is told which terminals may come
next and takes the first of them that matches, so a keyword is a name wherever the grammar does
not look for the keyword.
-/

set_option autoImplicit false

namespace WireModules

inductive Terminal where
  | name
  | integer
  | natural
  | transport
  | analyzer
  | asWord
  | const
  | enum
  | exportWord
  | importWord
  | module
  | over
  | parse
  | port
  | privateWord
  | publicWord
  | struct
  | type
  | unit
  | withWord
  | scope
  | colon
  | comma
  | equal
  | leftBrace
  | lessThan
  | moreThan
  | rightBrace
  | semicolon
deriving DecidableEq, Repr

namespace Terminal

def label : Terminal → String
  | .name => "NAME"
  | .integer | .natural => "INT"
  | .transport => "TRANSPORT"
  | .analyzer => "ANALYZER"
  | .asWord => "AS"
  | .const => "CONST"
  | .enum => "ENUM"
  | .exportWord => "EXPORT"
  | .importWord => "IMPORT"
  | .module => "MODULE"
  | .over => "OVER"
  | .parse => "PARSE"
  | .port => "PORT"
  | .privateWord => "PRIVATE"
  | .publicWord => "PUBLIC"
  | .struct => "STRUCT"
  | .type => "TYPE"
  | .unit => "UNIT"
  | .withWord => "WITH"
  | .scope => "__ANON_0"
  | .colon => "COLON"
  | .comma => "COMMA"
  | .equal => "EQUAL"
  | .leftBrace => "LBRACE"
  | .lessThan => "LESSTHAN"
  | .moreThan => "MORETHAN"
  | .rightBrace => "RBRACE"
  | .semicolon => "SEMICOLON"

def keyword? : Terminal → Option String
  | .analyzer => some "analyzer"
  | .asWord => some "as"
  | .const => some "const"
  | .enum => some "enum"
  | .exportWord => some "export"
  | .importWord => some "import"
  | .module => some "module"
  | .over => some "over"
  | .parse => some "parse"
  | .port => some "port"
  | .privateWord => some "private"
  | .publicWord => some "public"
  | .struct => some "struct"
  | .type => some "type"
  | .unit => some "unit"
  | .withWord => some "with"
  | _ => none

def sign? : Terminal → Option String
  | .scope => some "::"
  | .colon => some ":"
  | .comma => some ","
  | .equal => some "="
  | .leftBrace => some "\x7b"
  | .lessThan => some "<"
  | .moreThan => some ">"
  | .rightBrace => some "\x7d"
  | .semicolon => some ";"
  | _ => none

def isKeyword (terminal : Terminal) : Bool := terminal.keyword?.isSome

/-- All terminals in the order in which they are tried: those that match many texts first, and a
sign before the signs it begins with. -/
def inOrder : List Terminal :=
  [.name, .integer, .natural, .transport,
    .analyzer, .asWord, .const, .enum, .exportWord, .importWord, .module, .over, .parse, .port,
    .privateWord, .publicWord, .struct, .type, .unit, .withWord,
    .scope, .colon, .comma, .equal, .leftBrace, .lessThan, .moreThan, .rightBrace, .semicolon]

end Terminal

structure Lexeme where
  terminal : Terminal
  text : List Char
  rest : List Char
deriving DecidableEq, Repr

namespace Scan

def isNameStart (char : Char) : Bool :=
  ('A' ≤ char && char ≤ 'Z') || ('a' ≤ char && char ≤ 'z') || char = '_'

def isDigit (char : Char) : Bool :=
  '0' ≤ char && char ≤ '9'

def isNamePart (char : Char) : Bool :=
  isNameStart char || isDigit char

def name? : List Char → Option (List Char × List Char)
  | [] => none
  | char :: rest =>
    if isNameStart char then some (char :: rest.takeWhile isNamePart, rest.dropWhile isNamePart)
    else none

def natural? : List Char → Option (List Char × List Char)
  | [] => none
  | char :: rest =>
    if isDigit char then some (char :: rest.takeWhile isDigit, rest.dropWhile isDigit) else none

def integer? : List Char → Option (List Char × List Char)
  | '-' :: rest => (natural? rest).map fun (digits, after) => ('-' :: digits, after)
  | text => natural? text

def spelling? : List Char → List Char → Option (List Char × List Char)
  | [], text => some ([], text)
  | _ :: _, [] => none
  | expected :: more, char :: rest =>
    if expected = char then
      (spelling? more rest).map fun (spelled, after) => (char :: spelled, after)
    else none

end Scan

def Terminal.match? (terminal : Terminal) (text : List Char) : Option (List Char × List Char) :=
  match terminal with
  | .name => Scan.name? text
  | .integer => Scan.integer? text
  | .natural => Scan.natural? text
  | .transport => (Scan.spelling? "TCP".toList text).or (Scan.spelling? "UDP".toList text)
  | terminal =>
    match terminal.keyword?.or terminal.sign? with
    | some spelling => Scan.spelling? spelling.toList text
    | none => none

namespace Scan

/-- The keyword among some terminals that a name spells, else the terminal of names. -/
def classify (terminals : List Terminal) (word : List Char) : Terminal :=
  (terminals.find? fun terminal => terminal.keyword? = some (String.ofList word)).getD .name

/-- The first terminal in order, among those given, that matches at the start of a text. A name
that spells one of the given keywords is that keyword. -/
def lexeme? (terminals : List Terminal) (text : List Char) : Option Lexeme :=
  (Terminal.inOrder.filter (terminals.contains ·)).findSome? fun terminal =>
    (terminal.match? text).map fun (matched, rest) =>
      ⟨if terminal = .name then classify terminals matched else terminal, matched, rest⟩

theorem length_of_natural? {text digits rest : List Char}
    (found : natural? text = some (digits, rest)) : rest.length < text.length := by
  cases text with
  | nil => simp [natural?] at found
  | cons char tail =>
    simp only [natural?] at found
    split at found
    · simp only [Option.some.injEq, Prod.mk.injEq] at found
      rw [← found.2]
      exact Nat.lt_succ_of_le (List.dropWhile_sublist isDigit).length_le
    · simp at found

theorem length_of_integer? {text literal rest : List Char}
    (found : integer? text = some (literal, rest)) : rest.length < text.length := by
  unfold integer? at found
  split at found
  · rename_i tail
    obtain ⟨⟨digits, after⟩, digitsFound, same⟩ := Option.map_eq_some_iff.mp found
    simp only [Prod.mk.injEq] at same
    have := length_of_natural? digitsFound
    rw [← same.2]
    simp only [List.length_cons]
    omega
  · exact length_of_natural? found

theorem length_of_name? {text word rest : List Char}
    (found : name? text = some (word, rest)) : rest.length < text.length := by
  cases text with
  | nil => simp [name?] at found
  | cons char tail =>
    simp only [name?] at found
    split at found
    · simp only [Option.some.injEq, Prod.mk.injEq] at found
      rw [← found.2]
      exact Nat.lt_succ_of_le (List.dropWhile_sublist isNamePart).length_le
    · simp at found

theorem length_of_spelling? {spelling text spelled rest : List Char}
    (found : spelling? spelling text = some (spelled, rest)) :
    rest.length + spelling.length = text.length := by
  induction spelling generalizing text spelled with
  | nil =>
    simp only [spelling?, Option.some.injEq, Prod.mk.injEq] at found
    simp [found.2]
  | cons expected more ih =>
    cases text with
    | nil => simp [spelling?] at found
    | cons char tail =>
      simp only [spelling?] at found
      split at found
      · obtain ⟨⟨inner, after⟩, innerFound, same⟩ := Option.map_eq_some_iff.mp found
        obtain ⟨_, rfl⟩ := Prod.mk.inj same
        have inner : after.length + more.length = tail.length := ih innerFound
        simp only [List.length_cons]
        omega
      · simp at found

end Scan

theorem Terminal.length_of_match? {terminal : Terminal} {text matched rest : List Char}
    (found : terminal.match? text = some (matched, rest)) : rest.length < text.length := by
  have bySpelling : ∀ {spelling : List Char}, 0 < spelling.length →
      Scan.spelling? spelling text = some (matched, rest) → rest.length < text.length := by
    intro spelling nonempty spelled
    have := Scan.length_of_spelling? spelled
    omega
  cases terminal with
  | name => exact Scan.length_of_name? found
  | integer => exact Scan.length_of_integer? found
  | natural => exact Scan.length_of_natural? found
  | transport =>
    rcases Option.or_eq_some_iff.mp found with spelled | ⟨_, spelled⟩
    · exact bySpelling (by decide) spelled
    · exact bySpelling (by decide) spelled
  | _ => exact bySpelling (by decide) found

/-- A lexeme is never empty: less text remains after it. -/
theorem Scan.length_of_lexeme? {terminals : List Terminal} {text : List Char} {lexeme : Lexeme}
    (found : lexeme? terminals text = some lexeme) : lexeme.rest.length < text.length := by
  obtain ⟨terminal, _, matchFound⟩ := List.exists_of_findSome?_eq_some found
  obtain ⟨⟨matched, rest⟩, matchedHere, same⟩ := Option.map_eq_some_iff.mp matchFound
  rw [← same]
  exact Terminal.length_of_match? matchedHere

end WireModules
