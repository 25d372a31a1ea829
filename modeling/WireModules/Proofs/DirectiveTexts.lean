import WireModules.Glue.Basic
import WireModules.Proofs.ModuleTree

/-!
# Texts of glue files

A glue file is written as its directives, each from its keyword to its semicolon, with layout before,
between and after them. Layout stands between the words of a directive too. An export says by which name
the host knows the type or leaves this out, and a port is written with any number of leading zeros, as
long as its digits are not too many.
-/

set_option autoImplicit false

namespace WireModules

namespace GlueText

open Word ModuleTree

/-! ## The words of a directive after its keyword -/

inductive NameWords : String → List Word → Prop where
  | joined {first : String} {parts : List String} : IsIdentifier first →
      (∀ part ∈ parts, IsIdentifier part) →
      NameWords (scopeSeparator.intercalate (first :: parts)) (Word.name first :: scopedWords parts)

inductive ExportWords : String → String → List Word → Prop where
  | plain {source : String} {words : List Word} : NameWords source words →
      ExportWords source source words
  | renamed {source host : String} {words more : List Word} : NameWords source words →
      NameWords host more → ExportWords source host (words ++ ofTerminal .asWord :: more)

def IsPort (literal : String) (port : Int) : Prop :=
  Scan.isNatural literal.toList = true ∧
    Text.Decimal.digitCount literal.toList ≤ Text.Decimal.digitLimit ∧
    Text.Decimal.value literal.toList = port

inductive PortsWords : List Int → List Word → Prop where
  | nil : PortsWords [] []
  | cons {literal : String} {port : Int} {ports : List Int} {words : List Word} :
      IsPort literal port → PortsWords ports words →
      PortsWords (port :: ports)
        (ofTerminal .comma :: ofTerminal .port :: ⟨.natural, literal.toList⟩ :: words)

inductive AnalyzerWords : String → String → String → List Int → List Word → Prop where
  | analyzer {name transport unit : String} {ports : List Int} {words more : List Word} :
      IsIdentifier name → transport ∈ ["TCP", "UDP"] → NameWords unit words →
      PortsWords ports more →
      AnalyzerWords name transport unit ports
        (Word.name name :: ofTerminal .over :: ⟨.transport, transport.toList⟩ :: ofTerminal .colon ::
          ofTerminal .parse :: ofTerminal .withWord :: words ++ more)

/-! ## The text of a glue file -/

/-- The text of a directive, of which a part stands between the keyword and the semicolon. -/
def directive (keyword : Terminal) (inner : List Char) : List Char :=
  (ofTerminal keyword).text ++ inner ++ (ofTerminal .semicolon).text

/-- The span of a text, from its first character to the place just past it. -/
def spanOf (file : Option String) (before own : List Char) : Span :=
  .between (Position.start.advance before) (Position.start.advance (before ++ own)) file

/-- A text of some exports and some analyzers in any order, which stands in a file behind some text. -/
inductive LaysOut (file : Option String) :
    List Char → List ExportDirective → List AnalyzerDirective → List Char → Prop where
  | ended {before gap : List Char} : Gap gap → LaysOut file before [] [] gap
  | exported {before gap inner rest : List Char} {source host : String} {words : List Word}
      {exports : List ExportDirective} {analyzers : List AnalyzerDirective} :
      Gap gap → ExportWords source host words → Spaced true words inner →
      LaysOut file (before ++ gap ++ directive .exportWord inner) exports analyzers rest →
      LaysOut file before
        (⟨source, host, spanOf file (before ++ gap) (directive .exportWord inner)⟩ :: exports)
        analyzers (gap ++ directive .exportWord inner ++ rest)
  | analyzer {before gap inner rest : List Char} {name transport unit : String} {ports : List Int}
      {words : List Word} {exports : List ExportDirective} {analyzers : List AnalyzerDirective} :
      Gap gap → AnalyzerWords name transport unit ports words → Spaced true words inner →
      LaysOut file (before ++ gap ++ directive .analyzer inner) exports analyzers rest →
      LaysOut file before exports
        (⟨name, transport, unit, ports, spanOf file (before ++ gap) (directive .analyzer inner)⟩ ::
          analyzers)
        (gap ++ directive .analyzer inner ++ rest)

end GlueText

end WireModules
