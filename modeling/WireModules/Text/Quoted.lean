import WireModules.Text.Digit
import WireModules.Text.Unprintable

/-!
# Quoted text in messages

Text is quoted with single quotes, or with double quotes if it holds a single quote and no double
quote. Backslashes, the quote itself and all that cannot be printed are escaped.
-/

set_option autoImplicit false

namespace WireModules.Text

def hexDigits : Nat → Nat → List Char
  | 0, _ => []
  | count + 1, value => hexDigits count (value / 16) ++ [hexDigit (value % 16)]

def quoteChar (mark char : Char) : List Char :=
  if char = mark ∨ char = '\\' then ['\\', char]
  else if char = '\t' then ['\\', 't']
  else if char = '\n' then ['\\', 'n']
  else if char = '\r' then ['\\', 'r']
  else if isPrintable char then [char]
  else if char.toNat < 0x100 then '\\' :: 'x' :: hexDigits 2 char.toNat
  else if char.toNat < 0x10000 then '\\' :: 'u' :: hexDigits 4 char.toNat
  else '\\' :: 'U' :: hexDigits 8 char.toNat

def quoted (text : String) : String :=
  let chars := text.toList
  let mark := if chars.contains '\'' && !chars.contains '"' then '"' else '\''
  String.ofList (mark :: chars.flatMap (quoteChar mark) ++ [mark])

end WireModules.Text
