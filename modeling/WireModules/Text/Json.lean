import WireModules.Text.Digit

/-!
# JSON documents in ASCII

Strings are written in ASCII: other characters, and the delete character, become escapes of
their UTF-16 units. A document is written on one line, or indented with one item a line.
-/

set_option autoImplicit false

namespace WireModules

inductive Json where
  | null
  | boolean (value : Bool)
  | integer (value : Int)
  | string (value : String)
  | array (items : List Json)
  | object (members : List (String × Json))

namespace Json

def escapeUnit (unit : Nat) : List Char :=
  '\\' :: 'u' ::
    [unit / 4096 % 16, unit / 256 % 16, unit / 16 % 16, unit % 16].map Text.hexDigit

def escapeChar (char : Char) : List Char :=
  if char = '"' then ['\\', '"']
  else if char = '\\' then ['\\', '\\']
  else if char = '\n' then ['\\', 'n']
  else if char = '\r' then ['\\', 'r']
  else if char = '\t' then ['\\', 't']
  else if char.toNat = 8 then ['\\', 'b']
  else if char.toNat = 12 then ['\\', 'f']
  else if ' ' ≤ char ∧ char ≤ '~' then [char]
  else if char.toNat < 0x10000 then escapeUnit char.toNat
  else
    let offset := char.toNat - 0x10000
    escapeUnit (0xD800 + offset / 0x400) ++ escapeUnit (0xDC00 + offset % 0x400)

def quote (text : String) : String :=
  "\"" ++ String.ofList (text.toList.flatMap escapeChar) ++ "\""

mutual

def line : Json → String
  | .null => "null"
  | .boolean true => "true"
  | .boolean false => "false"
  | .integer value => toString value
  | .string value => quote value
  | .array items => "[" ++ ", ".intercalate (lines items) ++ "]"
  | .object members => "\x7b" ++ ", ".intercalate (memberLines members) ++ "\x7d"

def lines : List Json → List String
  | [] => []
  | item :: rest => item.line :: lines rest

def memberLines : List (String × Json) → List String
  | [] => []
  | (key, value) :: rest => (quote key ++ ": " ++ value.line) :: memberLines rest

end

def indentation (depth : Nat) : String := String.ofList (List.replicate (2 * depth) ' ')

/-- Items between brackets, one a line; brackets without items stay together. -/
def block (opening closing : String) (depth : Nat) (items : List String) : String :=
  if items.isEmpty then opening ++ closing
  else
    opening ++ "\n" ++ indentation (depth + 1) ++
      (",\n" ++ indentation (depth + 1)).intercalate items ++
      "\n" ++ indentation depth ++ closing

mutual

def indentedAt (depth : Nat) : Json → String
  | .array items => block "[" "]" depth (indentedItems (depth + 1) items)
  | .object members => block "\x7b" "\x7d" depth (indentedMembers (depth + 1) members)
  | .null => "null"
  | .boolean true => "true"
  | .boolean false => "false"
  | .integer value => toString value
  | .string value => quote value

def indentedItems (depth : Nat) : List Json → List String
  | [] => []
  | item :: rest => indentedAt depth item :: indentedItems depth rest

def indentedMembers (depth : Nat) : List (String × Json) → List String
  | [] => []
  | (key, value) :: rest =>
    (quote key ++ ": " ++ indentedAt depth value) :: indentedMembers depth rest

end

def indented (document : Json) : String := indentedAt 0 document

end Json

end WireModules
