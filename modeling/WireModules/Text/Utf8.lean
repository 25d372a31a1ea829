/-!
# Strict decoding of UTF-8

Overlong forms, surrogates and values above the last code point are refused. A refusal names the
first defect in byte order: a byte that begins no character, a byte that cannot continue the
character begun, or a text that ends inside a character.
-/

set_option autoImplicit false

namespace WireModules.Text

inductive EncodingDefect where
  | invalidStart
  | invalidContinuation
  | unexpectedEnd
deriving DecidableEq, Repr

def EncodingDefect.reason : EncodingDefect → String
  | .invalidStart => "invalid start byte"
  | .invalidContinuation => "invalid continuation byte"
  | .unexpectedEnd => "unexpected end of data"

namespace Utf8

/-- A character of which at least one byte is still to come: the range its next byte must lie in,
how many bytes follow that one, and the value of the bytes read. -/
structure Open where
  low : Nat
  high : Nat
  later : Nat
  value : Nat
deriving DecidableEq, Repr

/-- What the first byte of a longer character announces. The second byte's range leaves out the
overlong forms, the surrogates and the values above the last code point. -/
def begin? (byte : Nat) : Option Open :=
  if byte < 0xC2 then none
  else if byte < 0xE0 then some ⟨0x80, 0xBF, 0, byte - 0xC0⟩
  else if byte = 0xE0 then some ⟨0xA0, 0xBF, 1, 0⟩
  else if byte = 0xED then some ⟨0x80, 0x9F, 1, 0xD⟩
  else if byte < 0xF0 then some ⟨0x80, 0xBF, 1, byte - 0xE0⟩
  else if byte = 0xF0 then some ⟨0x90, 0xBF, 2, 0⟩
  else if byte < 0xF4 then some ⟨0x80, 0xBF, 2, byte - 0xF0⟩
  else if byte = 0xF4 then some ⟨0x80, 0x8F, 2, 4⟩
  else none

/-- Read bytes with the character begun before them, if one is open. -/
def decodeAfter : Option Open → List UInt8 → Except EncodingDefect (List Char)
  | none, [] => .ok []
  | some _, [] => .error .unexpectedEnd
  | none, byte :: rest =>
    if byte.toNat < 0x80 then
      (decodeAfter none rest).map (Char.ofNat byte.toNat :: ·)
    else
      match begin? byte.toNat with
      | none => .error .invalidStart
      | some pending => decodeAfter (some pending) rest
  | some pending, byte :: rest =>
    if pending.low ≤ byte.toNat ∧ byte.toNat ≤ pending.high then
      let value := pending.value * 64 + (byte.toNat - 0x80)
      match pending.later with
      | 0 => (decodeAfter none rest).map (Char.ofNat value :: ·)
      | later + 1 => decodeAfter (some ⟨0x80, 0xBF, later, value⟩) rest
    else
      .error .invalidContinuation

def decode (bytes : List UInt8) : Except EncodingDefect (List Char) :=
  decodeAfter none bytes

end Utf8

end WireModules.Text
