/-!
# Decimal integer literals

A literal is an optional minus sign and digits. Literals with more digits than `digitLimit` are
refused; leading zeros count as digits and the sign does not.
-/

set_option autoImplicit false

namespace WireModules.Text.Decimal

/-- The greatest number of digits of a literal that is read. -/
def digitLimit : Nat := 4300

structure TooLong where
  digits : Nat
deriving DecidableEq, Repr

def TooLong.message (refusal : TooLong) : String :=
  s!"Exceeds the limit ({digitLimit} digits) for integer string conversion: " ++
    s!"value has {refusal.digits} digits; " ++
    "use sys.set_int_max_str_digits() to increase the limit"

def digitValue (char : Char) : Nat := char.toNat - '0'.toNat

def magnitude (digits : List Char) : Nat :=
  digits.foldl (fun value digit => 10 * value + digitValue digit) 0

def value : List Char → Int
  | '-' :: digits => -(magnitude digits : Int)
  | digits => magnitude digits

def digitCount : List Char → Nat
  | '-' :: digits => digits.length
  | digits => digits.length

def read (literal : String) : Except TooLong Int :=
  let chars := literal.toList
  if digitCount chars ≤ digitLimit then .ok (value chars) else .error ⟨digitCount chars⟩

end WireModules.Text.Decimal
