import Mathlib.Algebra.Group.Nat.Defs
import WireModules.Proofs.ModuleTree

/-!
# Decimal literals of integers

An integer that is written out in decimal digits is read as itself. It has a literal that can be read
exactly if it has at most as many digits as are read, since zeros in front only make a literal longer.
-/

set_option autoImplicit false

namespace WireModules

namespace Text.Decimal

variable {digit : Char} {digits literal : List Char}

theorem digitValue_lt (isDigit : Scan.isDigit digit = true) : digitValue digit < 10 := by
  simp only [Scan.isDigit, Bool.and_eq_true, decide_eq_true_eq] at isDigit
  have upTo : digit.toNat ≤ '9'.toNat := isDigit.2
  have zero : '0'.toNat = 48 := rfl
  have nine : '9'.toNat = 57 := rfl
  rw [digitValue]
  omega

theorem magnitude_eq_ofDigitChars (digits : List Char) :
    magnitude digits = Nat.ofDigitChars 10 digits 0 := rfl

theorem magnitude_cons (digit : Char) (digits : List Char) :
    magnitude (digit :: digits) = 10 ^ digits.length * digitValue digit + magnitude digits := by
  rw [magnitude_eq_ofDigitChars, magnitude_eq_ofDigitChars, Nat.ofDigitChars_cons,
    Nat.ofDigitChars_eq_ofDigitChars_zero, Nat.mul_zero, Nat.zero_add, digitValue]

theorem magnitude_lt (all : ∀ digit ∈ digits, Scan.isDigit digit = true) :
    magnitude digits < 10 ^ digits.length := by
  induction digits with
  | nil => decide
  | cons digit rest ih =>
    obtain ⟨own, others⟩ := List.forall_mem_cons.mp all
    have upToNine : digitValue digit ≤ 9 := Nat.le_of_lt_succ (digitValue_lt own)
    calc magnitude (digit :: rest)
      _ = 10 ^ rest.length * digitValue digit + magnitude rest := magnitude_cons digit rest
      _ < 10 ^ rest.length * 9 + 10 ^ rest.length :=
        Nat.add_lt_add_of_le_of_lt (Nat.mul_le_mul_left _ upToNine) (ih others)
      _ = 10 ^ (digit :: rest).length := by rw [List.length_cons, Nat.pow_succ]; omega

theorem isDigit_of_isNatural (natural : Scan.isNatural digits = true) :
    ∀ digit ∈ digits, Scan.isDigit digit = true := by
  simp only [Scan.isNatural, Bool.and_eq_true, List.all_eq_true] at natural
  exact natural.2

theorem value_of_isNatural (natural : Scan.isNatural digits = true) :
    value digits = magnitude digits := by
  unfold value
  split
  · cases natural
  · rfl

theorem digitCount_of_isNatural (natural : Scan.isNatural digits = true) :
    digitCount digits = digits.length := by
  unfold digitCount
  split
  · cases natural
  · rfl

theorem natAbs_value_lt (number : Scan.isInteger literal = true) :
    (value literal).natAbs < 10 ^ digitCount literal := by
  unfold Scan.isInteger at number
  split at number
  · rw [value, Int.natAbs_neg]
    exact magnitude_lt (isDigit_of_isNatural number)
  · rw [value_of_isNatural number, digitCount_of_isNatural number]
    exact magnitude_lt (isDigit_of_isNatural number)

theorem isNatural_toDigits (number : Nat) : Scan.isNatural (Nat.toDigits 10 number) = true := by
  have nonempty : Nat.toDigits 10 number ≠ [] := Nat.toDigits_ne_nil
  have digits : ∀ char ∈ Nat.toDigits 10 number, Scan.isDigit char = true := fun char member =>
    Nat.isDigit_of_mem_toDigits (by decide) (by decide) member
  simpa [Scan.isNatural, nonempty] using digits

theorem magnitude_toDigits (number : Nat) : magnitude (Nat.toDigits 10 number) = number :=
  Nat.ofDigitChars_ten_toDigits

/-- The number of decimal digits of an integer, without zeros in front. -/
def digitsOf (value : Int) : Nat :=
  (Nat.toDigits 10 value.natAbs).length

theorem digitsOf_le_iff {value : Int} {count : Nat} (positive : 0 < count) :
    digitsOf value ≤ count ↔ value.natAbs < 10 ^ count :=
  Nat.length_toDigits_le_iff (by decide) positive

end Text.Decimal

namespace ModuleTree

/-- An integer that is written out is a literal of itself, if it has few enough digits. -/
theorem isLiteral_toString {value : Int}
    (short : Text.Decimal.digitsOf value ≤ Text.Decimal.digitLimit) :
    IsLiteral (toString value) value := by
  cases value with
  | ofNat number =>
    have natural := Text.Decimal.isNatural_toDigits number
    have spelled : (toString (Int.ofNat number)).toList = Nat.toDigits 10 number := Nat.toList_repr
    rw [IsLiteral, spelled]
    refine ⟨Scan.isInteger_of_isNatural natural, ?_, ?_⟩
    · rw [Text.Decimal.digitCount_of_isNatural natural]
      exact short
    · rw [Text.Decimal.value_of_isNatural natural, Text.Decimal.magnitude_toDigits]
      rfl
  | negSucc number =>
    have spelled : (toString (Int.negSucc number)).toList = '-' :: Nat.toDigits 10 (number + 1) := by
      rw [Int.toString_eq_repr, Int.repr, String.toList_append, Nat.toList_repr]
      rfl
    rw [IsLiteral, spelled]
    refine ⟨Text.Decimal.isNatural_toDigits (number + 1), short, ?_⟩
    rw [Text.Decimal.value, Text.Decimal.magnitude_toDigits]
    rfl

/-- No literal that can be read has a value with more digits than are read. -/
theorem IsLiteral.digitsOf_le {literal : String} {value : Int}
    (isLiteral : IsLiteral literal value) :
    Text.Decimal.digitsOf value ≤ Text.Decimal.digitLimit := by
  obtain ⟨number, short, rfl⟩ := isLiteral
  rw [Text.Decimal.digitsOf_le_iff (by decide)]
  exact Nat.lt_of_lt_of_le (Text.Decimal.natAbs_value_lt number)
    (Nat.pow_le_pow_right (by decide) short)

end ModuleTree

end WireModules
