/-!
# Decimal numerals

Writing integers in base ten, and reading an integer of a bounded range with the reason when a
text is none. A numeral is an optional sign and one or more ASCII digits; a minus sign is part of
a numeral only where the range holds negative numbers.
-/

namespace Intcode.Decimal

/-! ## Writing -/

/-- The digits of a natural number, without leading zeros. -/
def digits (n : Nat) : List Char := Nat.toDigits 10 n

/-- A natural number without its `k` lowest digits. -/
def dropDigits : Nat → Nat → Nat
  | 0, n => n
  | k + 1, n => dropDigits k (n / 10)

theorem dropDigits_eq (k n : Nat) : dropDigits k n = n / Nat.pow 10 k := by
  induction k generalizing n with
  | zero => exact (Nat.div_one n).symm
  | succ k ih => rw [dropDigits, ih, Nat.div_div_eq_div_mul, Nat.mul_comm]; rfl

/-- The numeral of a natural number. -/
def ofNat (n : Nat) : String := String.ofList (digits n)

/-- The numeral of an integer, with a sign only if it is negative. -/
def ofInt (i : Int) : String :=
  if i < 0 then "-" ++ ofNat i.natAbs else ofNat i.natAbs

/-- The numeral of an integer, with a sign in any case. -/
def signed (i : Int) : String :=
  if i < 0 then "-" ++ ofNat i.natAbs else "+" ++ ofNat i.natAbs

/-! ## Reading -/

/-- Why a text is not the numeral of an integer in range. -/
inductive Error where
  | empty
  | invalidDigit
  | tooLarge
  | tooSmall
deriving DecidableEq, Repr

/-- The wording of a reading error. -/
def Error.message : Error → String
  | .empty => "cannot parse integer from empty string"
  | .invalidDigit => "invalid digit found in string"
  | .tooLarge => "number too large to fit in target type"
  | .tooSmall => "number too small to fit in target type"

/-- Takes the sign off a numeral: whether the number is negative, and what follows the sign. -/
def splitSign (negatives : Bool) : List Char → Bool × List Char
  | '+' :: cs => (false, cs)
  | '-' :: cs => if negatives then (true, cs) else (false, '-' :: cs)
  | cs => (false, cs)

/-- Reads an integer between `least` and `greatest`. The range is checked on the digits up to the
first other character, so a number out of range is reported as such whatever follows it. -/
def read (least greatest : Int) (cs : List Char) : Except Error Int :=
  if cs.isEmpty then .error .empty
  else
    let (negative, body) := splitSign (least < 0) cs
    let number := body.takeWhile Char.isDigit
    let magnitude : Int := Nat.ofDigitChars 10 number 0
    let value := if negative then -magnitude else magnitude
    if number.isEmpty then .error .invalidDigit
    else if greatest < value then .error .tooLarge
    else if value < least then .error .tooSmall
    else if number.length < body.length then .error .invalidDigit
    else .ok value

/-- The greatest size that can be read: sizes and addresses have 64 bits. -/
def greatestSize : Nat := UInt64.size - 1

/-- Reads a size. -/
def readSize (cs : List Char) : Except Error Nat :=
  (read 0 greatestSize cs).map Int.toNat

theorem ofNat_toList (n : Nat) : (ofNat n).toList = Nat.toDigits 10 n := by
  simp [ofNat, digits]

/-- The digits of a number are worth the number. -/
theorem ofDigitChars_digits (n : Nat) : Nat.ofDigitChars 10 (digits n) 0 = n :=
  Nat.ofDigitChars_toDigits (by decide) (by decide)

example : ofInt (-120) = "-120" ∧ signed 0 = "+0" := by decide +kernel
example : read (-128) 127 ['-', '1', '2', '8'] = .ok (-128) := rfl
example : read (-128) 127 ['1', '2', '8', 'x'] = .error .tooLarge := rfl
example : read 0 127 ['-', '1'] = .error .invalidDigit := rfl

end Intcode.Decimal
