import Intcode.Text.Decimal

/-!
# Cells

A cell of memory is a signed 64-bit word. Arithmetic on cells wraps around.
-/

namespace Intcode

/-- One cell of memory. Programs, addresses, inputs and outputs are all made of cells. -/
abbrev Cell := Int64

namespace Cell

/-- The least value of a cell. -/
def least : Int := Int64.minValue.toInt

/-- The greatest value of a cell. -/
def greatest : Int := Int64.maxValue.toInt

/-- The decimal numeral of a cell. -/
def text (c : Cell) : String := Decimal.ofInt c.toInt

/-- Reads a cell from its decimal numeral. -/
def read (cs : List Char) : Except Decimal.Error Cell :=
  (Decimal.read least greatest cs).map Int64.ofInt

/-- The cell of a truth value: one for true and zero for false. -/
def ofBool (b : Bool) : Cell := if b then 1 else 0

/-- The cell that an address is reported as. Addresses past the range of a cell wrap around. -/
def ofAddress (address : Nat) : Cell := Int64.ofNat address

example : ofAddress 18446744073709551615 = -1 := by decide

end Cell

end Intcode
