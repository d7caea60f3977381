import Intcode.Fault
import Intcode.Instruction.Basic

/-!
# Decoding

An opcode cell holds the opcode in its low two decimal digits and a mode in each digit above them,
the mode of the first parameter lowest. Only the digits of the parameters that the opcode takes are
looked at. A fetch decodes the cell at the pointer and takes the parameters from the cells after it.
-/

namespace Intcode

/-- The mode digit of a parameter in an opcode cell. -/
def modeDigit (cell : Cell) (parameter : Nat) : Nat :=
  Decimal.dropDigits (parameter + 1) cell.toInt.toNat % 10

theorem modeDigit_eq (cell : Cell) (parameter : Nat) :
    modeDigit cell parameter = cell.toInt.toNat / Nat.pow 10 (parameter + 1) % 10 := by
  rw [modeDigit, Decimal.dropDigits_eq]

/-- Reads an opcode cell. A digit that is no mode, or that is the immediate one at a parameter to
write, is reported at the first parameter that has one. -/
def Shape.decode (cell : Cell) : Except Cause Shape :=
  match if cell < 0 then none else Opcode.ofCode? (cell.toInt % 100) with
  | none => .error (.unknownOpcode cell)
  | some op => op.bare.traverse (select Mode.ofDigit?) (select Addressing.ofDigit?)
where
  /-- The selection made by the digit of parameter `i`. -/
  select {γ : Type} (choose : Int → Option γ) (i : Nat) (_ : Unit) : Except Cause γ :=
    match choose (modeDigit cell i) with
    | some choice => .ok choice
    | none => .error (.invalidMode (modeDigit cell i) i)

/-- The cell of a program at an index. -/
def cellAt (cells : Array Cell) (index : Nat) : Except Cause Cell :=
  match cells[index]? with
  | some cell => .ok cell
  | none => .error (.addressOutOfRange (.ofAddress index))

/-- The instruction that starts at `pointer`. -/
def Fetched.fetch (cells : Array Cell) (pointer : Nat) : Except Cause Fetched := do
  let shape ← Shape.decode (← cellAt cells pointer)
  shape.traverse
    (fun i mode ↦ return ⟨mode, ← cellAt cells (pointer + i)⟩)
    (fun i addressing ↦ return ⟨addressing, ← cellAt cells (pointer + i)⟩)

example : Shape.decode 1002 = .ok (.binary .mul .position .immediate .position) := rfl
example : Shape.decode 11101 = .error (.invalidMode 1 3) := rfl
example : Fetched.fetch #[203, -3] 0 = .ok (.input ⟨.relative, -3⟩) := rfl
example : Fetched.fetch #[1101, 4] 0 = .error (.addressOutOfRange 2) := rfl

end Intcode
