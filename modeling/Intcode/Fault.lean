import Intcode.Cell

/-!
# Faults

Why a program cannot be loaded, decoded or run any further. No fault can be recovered from: the
machine halts on the first one and says where it stood.
-/

namespace Intcode

/-- What went wrong. -/
inductive Cause where
  /-- The program has more cells than memory. -/
  | programTooLong (length capacity : Nat)
  /-- The low two digits of a cell are no opcode. -/
  | unknownOpcode (cell : Cell)
  /-- A digit is no mode of the parameter with this number. Parameters are numbered from one. -/
  | invalidMode (digit : Nat) (parameter : Nat)
  /-- An address to read, to write or to jump to is outside of memory. -/
  | addressOutOfRange (address : Cell)
  /-- An input is needed, none is there, and the machine does not pause for it. -/
  | inputExhausted
deriving DecidableEq, Repr

/-- A cause, with the pointer and the opcode cell at which it arose. -/
structure Fault where
  cause : Cause
  pointer : Nat
  opcode : Cell
deriving DecidableEq, Repr

/-- The wording of a cause. -/
def Cause.message : Cause → String
  | programTooLong length capacity =>
      s!"program of {Decimal.ofNat length} cells does not fit into " ++
        s!"{Decimal.ofNat capacity} cells of memory"
  | unknownOpcode cell => s!"unknown opcode {cell.text}"
  | invalidMode digit parameter =>
      s!"invalid mode {Decimal.ofNat digit} for parameter {Decimal.ofNat parameter}"
  | addressOutOfRange address => s!"address {address.text} out of range"
  | inputExhausted => "input exhausted"

/-- The wording of a fault: its cause, and then its place. -/
def Fault.message (f : Fault) : String :=
  s!"{f.cause.message} @ {Decimal.ofNat f.pointer} (opcode {f.opcode.text})"

end Intcode
