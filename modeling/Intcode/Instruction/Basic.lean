import Intcode.Mode
import Intcode.Opcode

/-!
# Instructions

An instruction is an opcode with something at each of its parameters. What stands there changes on
the way from memory to execution: first the mode alone, then mode and parameter, at last the value
that is read and the address that is written. So the type has one argument for the parameters that
are read and one for those that are written, and each stage is a `traverse` of the one before.
-/

namespace Intcode

/-- The instruction set, with an `α` at each parameter that is read and a `β` at each one that is
written. -/
inductive Instruction (α β : Type) where
  | binary (op : BinaryOp) (a b : α) (dst : β)
  | input (dst : β)
  | output (a : α)
  | jump (condition : Condition) (a target : α)
  | adjustBase (a : α)
  | halt
deriving DecidableEq, Repr

/-- A parameter that is read. -/
structure Operand where
  mode : Mode
  parameter : Cell
deriving DecidableEq, Repr

/-- A parameter that is written. -/
structure Target where
  addressing : Addressing
  parameter : Cell
deriving DecidableEq, Repr

/-- What an opcode cell says: the opcode and the modes of its parameters. -/
abbrev Shape := Instruction Mode Addressing

/-- An instruction as it stands in memory, with its parameters. -/
abbrev Fetched := Instruction Operand Target

/-- An instruction ready for execution: the values that it reads, and the address that it writes. -/
abbrev Ready := Instruction Cell Cell

/-- A target seen as a mode and a parameter, like an operand. -/
def Target.toOperand (t : Target) : Operand := ⟨.memory t.addressing, t.parameter⟩

namespace Instruction

variable {α β γ δ : Type}

/-- The opcode of an instruction. -/
def opcode : Instruction α β → Opcode
  | binary op _ _ _ => .binary op
  | input _ => .input
  | output _ => .output
  | jump condition _ _ => .jump condition
  | adjustBase _ => .adjustBase
  | halt => .halt

/-- The number of cells that an instruction takes in memory. -/
def width (i : Instruction α β) : Nat := i.opcode.width

/-- Replaces each parameter in order, given its number, counted from one. -/
def traverse {m : Type → Type} [Monad m] (read : Nat → α → m γ) (write : Nat → β → m δ) :
    Instruction α β → m (Instruction γ δ)
  | binary op a b dst => do
      let a ← read 1 a
      let b ← read 2 b
      let dst ← write 3 dst
      return binary op a b dst
  | input dst => return input (← write 1 dst)
  | output a => return output (← read 1 a)
  | jump condition a target => do
      let a ← read 1 a
      let target ← read 2 target
      return jump condition a target
  | adjustBase a => return adjustBase (← read 1 a)
  | halt => return halt

/-- What stands at the parameters, in order. -/
def parameters (read : α → γ) (write : β → γ) : Instruction α β → List γ
  | binary _ a b dst => [read a, read b, write dst]
  | input dst => [write dst]
  | output a => [read a]
  | jump _ a target => [read a, read target]
  | adjustBase a => [read a]
  | halt => []

theorem length_parameters (read : α → γ) (write : β → γ) (i : Instruction α β) :
    (i.parameters read write).length = i.opcode.arity := by
  cases i <;> rfl

end Instruction

/-- The instruction of an opcode, with nothing at its parameters yet. -/
def Opcode.bare : Opcode → Instruction Unit Unit
  | binary op => .binary op () () ()
  | input => .input ()
  | output => .output ()
  | jump condition => .jump condition () ()
  | adjustBase => .adjustBase ()
  | halt => .halt

/-- The modes of an instruction, in order. -/
def Shape.modes (s : Shape) : List Mode := s.parameters id .memory

/-- The modes and parameters of an instruction, in order. -/
def Fetched.operands (i : Fetched) : List Operand := i.parameters id Target.toOperand

end Intcode
