import Intcode.Cell

/-!
# Opcodes

The ten operations of the machine. The four that combine two values and the two that jump are
grouped, because each group shares its parameters and differs only in what it computes.
-/

namespace Intcode

/-- Operations that combine two values into a third. -/
inductive BinaryOp where
  | add
  | mul
  | lessThan
  | equals
deriving DecidableEq, Repr

/-- When a jump is taken. -/
inductive Condition where
  | nonzero
  | zero
deriving DecidableEq, Repr

/-- The instruction set. -/
inductive Opcode where
  /-- Store the value of `a` and `b` in `dst`. -/
  | binary (op : BinaryOp)
  /-- Store the next input value in `dst`. -/
  | input
  /-- Append `a` to the output log. -/
  | output
  /-- Continue at `target` if the condition holds of `a`. -/
  | jump (condition : Condition)
  /-- Add `a` to the base. -/
  | adjustBase
  /-- Stop. -/
  | halt
deriving DecidableEq, Repr

/-- The value of an operation. Sums and products wrap around, comparisons give one or zero. -/
def BinaryOp.apply : BinaryOp → Cell → Cell → Cell
  | add, a, b => a + b
  | mul, a, b => a * b
  | lessThan, a, b => Cell.ofBool (a < b)
  | equals, a, b => Cell.ofBool (a = b)

/-- Whether a jump on value `a` is taken. -/
def Condition.holds : Condition → Cell → Bool
  | nonzero, a => a ≠ 0
  | zero, a => a = 0

namespace Opcode

@[match_pattern] abbrev add : Opcode := binary .add
@[match_pattern] abbrev mul : Opcode := binary .mul
@[match_pattern] abbrev lessThan : Opcode := binary .lessThan
@[match_pattern] abbrev equals : Opcode := binary .equals
@[match_pattern] abbrev jumpIfTrue : Opcode := jump .nonzero
@[match_pattern] abbrev jumpIfFalse : Opcode := jump .zero

/-- All opcodes, by ascending code. -/
def all : List Opcode :=
  [add, mul, input, output, jumpIfTrue, jumpIfFalse, lessThan, equals, adjustBase, halt]

/-- The two-digit code of an opcode. -/
def code : Opcode → Nat
  | add => 1
  | mul => 2
  | input => 3
  | output => 4
  | jumpIfTrue => 5
  | jumpIfFalse => 6
  | lessThan => 7
  | equals => 8
  | adjustBase => 9
  | halt => 99

/-- The opcode of a code. -/
def ofCode? (n : Int) : Option Opcode := all.find? fun op ↦ op.code = n

/-- The name of an opcode in assembly text. -/
def mnemonic : Opcode → String
  | add => "add"
  | mul => "mul"
  | input => "in"
  | output => "out"
  | jumpIfTrue => "jnz"
  | jumpIfFalse => "jz"
  | lessThan => "lt"
  | equals => "eq"
  | adjustBase => "arb"
  | halt => "halt"

/-- The number of parameters. -/
def arity : Opcode → Nat
  | binary _ => 3
  | jump _ => 2
  | input | output | adjustBase => 1
  | halt => 0

/-- The number of cells that an instruction takes, the one of the opcode included. -/
def width (op : Opcode) : Nat := op.arity + 1

/-- Whether the last parameter is written. -/
def writes : Opcode → Bool
  | binary _ | input => true
  | output | jump _ | adjustBase | halt => false

theorem mem_all (op : Opcode) : op ∈ all := by
  rcases op with ⟨_ | _ | _ | _⟩ | _ | _ | ⟨_ | _⟩ | _ | _ <;> decide

theorem code_injective {op op' : Opcode} (h : op.code = op'.code) : op = op' := by
  rcases op with ⟨_ | _ | _ | _⟩ | _ | _ | ⟨_ | _⟩ | _ | _ <;>
    rcases op' with ⟨_ | _ | _ | _⟩ | _ | _ | ⟨_ | _⟩ | _ | _ <;> first | rfl | cases h

@[simp] theorem ofCode?_code (op : Opcode) : ofCode? op.code = some op := by
  rcases op with ⟨_ | _ | _ | _⟩ | _ | _ | ⟨_ | _⟩ | _ | _ <;> rfl

theorem ofCode?_eq_some_iff {n : Int} {op : Opcode} : ofCode? n = some op ↔ n = op.code := by
  constructor
  · intro h
    have found : (op.code : Int) = n := by simpa using List.find?_some h
    exact found.symm
  · rintro rfl
    exact ofCode?_code op

end Opcode

end Intcode
