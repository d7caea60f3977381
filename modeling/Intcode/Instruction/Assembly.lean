import Intcode.Instruction.Basic

/-!
# Assembly text

An instruction is written as its mnemonic and its parameters: an address in brackets, a distance
from the base as `rb` with its sign in brackets, a value bare.
-/

namespace Intcode

/-- The text of a parameter. -/
def Operand.text : Operand → String
  | ⟨.position, p⟩ => "[" ++ p.text ++ "]"
  | ⟨.immediate, p⟩ => p.text
  | ⟨.relative, p⟩ => "[rb" ++ Decimal.signed p.toInt ++ "]"

/-- The text of an instruction. -/
def Fetched.text (i : Fetched) : String :=
  match i.operands with
  | [] => i.opcode.mnemonic
  | operands => i.opcode.mnemonic ++ " " ++ ", ".intercalate (operands.map Operand.text)

example : Fetched.text (.binary .add ⟨.immediate, 4⟩ ⟨.position, 5⟩ ⟨.relative, 0⟩) =
    "add 4, [5], [rb+0]" := by decide +kernel
example : Fetched.text .halt = "halt" := rfl

end Intcode
