import Intcode.Instruction.Decode
import Intcode.Machine.Basic

/-!
# One step

A step executes the instruction at the pointer in place: the operands are looked up, the machine is
changed bit by bit, and at last the pointer moves on. An instruction may fail at any point of this,
and then the machine is left as it is by then, and halts. That nothing has been changed by then is
no matter of the definition; it depends on the order in which things are looked up and changed.
-/

namespace Intcode

/-- What a step reports. -/
inductive Signal where
  /-- An instruction was executed, and there is nothing to tell about it. -/
  | executed
  /-- A value was put out. -/
  | output (value : Cell)
  /-- The machine has paused before an input. -/
  | awaitingInput
  /-- The machine has halted, now or before. -/
  | halted
deriving DecidableEq, Repr

namespace Machine

/-! ## Looking up -/

/-- The address that a parameter names. Distances from the base wrap around. -/
def address (m : Machine) : Addressing → Cell → Cell
  | .position, p => p
  | .relative, p => m.base + p

/-- The value of an operand. -/
def value (m : Machine) : Operand → Except Cause Cell
  | ⟨.immediate, p⟩ => .ok p
  | ⟨.memory addressing, p⟩ =>
    match m.memory.read? (m.address addressing p) with
    | some v => .ok v
    | none => .error (.addressOutOfRange (m.address addressing p))

/-- The index of the cell at an address. -/
def locate (m : Machine) (address : Cell) : Except Cause Nat :=
  match m.memory.index? address with
  | some i => .ok i
  | none => .error (.addressOutOfRange address)

/-- The address of a target, which must be one of memory. -/
def target (m : Machine) (t : Target) : Except Cause Cell := do
  let address := m.address t.addressing t.parameter
  let _ ← m.locate address
  return address

/-- Looks up the values that an instruction reads, and then checks the address that it writes. -/
def ready (m : Machine) (i : Fetched) : Except Cause Ready :=
  i.traverse (fun _ ↦ m.value) (fun _ ↦ m.target)

/-- The instruction at the pointer. -/
def fetch (m : Machine) : Except Cause Fetched := Fetched.fetch m.memory.cells m.pointer

end Machine

/-! ## Changing the machine -/

/-- A computation on a machine. If it fails, what it has changed by then stays changed. -/
abbrev Execution := ExceptT Cause (StateM Machine)

namespace Execution

/-- Changes the cell at an address. -/
def store (address v : Cell) : Execution Unit := do
  match (← get).memory.write? address v with
  | some memory => modify fun m ↦ { m with memory := memory }
  | none => throw (.addressOutOfRange address)

/-- Takes the next value from the queue. -/
def pop : Execution (Option Cell) := do
  match (← get).queue.pop? with
  | some (v, rest) =>
    modify fun m ↦ { m with queue := rest }
    return some v
  | none => return none

/-- Sets the status. -/
def become (status : Status) : Execution Unit := modify fun m ↦ { m with status := status }

/-- Executes an instruction. The pointer moves when all else is done, and does not move if the
machine pauses for an input. -/
def execute (i : Fetched) : Execution Signal := do
  let m ← get
  let mut next := m.pointer + i.width
  let mut signal := .executed
  match ← m.ready i with
  | .binary op a b dst => store dst (op.apply a b)
  | .input dst =>
    match ← pop with
    | some v => store dst v
    | none =>
      if m.config.pauseOnInput then
        become (.paused .input)
        return .awaitingInput
      else throw .inputExhausted
  | .output a =>
    modify fun m ↦ { m with output := m.output.push a }
    if m.config.pauseOnOutput then become (.paused .output)
    signal := .output a
  | .jump condition a target =>
    if condition.holds a then next ← m.locate target
  | .adjustBase a => modify fun m ↦ { m with base := m.base + a }
  | .halt =>
    become .halted
    signal := .halted
  modify fun m ↦ { m with pointer := next }
  return signal

/-- Executes the instruction at the pointer. The machine is set running first. -/
def advance : Execution Signal := do
  become .running
  execute (← (← get).fetch)

end Execution

namespace Machine

/-- The fault of a cause that arises at the pointer. -/
def fault (m : Machine) (cause : Cause) : Fault :=
  { cause := cause, pointer := m.pointer, opcode := m.memory.cells[m.pointer]?.getD 0 }

/-- Executes one instruction. A paused machine goes on, a halted one stays as it is, and one that
fails halts. -/
def step (m : Machine) : Except Fault Signal × Machine :=
  if m.status = .halted then (.ok .halted, m)
  else
    match Execution.advance.run.run m with
    | (.ok signal, m) => (.ok signal, m)
    | (.error cause, m) => (.error (m.fault cause), { m with status := .halted })

theorem step_of_halted {m : Machine} (h : m.status = .halted) : m.step = (.ok .halted, m) := by
  simp [step, h]

end Machine

end Intcode
