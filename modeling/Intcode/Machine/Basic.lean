import Intcode.Fault
import Intcode.Memory
import Intcode.Queue

/-!
# Machines

A machine is a program loaded into memory together with all that its execution has left behind:
pointer, base, unread input, output so far, and status. It is driven from outside, and it may be
told to pause after each output, or before an input that is not there yet.
-/

namespace Intcode

/-- Where a machine has paused. -/
inductive Pause where
  /-- Right after an output. -/
  | output
  /-- Before an input, with an empty queue. -/
  | input
deriving DecidableEq, Repr

/-- Whether a machine can go on. -/
inductive Status where
  /-- Loaded or executing. -/
  | running
  /-- Suspended, and ready to be resumed. -/
  | paused (pause : Pause)
  /-- Stopped for good, by a halt or by a fault. -/
  | halted
deriving DecidableEq, Repr

/-- The options of a machine. -/
structure Config where
  /-- The size of memory, in cells. -/
  capacity : Nat := 1000000
  /-- Pause after every output. -/
  pauseOnOutput : Bool := false
  /-- Pause for an input that is not there instead of failing. -/
  pauseOnInput : Bool := false
  name : Option String := none
deriving DecidableEq, Repr

/-- A machine at one moment of its execution. -/
structure Machine where
  memory : Memory
  /-- The index of the next instruction. -/
  pointer : Nat
  /-- What relative addresses are counted from. -/
  base : Cell
  /-- Input not read yet. -/
  queue : Queue
  /-- Everything put out since the program was loaded. -/
  output : Array Cell
  status : Status
  config : Config
deriving DecidableEq, Repr

namespace Machine

/-- A machine at the start of the program in `memory`. -/
def fresh (config : Config) (memory : Memory) : Machine where
  memory := memory
  pointer := 0
  base := 0
  queue := .empty
  output := #[]
  status := .running
  config := config

/-- Loads a program into memory, of which it must not be larger. -/
def place (memory : Memory) (program : Array Cell) : Except Fault Memory :=
  match memory.load? program with
  | some memory => .ok memory
  | none =>
    .error
      { cause := .programTooLong program.size memory.capacity
        pointer := 0
        opcode := program[0]?.getD 0 }

/-- A new machine with a program. -/
def load (program : Array Cell) (config : Config) : Except Fault Machine :=
  (place (.blank config.capacity) program).map (fresh config)

/-- Loads another program into a machine, which keeps its options and nothing else. -/
def reload (m : Machine) (program : Array Cell) : Except Fault Machine :=
  (place m.memory program).map (fresh m.config)

/-- Takes out the input that has not been read. -/
def takeQueue (m : Machine) : Queue × Machine := (m.queue, { m with queue := .empty })

/-- Whether a machine has paused for input. -/
def awaitingInput (m : Machine) : Bool := m.status = .paused .input

/-- The latest output. -/
def lastOutput? (m : Machine) : Option Cell := m.output.back?

/-- How a machine is called in messages. -/
def label (m : Machine) : String :=
  match m.config.name with
  | some name => s!"<IC({name})>"
  | none => "<IC>"

end Machine

end Intcode
