import Intcode.Machine.Run
import Intcode.Session.Event
import Intcode.Span

/-!
# Sessions

A session runs one machine to its end. It writes what the machine puts out, asks for input when the
machine waits for it, and closes when the machine halts, fails, or waits in vain. It moves in small
steps, each of which answers with the events that it causes, so that whoever holds the session can
show them at once.
-/

namespace Intcode

/-- What a session is doing. -/
inductive Phase where
  | executing
  /-- Waiting for a line of input. -/
  | prompting
  /-- Over, with or without success. -/
  | closed (success : Bool)
deriving DecidableEq, Repr

/-- A machine, and what has been shown of it so far. -/
structure Session where
  machine : Machine
  /-- The number of outputs that have been written. -/
  printed : Nat
  phase : Phase
  /-- Whether every instruction is shown before its execution. -/
  traced : Bool
  /-- The cells to write at the end. -/
  dump : Option Span
deriving DecidableEq, Repr

namespace Session

/-- A session at its start, with the input that is known by then. -/
def ofMachine (machine : Machine) (inputs : List Cell) (traced : Bool) (dump : Option Span) :
    Session where
  machine := machine.start (.ofList inputs)
  printed := 0
  phase := .executing
  traced := traced
  dump := dump

/-! ## Events -/

/-- The instruction that a machine is about to execute, if there is one. -/
def announce (traced : Bool) (m : Machine) : List Event :=
  if traced then
    match m.fetch with
    | .ok i => [.trace m.label m.pointer m.base i]
    | .error _ => []
  else []

/-- The outputs of a machine after the first `printed`. -/
def unprinted (printed : Nat) (m : Machine) : List Event :=
  (m.output.extract printed m.output.size).toList.map .value

/-- The cells of a span, as far as memory reaches. -/
def dumpCells (memory : Memory) (span : Span) : List Event :=
  let stop := min span.stop memory.capacity
  let clipped := if stop < span.stop then [.notice (.dumpClipped memory.capacity)] else []
  let cells := (memory.cells.extract span.start stop).toList
  clipped ++ cells.mapIdx fun i v ↦ .cell (span.start + i) v

/-- What is shown of a machine that has halted. -/
def summary (dump : Option Span) (m : Machine) : List Event :=
  let leftover := if m.queue.isEmpty then [] else [.notice (.leftover m.queue.size)]
  let dumped :=
    match dump with
    | some span => dumpCells m.memory span
    | none => []
  leftover ++ [.notice (.halted m.label m.pointer m.output.size)] ++ dumped

/-! ## Steps -/

/-- Lets the machine execute one instruction. A machine that has paused after an output goes on
with the input it has left. -/
def execute : Session → Session × List Event
  | ⟨m, printed, _, traced, dump⟩ =>
    let announced := announce traced m
    match m.step with
    | (.error fault, m) =>
      let events := announced ++ unprinted printed m ++ [.notice (.failed m.label fault)]
      let printed := m.output.size
      (⟨m, printed, .closed false, traced, dump⟩, events)
    | (.ok _, m) =>
      match m.status with
      | .running => (⟨m, printed, .executing, traced, dump⟩, announced)
      | .paused .output =>
        let events := announced ++ unprinted printed m
        let printed := m.output.size
        let (queue, m) := m.takeQueue
        (⟨m.start queue, printed, .executing, traced, dump⟩, events)
      | .paused .input =>
        let events := announced ++ unprinted printed m ++ [.prompt m.label]
        let printed := m.output.size
        (⟨m, printed, .prompting, traced, dump⟩, events)
      | .halted =>
        let events := announced ++ unprinted printed m ++ summary dump m
        let printed := m.output.size
        (⟨m, printed, .closed true, traced, dump⟩, events)

/-- Takes a line of input, or the news that there is none. A bad line is reported, and another one
is asked for. -/
def answer (s : Session) : Option Line → Session × List Event
  | none => ({ s with phase := .closed false }, [.notice (.inputClosed s.machine.label)])
  | some line =>
    match line.read with
    | .error error => (s, [.notice (.badLine error), .prompt s.machine.label])
    | .ok values =>
      let (queue, m) := s.machine.takeQueue
      ({ s with machine := m.start (queue.extend values), phase := .executing }, [])

end Session

end Intcode
