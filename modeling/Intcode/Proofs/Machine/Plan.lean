import Intcode.Machine.Step

/-!
# Plans

A step seen in two halves. The first finds out what the instruction at the pointer will do, or that
it is at fault, and changes nothing. The second carries the effect out, and cannot fail. A statement
about what steps do is one about their effects, of which there are few.
-/

namespace Intcode

/-- An instruction of which all has been looked up: values to read and the index of the cell to
write. -/
abbrev Resolved := Instruction Cell Nat

/-- What an instruction does apart from moving the pointer. -/
inductive Action where
  | pass
  /-- Change the cell at an index. -/
  | store (index : Nat) (value : Cell)
  /-- Store the head of the queue and leave the rest of it. -/
  | receive (index : Nat) (value : Cell) (rest : Queue)
  | emit (value : Cell)
  | rebase (base : Cell)
  /-- Pause until there is input. -/
  | await
  | halt
deriving DecidableEq, Repr

/-- All that an instruction does: an action, and where to go on. -/
structure Effect where
  action : Action
  next : Nat
deriving DecidableEq, Repr

namespace Machine

/-! ## Finding out -/

/-- Looks up the values that an instruction reads, and then the cell that it writes. -/
def resolve (m : Machine) (i : Fetched) : Except Cause Resolved :=
  i.traverse (fun _ ↦ m.value) (fun _ t ↦ m.locate (m.address t.addressing t.parameter))

/-- What a resolved instruction does. -/
def effect (m : Machine) (i : Resolved) : Except Cause Effect :=
  let next := m.pointer + i.width
  match i with
  | .binary op a b dst => .ok ⟨.store dst (op.apply a b), next⟩
  | .input dst =>
    match m.queue.pop? with
    | some (v, rest) => .ok ⟨.receive dst v rest, next⟩
    | none =>
      if m.config.pauseOnInput then .ok ⟨.await, m.pointer⟩ else .error .inputExhausted
  | .output a => .ok ⟨.emit a, next⟩
  | .jump condition a target =>
    if condition.holds a then return ⟨.pass, ← m.locate target⟩ else .ok ⟨.pass, next⟩
  | .adjustBase a => .ok ⟨.rebase (m.base + a), next⟩
  | .halt => .ok ⟨.halt, next⟩

/-- What the instruction at the pointer does. -/
def plan (m : Machine) : Except Cause Effect := do
  m.effect (← m.resolve (← m.fetch))

/-! ## Carrying out -/

/-- Carries an effect out. -/
def perform (m : Machine) (e : Effect) : Signal × Machine :=
  let m := { m with pointer := e.next, status := .running }
  match e.action with
  | .pass => (.executed, m)
  | .store index v => (.executed, { m with memory := m.memory.set index v })
  | .receive index v rest =>
    (.executed, { m with memory := m.memory.set index v, queue := rest })
  | .emit v =>
    (.output v,
      { m with
        output := m.output.push v
        status := if m.config.pauseOnOutput then .paused .output else .running })
  | .rebase base => (.executed, { m with base := base })
  | .await => (.awaitingInput, { m with status := .paused .input })
  | .halt => (.halted, { m with status := .halted })

@[simp] theorem config_perform (m : Machine) (e : Effect) : (m.perform e).2.config = m.config := by
  rcases e with ⟨_ | _ | _ | _ | _ | _ | _, _⟩ <;> rfl

@[simp] theorem capacity_perform (m : Machine) (e : Effect) :
    (m.perform e).2.memory.capacity = m.memory.capacity := by
  rcases e with ⟨_ | _ | _ | _ | _ | _ | _, _⟩ <;> simp [perform]

end Machine

end Intcode
