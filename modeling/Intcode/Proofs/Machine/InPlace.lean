import Intcode.Proofs.Machine.Operands

/-!
# Steps in place

A step changes its machine in place and may fail in the middle. Here it is compared with the plan of
the step, which is made before anything is changed. They agree: whatever can fail is looked up
first, a value is taken from the queue only for a cell that can be written, and this cell is still
there when the value is stored. So a step that fails has changed nothing, although nothing is ever
taken back.
-/

namespace Intcode

/-- The instruction ready for execution. -/
def Resolved.ready : Resolved → Ready
  | .binary op a b dst => .binary op a b (.ofAddress dst)
  | .input dst => .input (.ofAddress dst)
  | .output a => .output a
  | .jump condition a target => .jump condition a target
  | .adjustBase a => .adjustBase a
  | .halt => .halt

variable {m : Machine}

namespace Machine

theorem Denotes.ofAddress_eq {a : Cell} {k : Nat} (h : m.Denotes a k) : Cell.ofAddress k = a := by
  rw [Cell.ofAddress, ← Int64.ofInt_eq_ofNat, ← h.1, Int64.ofInt_toInt]

theorem Denotes.write?_eq {a : Cell} {k : Nat} (h : m.Denotes a k) (v : Cell) :
    m.memory.write? (.ofAddress k) v = some (m.memory.set k v) := by
  rw [Memory.write?, h.ofAddress_eq, index?_eq_some_iff.2 h]
  rfl

theorem target_eq (m : Machine) (t : Target) :
    m.target t = (m.locate (m.address t.addressing t.parameter)).map Cell.ofAddress := by
  unfold target
  cases hlocate : m.locate (m.address t.addressing t.parameter) with
  | error cause => simp only [hlocate, Except.map]; rfl
  | ok k =>
      simp only [hlocate, Except.map, (locate_eq_ok_iff.1 hlocate).ofAddress_eq]
      rfl

theorem ready_eq (m : Machine) (i : Fetched) : m.ready i = (m.resolve i).map Resolved.ready := by
  simp only [ready, resolve]
  cases i with
  | binary op a b dst =>
      simp only [Instruction.traverse, target_eq]
      rcases m.value a with _ | x
      · rfl
      rcases m.value b with _ | y
      · rfl
      rcases m.locate (m.address dst.addressing dst.parameter) with _ | k <;> rfl
  | input dst =>
      simp only [Instruction.traverse, target_eq]
      rcases m.locate (m.address dst.addressing dst.parameter) with _ | k <;> rfl
  | output a =>
      simp only [Instruction.traverse]
      rcases m.value a with _ | x <;> rfl
  | jump condition a target =>
      simp only [Instruction.traverse]
      rcases m.value a with _ | x
      · rfl
      rcases m.value target with _ | y <;> rfl
  | adjustBase a =>
      simp only [Instruction.traverse]
      rcases m.value a with _ | x <;> rfl
  | halt => rfl

end Machine

namespace Execution

open Machine

variable {α β : Type} {f : α → Execution β}

/-! ## One thing after the other -/

@[simp] theorem run_pure (a : α) : (pure a : Execution α).run.run m = (.ok a, m) := rfl

@[simp] theorem run_throw (cause : Cause) :
    (throw cause : Execution α).run.run m = (.error cause, m) := rfl

@[simp] theorem run_get_bind (f : Machine → Execution β) :
    (get >>= f).run.run m = (f m).run.run m := rfl

@[simp] theorem run_modify_bind (g : Machine → Machine) (f : PUnit → Execution β) :
    (modify g >>= f).run.run m = (f ⟨⟩).run.run (g m) := rfl

@[simp] theorem run_become_bind (status : Status) (f : Unit → Execution β) :
    (become status >>= f).run.run m = (f ()).run.run { m with status := status } := rfl

@[simp] theorem run_throw_bind (cause : Cause) :
    ((throw cause : Execution α) >>= f).run.run m = (.error cause, m) := rfl

/-- What is looked up is there, or the computation ends with the cause and has changed nothing. -/
theorem run_liftM_bind (x : Except Cause α) :
    ((liftM x : Execution α) >>= f).run.run m =
      match x with
      | .ok a => (f a).run.run m
      | .error cause => (.error cause, m) := by
  cases x <;> rfl

/-- A cell that can be written is written. -/
theorem run_store_bind {a : Cell} {k : Nat} (h : m.Denotes a k) (v : Cell)
    (f : Unit → Execution β) :
    (store (.ofAddress k) v >>= f).run.run m =
      (f ()).run.run { m with memory := m.memory.set k v } := by
  have hstore : (store (.ofAddress k) v).run.run m =
      (.ok (), { m with memory := m.memory.set k v }) := by
    simp only [store, run_get_bind, h.write?_eq]
    rfl
  rw [ExceptT.run_bind, StateT.run_bind, hstore]
  rfl

theorem run_pop_bind (f : Option Cell → Execution β) :
    (pop >>= f).run.run m =
      match m.queue.pop? with
      | some (v, rest) => (f (some v)).run.run { m with queue := rest }
      | none => (f none).run.run m := by
  have hpop : pop.run.run m =
      match m.queue.pop? with
      | some (v, rest) => (.ok (some v), { m with queue := rest })
      | none => (.ok none, m) := by
    simp only [pop, run_get_bind]
    cases m.queue.pop? <;> rfl
  rw [ExceptT.run_bind, StateT.run_bind, hpop]
  cases m.queue.pop? <;> rfl

/-! ## Instructions -/

/-- A running machine executes an instruction as its effect says, or fails and is still as it
was. -/
theorem run_execute (m : Machine) (i : Fetched) :
    (execute i).run.run { m with status := .running } =
      match m.resolve i >>= m.effect with
      | .ok e => (.ok (m.perform e).1, (m.perform e).2)
      | .error cause => (.error cause, { m with status := .running }) := by
  have hready : { m with status := .running }.ready i = (m.resolve i).map Resolved.ready :=
    m.ready_eq i
  simp only [execute, run_get_bind, run_liftM_bind, hready]
  cases hresolve : m.resolve i with
  | error cause => rfl
  | ok j =>
      have hplan : Except.ok j >>= m.effect = m.effect j := rfl
      rw [hplan]
      -- A target has been located, so what is stored has a place.
      cases resolve_eq_ok_iff.1 hresolve with
      | binary _ _ hdst =>
          simp only [Except.map, Resolved.ready,
            run_store_bind (m := { m with status := .running }) hdst]
          rfl
      | input hdst =>
          simp only [Except.map, Resolved.ready, run_pop_bind, effect]
          cases m.queue.pop? with
          | some popped =>
              have hstore (f : Unit → Execution Signal) := run_store_bind
                (m := { m with queue := popped.2, status := .running }) hdst popped.1 f
              simp only [hstore]
              rfl
          | none => cases m.config.pauseOnInput <;> rfl
      | output =>
          simp only [Except.map, Resolved.ready, run_modify_bind, effect, perform]
          cases m.config.pauseOnOutput <;> rfl
      | @jump c _ _ x y =>
          have hlocate : { m with status := .running }.locate y = m.locate y := rfl
          simp only [Except.map, Resolved.ready, effect]
          cases c.holds x with
          | false => rfl
          | true =>
              simp only [if_true, hlocate, run_liftM_bind]
              cases m.locate y <;> rfl
      | adjustBase => rfl
      | halt => rfl

/-- A machine executes the instruction at the pointer as planned, or fails and is still as it was,
but for being set running. -/
theorem run_advance (m : Machine) :
    advance.run.run m =
      match m.plan with
      | .ok e => (.ok (m.perform e).1, (m.perform e).2)
      | .error cause => (.error cause, { m with status := .running }) := by
  have hfetch : { m with status := .running }.fetch = m.fetch := rfl
  simp only [advance, run_become_bind, run_get_bind, run_liftM_bind, hfetch, plan]
  cases m.fetch with
  | error cause => rfl
  | ok i => exact run_execute m i

end Execution

namespace Machine

/-! ## Steps -/

theorem step_of_plan_eq_ok {e : Effect} (h : m.status ≠ .halted) (he : m.plan = .ok e) :
    m.step = (.ok (m.perform e).1, (m.perform e).2) := by
  simp only [step, h, if_false, Execution.run_advance, he]

/-- A step that fails halts the machine and leaves all else as it was. -/
theorem step_of_plan_eq_error {cause : Cause} (h : m.status ≠ .halted)
    (he : m.plan = .error cause) :
    m.step = (.error (m.fault cause), { m with status := .halted }) := by
  simp only [step, h, if_false, Execution.run_advance, he]
  rfl

@[simp] theorem config_step (m : Machine) : m.step.2.config = m.config := by
  by_cases h : m.status = .halted
  · rw [step_of_halted h]
  · cases he : m.plan with
    | ok e => rw [step_of_plan_eq_ok h he, config_perform]
    | error cause => rw [step_of_plan_eq_error h he]

@[simp] theorem capacity_step (m : Machine) : m.step.2.memory.capacity = m.memory.capacity := by
  by_cases h : m.status = .halted
  · rw [step_of_halted h]
  · cases he : m.plan with
    | ok e => rw [step_of_plan_eq_ok h he, capacity_perform]
    | error cause => rw [step_of_plan_eq_error h he]

end Machine

end Intcode
