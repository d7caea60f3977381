import Intcode.Proofs.Guarded.Instruction
import Intcode.Proofs.Instruction.Extension
import Intcode.Proofs.Machine.Invariant
import Mathlib.Algebra.Ring.Nat

/-!
# Guarded machines

A step of a machine with guards. That an instruction has been fetched tells that it ends inside of
memory, so the sum that leads to the next one does not overflow; that it has been decoded tells that
its target is no immediate one; and that its operands have been resolved tells that the target can
be written. From step to step it is enough that the cells of memory have addresses and that the
pointer does not leave them. So no history of a machine comes to a mishap, whatever is asked of the
machine.
-/

namespace Intcode

/-- What an instruction reads, in three places, and the address that it writes. -/
structure Operands where
  values : Vector Cell 3
  target : Cell
deriving DecidableEq, Repr

/-- The operands of a resolved instruction. What it does not have is zero. -/
def Operands.ofResolved : Resolved → Operands
  | .binary _ a b dst => ⟨#v[a, b, 0], .ofAddress dst⟩
  | .input dst => ⟨#v[0, 0, 0], .ofAddress dst⟩
  | .output a => ⟨#v[a, 0, 0], 0⟩
  | .jump _ a target => ⟨#v[a, target, 0], 0⟩
  | .adjustBase a => ⟨#v[a, 0, 0], 0⟩
  | .halt => ⟨#v[0, 0, 0], 0⟩

namespace Guarded

variable {m : Machine} {i : Fetched}

/-! ## Resolving -/

/-- The value of an operand. -/
def value (m : Machine) : Operand → ExceptT Cause Guarded Cell
  | ⟨.immediate, p⟩ => return p
  | ⟨.memory addressing, p⟩ => do
    match ← read m.memory (m.address addressing p) with
    | some v => return v
    | none => throw (.addressOutOfRange (m.address addressing p))

/-- Puts a value in one of three places. -/
def assign (values : Vector Cell 3) (k : Nat) (v : Cell) : Guarded (Vector Cell 3) :=
  if k < 3 then .ok (values.setIfInBounds k v) else .error .outside

/-- Puts the values of operands in their places, from place `k` on. -/
def values (m : Machine) (k : Nat) (filled : Vector Cell 3) :
    List Operand → ExceptT Cause Guarded (Vector Cell 3)
  | [] => return filled
  | o :: os => do
    let v ← value m o
    let filled ← assign filled k v
    values m (k + 1) filled os

/-- The address that the last parameter names. It must be one of memory. -/
def target (m : Machine) (i : Laid) : ExceptT Cause Guarded Cell := do
  let last ← minus i.opcode.arity 1
  let mode ← (found i.modes[last]? : Guarded Mode)
  let parameter ← (found i.parameters[last]? : Guarded Cell)
  match mode with
  | .immediate => (.error .immediateTarget : Guarded Cell)
  | .memory addressing =>
    let address := m.address addressing parameter
    match m.memory.index? address with
    | some _ => return address
    | none => throw (.addressOutOfRange address)

/-- Looks up the values that an instruction reads, and checks the address that it writes. -/
def resolve (m : Machine) (i : Laid) : ExceptT Cause Guarded Operands := do
  if i.opcode.writes then
    let reads ← minus i.opcode.arity 1
    let values ← values m 0 #v[0, 0, 0] (i.operands.take reads)
    return ⟨values, ← target m i⟩
  else
    let values ← values m 0 #v[0, 0, 0] (i.operands.take i.opcode.arity)
    return ⟨values, 0⟩

theorem value_eq (m : Machine) (o : Operand) : (value m o).run = .ok (m.value o) := by
  obtain ⟨_ | addressing, p⟩ := o
  · rfl
  · simp only [value, Machine.value, read_eq, liftM_ok_bind]
    cases m.memory.read? (m.address addressing p) <;> rfl

theorem target_eq {i : Laid} {t : Target} {last : Nat} (hlast : i.opcode.arity = last + 1)
    (hmode : i.modes[last]? = some (.memory t.addressing))
    (hparameter : i.parameters[last]? = some t.parameter) :
    (target m i).run =
      .ok ((m.locate (m.address t.addressing t.parameter)).map Cell.ofAddress) := by
  have hminus : minus i.opcode.arity 1 = .ok last := by
    rw [minus_eq (by omega), hlast]
    rfl
  simp only [target, hminus, hmode, hparameter, found, liftM_ok_bind, Machine.locate]
  cases hindex : m.memory.index? (m.address t.addressing t.parameter) with
  | none => rfl
  | some k =>
      have hk : Cell.ofAddress k = m.address t.addressing t.parameter :=
        (Machine.index?_eq_some_iff.1 hindex).ofAddress_eq
      rw [← hk]
      rfl

/-- Places from place `k` on, with values put in them. -/
def fill (filled : Vector Cell 3) (k : Nat) : List Cell → Vector Cell 3
  | [] => filled
  | v :: vs => fill (filled.setIfInBounds k v) (k + 1) vs

theorem values_eq (m : Machine) (filled : Vector Cell 3) {k : Nat} {os : List Operand}
    (h : k + os.length ≤ 3) :
    (values m k filled os).run = .ok ((os.mapM m.value).map (fill filled k)) := by
  induction os generalizing k filled with
  | nil => rfl
  | cons o os ih =>
      rw [List.length_cons] at h
      have hk : k < 3 := by omega
      have hassign (v : Cell) : assign filled k v = .ok (filled.setIfInBounds k v) := if_pos hk
      simp only [values, List.mapM_cons, run_bind_eq (value_eq m o)]
      cases m.value o with
      | error cause => rfl
      | ok v =>
          simp only [hassign, liftM_ok_bind, ok_bind]
          rw [ih _ (by omega)]
          cases os.mapM m.value <;> rfl

theorem resolve_of_writes {i : Laid} (os : List Operand) (t : Target)
    (hwrites : i.opcode.writes = true) (harity : i.opcode.arity = os.length + 1)
    (hoperands : i.operands = os ++ [t.toOperand])
    (hmode : i.modes[os.length]? = some (.memory t.addressing))
    (hparameter : i.parameters[os.length]? = some t.parameter) (hlength : os.length ≤ 3) :
    (resolve m i).run = .ok do
      let vs ← os.mapM m.value
      let k ← m.locate (m.address t.addressing t.parameter)
      return ⟨fill #v[0, 0, 0] 0 vs, .ofAddress k⟩ := by
  have hminus : minus i.opcode.arity 1 = .ok os.length := by
    rw [minus_eq (by omega), harity]
    rfl
  have htake : i.operands.take os.length = os := by rw [hoperands, List.take_left]
  have hvalues := values_eq m #v[0, 0, 0] ((Nat.zero_add _).trans_le hlength)
  simp only [resolve, hwrites, if_true, hminus, liftM_ok_bind, htake, run_bind_eq hvalues]
  cases os.mapM m.value with
  | error cause => rfl
  | ok vs =>
      simp only [Except.map, ok_bind, run_bind_eq (target_eq harity hmode hparameter)]
      cases m.locate (m.address t.addressing t.parameter) <;> rfl

theorem resolve_of_not_writes {i : Laid} (os : List Operand) (hwrites : i.opcode.writes = false)
    (harity : i.opcode.arity = os.length) (hoperands : i.operands = os) (hlength : os.length ≤ 3) :
    (resolve m i).run = .ok do
      let vs ← os.mapM m.value
      return ⟨fill #v[0, 0, 0] 0 vs, 0⟩ := by
  have htake : i.operands.take i.opcode.arity = os := by rw [harity, hoperands, List.take_length]
  have hvalues := values_eq m #v[0, 0, 0] ((Nat.zero_add _).trans_le hlength)
  simp only [resolve, hwrites, Bool.false_eq_true, if_false, htake, run_bind_eq hvalues]
  cases os.mapM m.value <;> rfl

theorem resolve_eq (m : Machine) (i : Fetched) :
    (resolve m (Laid.ofFetched i)).run = .ok ((m.resolve i).map Operands.ofResolved) := by
  unfold Machine.resolve
  cases i with
  | binary op a b dst =>
      rw [resolve_of_writes [a, b] dst rfl rfl rfl rfl rfl (by simp)]
      simp only [List.mapM_cons, List.mapM_nil, Instruction.traverse]
      rcases m.value a with _ | x
      · rfl
      rcases m.value b with _ | y
      · rfl
      rcases m.locate (m.address dst.addressing dst.parameter) with _ | k <;> rfl
  | input dst =>
      rw [resolve_of_writes [] dst rfl rfl rfl rfl rfl (by simp)]
      simp only [List.mapM_nil, Instruction.traverse]
      rcases m.locate (m.address dst.addressing dst.parameter) with _ | k <;> rfl
  | output a =>
      rw [resolve_of_not_writes [a] rfl rfl rfl (by simp)]
      simp only [List.mapM_cons, List.mapM_nil, Instruction.traverse]
      rcases m.value a with _ | x <;> rfl
  | jump condition a target =>
      rw [resolve_of_not_writes [a, target] rfl rfl rfl (by simp)]
      simp only [List.mapM_cons, List.mapM_nil, Instruction.traverse]
      rcases m.value a with _ | x
      · rfl
      rcases m.value target with _ | y <;> rfl
  | adjustBase a =>
      rw [resolve_of_not_writes [a] rfl rfl rfl (by simp)]
      simp only [List.mapM_cons, List.mapM_nil, Instruction.traverse]
      rcases m.value a with _ | x <;> rfl
  | halt =>
      rw [resolve_of_not_writes [] rfl rfl rfl (by simp)]
      rfl

/-- No instruction that has been fetched is laid out like this one. -/
example (m : Machine) :
    (resolve m ⟨.input, #v[.immediate, .position, .position], #v[0, 0, 0]⟩).run =
      .error .immediateTarget := rfl

/-! ## Executing -/

/-- A computation on a machine with guards. If it fails, what it has changed by then stays
changed. -/
abbrev Execution := ExceptT Cause (StateT Machine Guarded)

namespace Execution

/-- Changes the cell at an address that has been checked. -/
def store (address v : Cell) : Execution Unit := do
  match ← write (← get).memory address v with
  | some memory => modify fun m ↦ { m with memory := memory }
  | none => (.error .unwritable : Guarded Unit)

/-- Whether a jump on value `a` is taken. -/
def taken : Opcode → Cell → Guarded Bool
  | .jumpIfTrue, a => return a ≠ 0
  | .jumpIfFalse, a => return a = 0
  | _, _ => .error .unreachable

/-- Executes an instruction. -/
def execute (i : Laid) : Execution Signal := do
  let m ← get
  let ⟨values, target⟩ ← ofExcept (← (resolve m i).run)
  let a := values[0]
  let b := values[1]
  let mut next ← plus m.pointer i.opcode.width
  let mut signal := .executed
  match i.opcode with
  | .binary op => store target (op.apply a b)
  | .input =>
    match m.queue.pop? with
    | some (v, rest) =>
      modify fun m ↦ { m with queue := rest }
      store target v
    | none =>
      if m.config.pauseOnInput then
        modify fun m ↦ { m with status := .paused .input }
        return .awaitingInput
      else throw .inputExhausted
  | .output =>
    modify fun m ↦ { m with output := m.output.push a }
    if m.config.pauseOnOutput then modify fun m ↦ { m with status := .paused .output }
    signal := .output a
  | .jump _ =>
    if ← taken i.opcode a then
      match m.memory.index? b with
      | some index => next := index
      | none => throw (.addressOutOfRange b)
  | .adjustBase => modify fun m ↦ { m with base := m.base + a }
  | .halt =>
    modify fun m ↦ { m with status := .halted }
    signal := .halted
  modify fun m ↦ { m with pointer := next }
  return signal

/-- Executes the instruction at the pointer. -/
def advance : Execution Signal := do
  modify fun m ↦ { m with status := .running }
  let m ← get
  execute (← ofExcept (← (fetch m.memory.cells m.pointer).run))

section Run

variable {α β : Type} {f : α → Execution β}

@[simp] theorem run_get_bind (f : Machine → Execution β) :
    (get >>= f).run.run m = (f m).run.run m := rfl

@[simp] theorem run_modify_bind (g : Machine → Machine) (f : PUnit → Execution β) :
    (modify g >>= f).run.run m = (f ⟨⟩).run.run (g m) := rfl

/-- A part without mishaps that changes nothing is over with its result. -/
@[simp] theorem run_liftM_bind (a : α) :
    ((liftM (.ok a : Guarded α) : Execution α) >>= f).run.run m = (f a).run.run m := rfl

@[simp] theorem run_ofExcept_bind (x : Except Cause α) :
    ((ofExcept x : Execution α) >>= f).run.run m =
      match x with
      | .ok a => (f a).run.run m
      | .error cause => .ok (.error cause, m) := by
  cases x <;> rfl

theorem run_store_bind {a : Cell} {k : Nat} (h : m.Denotes a k) (v : Cell)
    (f : Unit → Execution β) :
    (store (.ofAddress k) v >>= f).run.run m =
      (f ()).run.run { m with memory := m.memory.set k v } := by
  have hstore : (store (.ofAddress k) v).run.run m =
      .ok (.ok (), { m with memory := m.memory.set k v }) := by
    simp only [store, run_get_bind, write_eq, h.write?_eq, run_liftM_bind]
    rfl
  rw [ExceptT.run_bind, StateT.run_bind, hstore]
  rfl

end Run

theorem taken_jump (c : Condition) (a : Cell) : taken (.jump c) a = .ok (c.holds a) := by
  cases c <;> rfl

/-- An instruction that stands at the pointer is executed without mishaps. -/
theorem execute_eq (hsize : m.memory.capacity < UInt64.size) (hi : m.Stands i) :
    (execute (Laid.ofFetched i)).run.run { m with status := .running } =
      .ok ((Intcode.Execution.execute i).run.run { m with status := .running }) := by
  have hresolved : (resolve { m with status := .running } (Laid.ofFetched i)).run =
      .ok ((m.resolve i).map Operands.ofResolved) := resolve_eq _ i
  have hle : m.pointer + i.width ≤ m.memory.capacity := hi.add_width_le
  have hnext : plus m.pointer (Laid.ofFetched i).opcode.width = .ok (m.pointer + i.width) :=
    plus_eq (Nat.lt_of_le_of_lt hle hsize)
  rw [Intcode.Execution.run_execute]
  simp only [execute, run_get_bind, hresolved, run_liftM_bind, run_ofExcept_bind, hnext]
  cases hresolve : m.resolve i with
  | error cause => rfl
  | ok j =>
      have hplan : Except.ok j >>= m.effect = m.effect j := rfl
      rw [hplan]
      cases Machine.resolve_eq_ok_iff.1 hresolve with
      | binary _ _ hdst =>
          simp only [Except.map, Operands.ofResolved, Laid.ofFetched, Instruction.opcode,
            run_store_bind (m := { m with status := .running }) hdst]
          rfl
      | input hdst =>
          simp only [Except.map, Operands.ofResolved, Laid.ofFetched, Instruction.opcode,
            Machine.effect]
          cases m.queue.pop? with
          | some popped =>
              have hstore (f : Unit → Execution Signal) := run_store_bind
                (m := { m with queue := popped.2, status := .running }) hdst popped.1 f
              simp only [run_modify_bind, hstore]
              rfl
          | none => cases m.config.pauseOnInput <;> rfl
      | output =>
          simp only [Except.map, Operands.ofResolved, Laid.ofFetched, Instruction.opcode,
            Machine.effect, Machine.perform, run_modify_bind]
          cases m.config.pauseOnOutput <;> rfl
      | @jump c _ _ x y =>
          have hfirst : #v[x, y, 0][0] = x := rfl
          have hsecond : #v[x, y, 0][1] = y := rfl
          simp only [Except.map, Operands.ofResolved, Laid.ofFetched, Instruction.opcode,
            taken_jump, run_liftM_bind, hfirst, hsecond, Machine.effect, Machine.locate]
          cases c.holds x with
          | false => rfl
          | true => cases m.memory.index? y <;> rfl
      | adjustBase => rfl
      | halt => rfl

theorem advance_eq (hsize : m.memory.capacity < UInt64.size) :
    advance.run.run m = .ok (Intcode.Execution.advance.run.run m) := by
  have hfetched : (fetch m.memory.cells m.pointer).run = .ok (m.fetch.map Laid.ofFetched) :=
    fetch_eq hsize m.pointer
  have hfetch : { m with status := .running }.fetch = m.fetch := rfl
  simp only [advance, Intcode.Execution.advance, run_modify_bind, run_get_bind, hfetched,
    run_liftM_bind, run_ofExcept_bind, Intcode.Execution.run_become_bind,
    Intcode.Execution.run_get_bind, Intcode.Execution.run_liftM_bind, hfetch]
  cases hi : m.fetch with
  | error cause => rfl
  | ok i => exact execute_eq hsize (Fetched.fetch_eq_ok_iff.1 hi)

end Execution

/-! ## Steps -/

/-- The fault of a cause. The opcode cell is read through its address. -/
def fault (m : Machine) (cause : Cause) : Guarded Fault := do
  let opcode ← read m.memory (.ofAddress m.pointer)
  return ⟨cause, m.pointer, opcode.getD 0⟩

/-- Executes one instruction. -/
def step (m : Machine) : Guarded (Except Fault Signal × Machine) :=
  if m.status = .halted then return (.ok .halted, m)
  else do
    match ← Execution.advance.run.run m with
    | (.ok signal, m) => return (.ok signal, m)
    | (.error cause, m) => return (.error (← fault m cause), { m with status := .halted })

/-- All cells of memory have addresses, and the pointer is the index of one or the first index after
them. -/
structure Fits (m : Machine) : Prop where
  capacity : m.memory.capacity < 2 ^ 63
  pointer_le : m.pointer ≤ m.memory.capacity

theorem fault_eq (h : Fits m) (cause : Cause) : fault m cause = .ok (m.fault cause) := by
  have hlt : m.pointer < 2 ^ 63 := Nat.lt_of_le_of_lt h.pointer_le h.capacity
  have haddress : (Cell.ofAddress m.pointer).toInt = m.pointer := Cell.toInt_ofAddress_of_lt hlt
  have hread : m.memory.read? (.ofAddress m.pointer) = m.memory.cells[m.pointer]? := by
    by_cases hinside : m.pointer < m.memory.cells.size
    · rw [Array.getElem?_eq_getElem hinside]
      exact Machine.read?_eq_some_iff.2 ⟨_, ⟨haddress, hinside⟩, Array.getElem?_eq_getElem hinside⟩
    · have houtside : m.memory.capacity ≤ m.pointer := Nat.le_of_not_lt hinside
      rw [Array.getElem?_eq_none houtside]
      refine Machine.read?_eq_none_iff.2 (.inr ?_)
      rw [haddress]
      exact_mod_cast houtside
  rw [fault, read_eq, hread]
  rfl

theorem step_eq (h : Fits m) : step m = .ok m.step := by
  have hsize : m.memory.capacity < UInt64.size := Nat.lt_trans h.capacity (by decide)
  unfold step Machine.step
  by_cases hhalted : m.status = .halted
  · rw [if_pos hhalted, if_pos hhalted]
    rfl
  · rw [if_neg hhalted, if_neg hhalted, Execution.advance_eq hsize, ok_bind,
      Intcode.Execution.run_advance]
    cases m.plan with
    | ok e => rfl
    | error cause =>
        have hfits : Fits { m with status := .running } := ⟨h.capacity, h.pointer_le⟩
        simp only [fault_eq hfits]
        rfl

/-! ## Histories -/

/-- Executes at most `budget` instructions. -/
def drive : Nat → Machine → Guarded (Except Fault Status × Machine)
  | 0, m => return (.ok m.status, m)
  | budget + 1, m =>
    if m.status = .running then do
      match ← step m with
      | (.ok _, m) => drive budget m
      | (.error fault, m) => return (.error fault, m)
    else return (.ok m.status, m)

/-- Loads a program into memory. -/
def place (memory : Memory) (program : Array Cell) : Guarded (Except Fault Memory) := do
  match ← load memory program with
  | some memory => return .ok memory
  | none =>
    return .error
      { cause := .programTooLong program.size memory.capacity
        pointer := 0
        opcode := program[0]?.getD 0 }

/-- Serves one request. -/
def serve (m : Machine) : Request → Guarded (Reply × Machine)
  | .run budget queue => do
    let (result, m') ← drive budget (m.start queue)
    return (.status result, m')
  | .step => do
    let (result, m') ← step m
    return (.signal result, m')
  | .reload program => do
    match ← place m.memory program with
    | .ok memory => return (.loaded (.ok ()), .fresh m.config memory)
    | .error fault => return (.loaded (.error fault), m)
  | .takeQueue =>
    let (queue, m') := m.takeQueue
    return (.queue queue, m')

/-- The answers given in a history, and the machine after it. -/
def history (m : Machine) : List Request → Guarded (List Reply × Machine)
  | [] => return ([], m)
  | request :: requests => do
    let (reply, m) ← serve m request
    let (replies, m) ← history m requests
    return (reply :: replies, m)

theorem place_eq (memory : Memory) (program : Array Cell) :
    place memory program = .ok (Machine.place memory program) := by
  rw [place, load_eq, Machine.place]
  cases memory.load? program <;> rfl

theorem fits_of_consistent (hm : m.Consistent) (hcapacity : m.config.capacity < 2 ^ 63) :
    Fits m := ⟨hm.capacity ▸ hcapacity, hm.pointer_le⟩

theorem drive_eq (budget : Nat) (hm : m.Consistent) (hcapacity : m.config.capacity < 2 ^ 63) :
    drive budget m = .ok (Machine.drive budget m) := by
  induction budget generalizing m with
  | zero => rfl
  | succ budget ih =>
      unfold drive Machine.drive
      by_cases hrunning : m.status = .running
      · rw [if_pos hrunning, if_pos hrunning, step_eq (fits_of_consistent hm hcapacity), ok_bind]
        have hnext := hm.step
        have hconfig := Machine.config_step m
        rcases hstep : m.step with ⟨fault | signal, m'⟩
        · rfl
        · rw [hstep] at hnext hconfig
          exact ih hnext (hconfig ▸ hcapacity)
      · rw [if_neg hrunning, if_neg hrunning]
        rfl

theorem serve_eq (hm : m.Consistent) (hcapacity : m.config.capacity < 2 ^ 63)
    (request : Request) : serve m request = .ok (m.serve request) := by
  cases request with
  | run budget queue =>
      have hstart : (m.start queue).config.capacity < 2 ^ 63 := by
        rwa [Machine.config_start]
      rw [serve, drive_eq budget (hm.start queue) hstart]
      rfl
  | step =>
      rw [serve, step_eq (fits_of_consistent hm hcapacity)]
      rfl
  | reload program =>
      rw [serve, place_eq, Machine.serve, Machine.reload]
      cases Machine.place m.memory program <;> rfl
  | takeQueue => rfl

/-- A machine that is consistent stays so, whatever is asked of it. -/
theorem history_eq (hm : m.Consistent) (hcapacity : m.config.capacity < 2 ^ 63)
    (requests : List Request) :
    history m requests = .ok (m.replies requests, m.after requests) := by
  induction requests generalizing m with
  | nil => rfl
  | cons request requests ih =>
      have hserve : (m.serve request).2.config.capacity < 2 ^ 63 := by
        rwa [Machine.config_serve]
      rw [history, serve_eq hm hcapacity, ok_bind]
      simp only [ih (hm.serve request) hserve]
      rfl

end Guarded

end Intcode
