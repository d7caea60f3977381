import Intcode.Proofs.Machine.InPlace

/-!
# The instruction table

What one instruction does, said row by row: `Executes` has a row for each way in which an
instruction can be carried out, `Refuses` one for each cause for which it is not, in the order in
which the causes are found. Both speak of memory, pointer, base and queue alone, of exact integers
that are wrapped to cells, and of no function that executes anything. The main statement says that a
step follows the table and that the table leaves no step out.
-/

namespace Intcode

/-- The value of an operation, from the exact integers. -/
def BinaryOp.meaning : BinaryOp → Cell → Cell → Cell
  | add, x, y => Int64.ofInt (x.toInt + y.toInt)
  | mul, x, y => Int64.ofInt (x.toInt * y.toInt)
  | lessThan, x, y => if x.toInt < y.toInt then 1 else 0
  | equals, x, y => if x.toInt = y.toInt then 1 else 0

/-- A jump is taken on value `x`. -/
def Condition.Taken : Condition → Cell → Prop
  | nonzero, x => x.toInt ≠ 0
  | zero, x => x.toInt = 0

/-- `memory'` has `v` in the cell with index `i`, and is like `memory` in all others. -/
def Memory.Stored (memory : Memory) (i : Nat) (v : Cell) (memory' : Memory) : Prop :=
  ∀ j, memory'.cells[j]? = if j = i then some v else memory.cells[j]?

theorem BinaryOp.apply_eq_meaning (op : BinaryOp) (x y : Cell) : op.apply x y = op.meaning x y := by
  cases op with
  | add => exact (Cell.ofInt_toInt_add x y).symm
  | mul => exact (Cell.ofInt_toInt_mul x y).symm
  | lessThan => simp [apply, meaning, Cell.ofBool, Int64.lt_iff_toInt_lt]
  | equals => simp [apply, meaning, Cell.ofBool, Int64.toInt_inj]

theorem Condition.holds_iff_taken {c : Condition} {x : Cell} : c.holds x = true ↔ c.Taken x := by
  have hzero : x.toInt = 0 ↔ x = 0 := by rw [← Int64.toInt_inj]; rfl
  cases c <;> simp [holds, Taken, hzero]

theorem Memory.stored_iff {memory memory' : Memory} {i : Nat} {v : Cell}
    (h : i < memory.capacity) : memory.Stored i v memory' ↔ memory' = memory.set i v := by
  have hset (j : Nat) :
      (memory.set i v).cells[j]? = if j = i then some v else memory.cells[j]? := by
    rw [getElem?_set]
    simp [h, eq_comm]
  constructor
  · intro hs
    have hcells : memory'.cells = (memory.set i v).cells :=
      Array.ext_getElem? fun j ↦ (hs j).trans (hset j).symm
    cases memory'
    exact congrArg Memory.mk hcells
  · rintro rfl
    exact hset

namespace Machine

/-- The instruction at the pointer is `i`. -/
abbrev Stands (m : Machine) (i : Fetched) : Prop := i.StandsAt m.memory.cells m.pointer

/-- The machine `m` executes one instruction, reports `signal`, and becomes the machine on the
right. What that machine does not mention has not changed. -/
inductive Executes (m : Machine) : Signal → Machine → Prop
  /-- Sums, products and comparisons. -/
  | binary {op : BinaryOp} {a b : Operand} {dst : Target} {x y : Cell} {i : Nat} {memory : Memory}
      (stands : m.Stands (.binary op a b dst)) (left : m.HasValue a x) (right : m.HasValue b y)
      (target : m.HasIndex dst i) (stored : m.memory.Stored i (op.meaning x y) memory) :
      Executes m .executed
        { m with memory := memory, pointer := m.pointer + 4, status := .running }
  /-- An input with a value to read. -/
  | input {dst : Target} {i : Nat} {v : Cell} {rest : List Cell} {memory : Memory}
      (stands : m.Stands (.input dst)) (target : m.HasIndex dst i)
      (queue : m.queue.values = v :: rest) (stored : m.memory.Stored i v memory) :
      Executes m .executed
        { m with memory := memory, queue := ⟨rest⟩, pointer := m.pointer + 2, status := .running }
  /-- An input with nothing to read, on a machine that may wait for it. -/
  | await {dst : Target} {i : Nat}
      (stands : m.Stands (.input dst)) (target : m.HasIndex dst i) (queue : m.queue.values = [])
      (waits : m.config.pauseOnInput = true) :
      Executes m .awaitingInput { m with status := .paused .input }
  | output {a : Operand} {x : Cell}
      (stands : m.Stands (.output a)) (value : m.HasValue a x) :
      Executes m (.output x)
        { m with
          output := m.output.push x
          pointer := m.pointer + 2
          status := if m.config.pauseOnOutput then .paused .output else .running }
  /-- A jump that is taken. -/
  | jump {c : Condition} {a target : Operand} {x y : Cell} {i : Nat}
      (stands : m.Stands (.jump c a target)) (value : m.HasValue a x) (goal : m.HasValue target y)
      (taken : c.Taken x) (inside : m.Denotes y i) :
      Executes m .executed { m with pointer := i, status := .running }
  /-- A jump that is not taken. -/
  | pass {c : Condition} {a target : Operand} {x y : Cell}
      (stands : m.Stands (.jump c a target)) (value : m.HasValue a x) (goal : m.HasValue target y)
      (passed : ¬ c.Taken x) :
      Executes m .executed { m with pointer := m.pointer + 3, status := .running }
  | adjustBase {a : Operand} {x : Cell}
      (stands : m.Stands (.adjustBase a)) (value : m.HasValue a x) :
      Executes m .executed
        { m with
          base := Int64.ofInt (m.base.toInt + x.toInt)
          pointer := m.pointer + 2
          status := .running }
  | halt (stands : m.Stands .halt) :
      Executes m .halted { m with pointer := m.pointer + 1, status := .halted }

/-- The machine `m` cannot execute an instruction, and the first cause for it is the one given. -/
inductive Refuses (m : Machine) : Cause → Prop
  /-- There is no cell at the pointer. -/
  | pastEnd (outside : m.memory.capacity ≤ m.pointer) :
      Refuses m (.addressOutOfRange (.ofAddress m.pointer))
  /-- The cell at the pointer is no opcode cell. -/
  | undecoded {cell : Cell} {cause : Cause} (opcode : m.memory.cells[m.pointer]? = some cell)
      (decoded : Shape.decode cell = .error cause) : Refuses m cause
  /-- Memory ends before the parameters do. -/
  | cutOff {cell : Cell} {s : Shape} (opcode : m.memory.cells[m.pointer]? = some cell)
      (decoded : Shape.decode cell = .ok s) (short : m.memory.capacity < m.pointer + s.width) :
      Refuses m (.addressOutOfRange (.ofAddress m.memory.capacity))
  /-- An address is outside of memory, and those of the parameters before it are not. -/
  | outside {i : Fetched} {before after : List Cell} {a : Cell} (stands : m.Stands i)
      (touched : m.touched i = before ++ a :: after) (inside : ∀ b ∈ before, ¬ m.Outside b)
      (outside : m.Outside a) : Refuses m (.addressOutOfRange a)
  /-- There is nothing to read, and the machine may not wait for it. -/
  | exhausted {dst : Target} {i : Nat} (stands : m.Stands (.input dst)) (target : m.HasIndex dst i)
      (queue : m.queue.values = []) (waits : m.config.pauseOnInput = false) :
      Refuses m .inputExhausted
  /-- A jump that is taken leads outside of memory. -/
  | astray {c : Condition} {a target : Operand} {x y : Cell}
      (stands : m.Stands (.jump c a target)) (value : m.HasValue a x) (goal : m.HasValue target y)
      (taken : c.Taken x) (outside : m.Outside y) : Refuses m (.addressOutOfRange y)

variable {m m' : Machine}

theorem fetch_eq_ok_iff {i : Fetched} : m.fetch = .ok i ↔ m.Stands i := Fetched.fetch_eq_ok_iff

theorem plan_eq_ok_iff {e : Effect} :
    m.plan = .ok e ↔
      ∃ i j, m.Stands i ∧
        Instruction.Alike (fun _ ↦ m.HasValue) (fun _ ↦ m.HasIndex) i j ∧ m.effect j = .ok e := by
  simp only [plan, bind_eq_ok_iff, fetch_eq_ok_iff, resolve_eq_ok_iff]
  constructor
  · rintro ⟨i, hi, j, hj, he⟩
    exact ⟨i, j, hi, hj, he⟩
  · rintro ⟨i, j, hi, hj, he⟩
    exact ⟨i, hi, j, hj, he⟩

/-! ## What is carried out -/

theorem executes_of_plan {e : Effect} (h : m.plan = .ok e) :
    m.Executes (m.perform e).1 (m.perform e).2 := by
  obtain ⟨i, j, hi, hj, he⟩ := plan_eq_ok_iff.1 h
  cases hj with
  | binary ha hb hd =>
      cases he
      refine .binary hi ha hb hd ((Memory.stored_iff hd.2).2 ?_)
      rw [BinaryOp.apply_eq_meaning]
  | input hd =>
      simp only [effect] at he
      split at he
      · rename_i v rest hq
        cases he
        exact .input hi hd (Queue.pop?_eq_some_iff.1 hq) ((Memory.stored_iff hd.2).2 rfl)
      · rename_i hq
        split at he
        · rename_i hp
          cases he
          exact .await hi hd (Queue.pop?_eq_none_iff.1 hq) hp
        · cases he
  | output ha =>
      cases he
      exact .output hi ha
  | jump ha ht =>
      simp only [effect] at he
      split at he
      · rename_i hc
        simp only [bind_eq_ok_iff, pure_eq_ok_iff, locate_eq_ok_iff] at he
        obtain ⟨k, hk, rfl⟩ := he
        exact .jump hi ha ht (Condition.holds_iff_taken.1 hc) hk
      · rename_i hc
        cases he
        exact .pass hi ha ht fun htaken ↦ hc (Condition.holds_iff_taken.2 htaken)
  | adjustBase ha =>
      cases he
      have hrow := Executes.adjustBase hi ha
      rw [Cell.ofInt_toInt_add] at hrow
      exact hrow
  | halt =>
      cases he
      exact .halt hi

theorem Executes.plan {signal : Signal} (h : m.Executes signal m') :
    ∃ e, m.plan = .ok e ∧ m.perform e = (signal, m') := by
  cases h with
  | @binary op a b dst x y i memory hi ha hb hd hs =>
      obtain rfl := (Memory.stored_iff hd.2).1 hs
      have he : m.effect (.binary op x y i) = .ok ⟨.store i (op.meaning x y), m.pointer + 4⟩ := by
        rw [← BinaryOp.apply_eq_meaning]
        rfl
      exact ⟨_, plan_eq_ok_iff.2 ⟨_, _, hi, .binary ha hb hd, he⟩, rfl⟩
  | @input dst i v rest memory hi hd hq hs =>
      obtain rfl := (Memory.stored_iff hd.2).1 hs
      have hpop : m.queue.pop? = some (v, ⟨rest⟩) := Queue.pop?_eq_some_iff.2 hq
      have he : m.effect (.input i) = .ok ⟨.receive i v ⟨rest⟩, m.pointer + 2⟩ := by
        simp only [effect, hpop]
        rfl
      exact ⟨_, plan_eq_ok_iff.2 ⟨_, _, hi, .input hd, he⟩, rfl⟩
  | @await dst i hi hd hq hp =>
      have hpop : m.queue.pop? = none := Queue.pop?_eq_none_iff.2 hq
      have he : m.effect (.input i) = .ok ⟨.await, m.pointer⟩ := by
        simp only [effect, hpop, hp, if_true]
      exact ⟨_, plan_eq_ok_iff.2 ⟨_, _, hi, .input hd, he⟩, rfl⟩
  | output hi ha => exact ⟨_, plan_eq_ok_iff.2 ⟨_, _, hi, .output ha, rfl⟩, rfl⟩
  | @jump c a target x y i hi ha ht hc hk =>
      have he : m.effect (.jump c x y) = .ok ⟨.pass, i⟩ := by
        simp only [effect, Condition.holds_iff_taken.2 hc, if_true, locate_eq_ok_iff.2 hk]
        rfl
      exact ⟨_, plan_eq_ok_iff.2 ⟨_, _, hi, .jump ha ht, he⟩, rfl⟩
  | @pass c a target x y hi ha ht hc =>
      have hn : ¬ c.holds x = true := fun h ↦ hc (Condition.holds_iff_taken.1 h)
      have he : m.effect (.jump c x y) = .ok ⟨.pass, m.pointer + 3⟩ := by
        simp only [effect, hn]
        rfl
      exact ⟨_, plan_eq_ok_iff.2 ⟨_, _, hi, .jump ha ht, he⟩, rfl⟩
  | @adjustBase a x hi ha =>
      rw [Cell.ofInt_toInt_add]
      exact ⟨_, plan_eq_ok_iff.2 ⟨_, _, hi, .adjustBase ha, rfl⟩, rfl⟩
  | halt hi => exact ⟨_, plan_eq_ok_iff.2 ⟨_, _, hi, .halt, rfl⟩, rfl⟩

theorem step_eq_ok_iff {signal : Signal} (h : m.status ≠ .halted) :
    m.step = (.ok signal, m') ↔ m.Executes signal m' := by
  constructor
  · intro hs
    cases hp : m.plan with
    | ok e =>
        rw [step_of_plan_eq_ok h hp] at hs
        cases hs
        exact executes_of_plan hp
    | error cause =>
        rw [step_of_plan_eq_error h hp] at hs
        cases hs
  · intro hx
    obtain ⟨e, hp, he⟩ := hx.plan
    rw [step_of_plan_eq_ok h hp, he]

/-- Only an input with nothing to read pauses the machine before an input. -/
theorem Executes.paused_input_iff {signal : Signal} (h : m.Executes signal m') :
    m'.status = .paused .input ↔ signal = .awaitingInput := by
  cases h with
  | await => simp
  | output => cases hwaits : m.config.pauseOnOutput <;> simp
  | _ => simp

theorem Executes.ne_awaitingInput {signal : Signal} (h : m.Executes signal m')
    (hstatus : m'.status ≠ .paused .input) : signal ≠ .awaitingInput :=
  mt h.paused_input_iff.2 hstatus

/-! ## What is refused -/

theorem effect_eq_error_iff {j : Resolved} {cause : Cause} :
    m.effect j = .error cause ↔
      (∃ i, j = .input i ∧ m.queue.values = [] ∧ m.config.pauseOnInput = false ∧
        cause = .inputExhausted) ∨
      ∃ c x y, j = .jump c x y ∧ c.Taken x ∧ m.Outside y ∧ cause = .addressOutOfRange y := by
  cases j with
  | input i =>
      simp only [effect, ← Queue.pop?_eq_none_iff]
      cases m.queue.pop? with
      | none => cases m.config.pauseOnInput <;> simp [eq_comm]
      | some head => simp
  | jump c x y =>
      by_cases hc : c.Taken x
      · have he : m.effect (.jump c x y) = .error cause ↔ m.locate y = .error cause := by
          simp [effect, Condition.holds_iff_taken.2 hc, bind_eq_error_iff, pure, Except.pure]
        rw [he, locate_eq_error_iff]
        constructor
        · rintro ⟨hy, rfl⟩
          exact .inr ⟨c, x, y, rfl, hc, hy, rfl⟩
        · rintro (⟨_, ⟨⟩, _⟩ | ⟨_, _, _, ⟨⟩, _, hy, rfl⟩)
          exact ⟨hy, rfl⟩
      · have hn : ¬ c.holds x = true := fun h ↦ hc (Condition.holds_iff_taken.1 h)
        constructor
        · intro he
          simp [effect, hn] at he
        · rintro (⟨_, ⟨⟩, _⟩ | ⟨_, _, _, ⟨⟩, htaken, _⟩)
          exact absurd htaken hc
  | binary => simp [effect]
  | output => simp [effect]
  | adjustBase => simp [effect]
  | halt => simp [effect]

theorem plan_eq_error_iff {cause : Cause} : m.plan = .error cause ↔ m.Refuses cause := by
  simp only [plan, bind_eq_error_iff, fetch_eq_ok_iff, resolve_eq_ok_iff]
  constructor
  · rintro (hf | ⟨i, hi, hr | ⟨j, hj, he⟩⟩)
    · obtain ⟨hout, rfl⟩ | ⟨cell, hc, hd⟩ | ⟨cell, s, hc, hd, hw, rfl⟩ :=
        Fetched.fetch_eq_error_iff.1 hf
      · exact .pastEnd hout
      · exact .undecoded hc hd
      · exact .cutOff hc hd hw
    · obtain ⟨before, a, after, ht, hb, ha, rfl⟩ := resolve_eq_error_iff.1 hr
      exact .outside hi ht hb ha
    · obtain ⟨k, rfl, hq, hp, rfl⟩ | ⟨c, x, y, rfl, hc, hy, rfl⟩ := effect_eq_error_iff.1 he
      · cases hj with
        | input hd => exact .exhausted hi hd hq hp
      · cases hj with
        | jump ha ht => exact .astray hi ha ht hc hy
  · intro h
    cases h with
    | pastEnd hout => exact .inl (Fetched.fetch_eq_error_iff.2 (.inl ⟨hout, rfl⟩))
    | undecoded hc hd => exact .inl (Fetched.fetch_eq_error_iff.2 (.inr (.inl ⟨_, hc, hd⟩)))
    | cutOff hc hd hw =>
        exact .inl (Fetched.fetch_eq_error_iff.2 (.inr (.inr ⟨_, _, hc, hd, hw, rfl⟩)))
    | outside hi ht hb ha =>
        exact .inr ⟨_, hi, .inl (resolve_eq_error_iff.2 ⟨_, _, _, ht, hb, ha, rfl⟩)⟩
    | exhausted hi hd hq hp =>
        exact .inr ⟨_, hi, .inr ⟨_, .input hd,
          effect_eq_error_iff.2 (.inl ⟨_, rfl, hq, hp, rfl⟩)⟩⟩
    | astray hi ha ht hc hy =>
        exact .inr ⟨_, hi, .inr ⟨_, .jump ha ht,
          effect_eq_error_iff.2 (.inr ⟨_, _, _, rfl, hc, hy, rfl⟩)⟩⟩

theorem step_eq_error_iff {f : Fault} (h : m.status ≠ .halted) :
    m.step = (.error f, m') ↔
      m.Refuses f.cause ∧ f = m.fault f.cause ∧ m' = { m with status := .halted } := by
  constructor
  · intro hs
    cases hp : m.plan with
    | ok e =>
        rw [step_of_plan_eq_ok h hp] at hs
        cases hs
    | error cause =>
        rw [step_of_plan_eq_error h hp] at hs
        cases hs
        exact ⟨plan_eq_error_iff.1 hp, rfl, rfl⟩
  · rintro ⟨hr, hf, rfl⟩
    rw [step_of_plan_eq_error h (plan_eq_error_iff.2 hr), ← hf]

/-- A machine that pauses before an input has not changed in anything else. -/
theorem eq_of_step_eq_awaitingInput (h : m.step = (.ok .awaitingInput, m')) :
    m' = { m with status := .paused .input } := by
  by_cases hhalted : m.status = .halted
  · rw [step_of_halted hhalted] at h
    cases h
  · cases (step_eq_ok_iff hhalted).1 h
    rfl

theorem status_of_step_eq_error {f : Fault} (h : m.step = (.error f, m')) :
    m.status ≠ .halted := by
  intro hhalted
  rw [step_of_halted hhalted] at h
  cases h

theorem eq_of_step_eq_error {f : Fault} (h : m.step = (.error f, m')) :
    f = m.fault f.cause ∧ m' = { m with status := .halted } :=
  ((step_eq_error_iff (status_of_step_eq_error h)).1 h).2

/-- A step does what the row for it in the table says, and does it whenever there is one. If there
is a cause for which it cannot, it reports the first of them, and where it arose, and only
halts. -/
theorem step_follows_table (h : m.status ≠ .halted) :
    (∀ signal m', m.step = (.ok signal, m') ↔ m.Executes signal m') ∧
    (∀ f m', m.step = (.error f, m') ↔
      m.Refuses f.cause ∧ f.pointer = m.pointer ∧ f.opcode = m.memory.cells[m.pointer]?.getD 0 ∧
        m' = { m with status := .halted }) := by
  refine ⟨fun signal m' ↦ step_eq_ok_iff h, fun f m' ↦ ?_⟩
  have hf : f = m.fault f.cause ↔
      f.pointer = m.pointer ∧ f.opcode = m.memory.cells[m.pointer]?.getD 0 := by
    cases f
    simp [fault]
  rw [step_eq_error_iff h, hf, and_assoc]

/-- A machine that will add up `7` and `8`, into the cell that is `3` cells after the base. -/
def adding (base : Cell) : Machine :=
  { fresh { capacity := 8 } ⟨#[21101, 7, 8, 3, 99, 0, 0, 0]⟩ with base := base }

/-- The cell to write may be inside or outside of memory, depending on the base. -/
theorem step_follows_table_of_adding :
    ((adding 2).Executes .executed
      { adding 2 with memory := ⟨#[21101, 7, 8, 3, 99, 15, 0, 0]⟩, pointer := 4 }) ∧
    (adding (-4)).Refuses (.addressOutOfRange (-1)) := by
  have hstep : (adding 2).step = (.ok .executed,
      { adding 2 with memory := ⟨#[21101, 7, 8, 3, 99, 15, 0, 0]⟩, pointer := 4 }) := by rfl
  have hfault : (adding (-4)).step = (.error ⟨.addressOutOfRange (-1), 0, 21101⟩,
      { adding (-4) with status := .halted }) := by rfl
  have hrunning (base : Cell) : (adding base).status ≠ .halted := nofun
  exact ⟨((step_follows_table (hrunning 2)).1 _ _).1 hstep,
    (((step_follows_table (hrunning (-4))).2 _ _).1 hfault).1⟩

end Machine

end Intcode
