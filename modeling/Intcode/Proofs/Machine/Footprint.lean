import Intcode.Proofs.Machine.Runs
import Intcode.Proofs.Machine.Table
import Mathlib.Data.List.ReduceOption

/-!
# Footprints

The footprint of a machine is made of the cells that it looks at to carry out its next instruction,
or to find that it cannot: those from which the instruction is fetched, and those to which its
operands refer. The cell that is written is not one of them.

A cell that a run does not look at before something is stored in it might as well hold any other
value. Since a program may change itself and may compute its addresses, which cells are looked at
depends on what is in the others, so the footprint is one of a state and not of a program. What an
instruction will do is found out before it is done, and depends on nothing outside of the footprint;
when it is done, the odd cell stays as it is or is stored to.
-/

namespace Intcode

/-- The parameters of an instruction that are read, in order. -/
def Fetched.sources (i : Fetched) : List Operand := (i.parameters (fun o ↦ [o]) fun _ ↦ []).flatten

/-- The index of the cell that an action stores a value in. -/
def Action.stored? : Action → Option Nat
  | .store i _ | .receive i _ _ => some i
  | .pass | .emit _ | .rebase _ | .await | .halt => none

namespace Machine

/-- The cells from which the next instruction is fetched. No parameters are fetched for a cell that
is no opcode cell. -/
def fetchedCells (m : Machine) : List Nat :=
  match m.memory.cells[m.pointer]?.map Shape.decode with
  | some (.ok s) => List.range' m.pointer s.width
  | some (.error _) | none => [m.pointer]

/-- The cells to which the operands of the next instruction refer, up to the first address that is
outside of memory. -/
def dereferencedCells (m : Machine) : List Nat :=
  match m.fetch with
  | .ok i =>
    (((i.sources.filterMap m.touch?).map m.memory.index?).takeWhile Option.isSome).reduceOption
  | .error _ => []

/-- The cells that the machine looks at for the sake of its next instruction. -/
def footprint (m : Machine) : List Nat := m.fetchedCells ++ m.dereferencedCells

/-- The cell that the next instruction stores a value in, if it can be carried out and is one that
stores. -/
def stored? (m : Machine) : Option Nat :=
  match m.plan with
  | .ok e => e.action.stored?
  | .error _ => none

/-- The machines, in order, whose next instruction is attempted in a slice. -/
def attempts : Nat → Machine → List Machine
  | 0, _ => []
  | budget + 1, m =>
    if m.status = .running then
      m :: match m.step with
        | (.ok _, m) => attempts budget m
        | (.error _, _) => []
    else []

/-- In the attempts that are made, the cell with index `a` is not looked at before a value is stored
in it. The operands are looked at before the value is stored. -/
def Unread (a : Nat) : List Machine → Prop
  | [] => True
  | m :: ms => a ∉ m.footprint ∧ (m.stored? = some a ∨ Unread a ms)

/-- The machine with another value in one cell. -/
def altered (a : Nat) (v : Cell) (m : Machine) : Machine :=
  { m with memory := m.memory.set a v }

variable {m : Machine} {a k : Nat} {v : Cell}

theorem getElem?_altered (h : k ≠ a) :
    (m.altered a v).memory.cells[k]? = m.memory.cells[k]? := by
  show (m.memory.set a v).cells[k]? = _
  rw [Memory.getElem?_set, if_neg fun hak ↦ h hak.1.symm]

/-- Which addresses are inside of memory does not depend on what is there. -/
theorem index?_altered : (m.altered a v).memory.index? = m.memory.index? := by
  funext address
  show (m.memory.set a v).index? address = _
  simp only [Memory.index?, Memory.capacity_set]

theorem locate_altered : (m.altered a v).locate = m.locate := by
  funext address
  simp only [locate, index?_altered]

/-! ## Fetching -/

theorem pointer_mem_fetchedCells : m.pointer ∈ m.fetchedCells := by
  unfold fetchedCells
  split
  · rename_i s _
    rw [List.mem_range'_1]
    exact ⟨Nat.le_refl _, Nat.lt_add_of_pos_right (Nat.succ_pos s.opcode.arity)⟩
  · exact List.mem_singleton_self _
  · exact List.mem_singleton_self _

theorem fetchedCells_of_decode {cell : Cell} {s : Shape}
    (hcell : m.memory.cells[m.pointer]? = some cell) (hs : Shape.decode cell = .ok s) :
    m.fetchedCells = List.range' m.pointer s.width := by
  simp only [fetchedCells, hcell, Option.map_some, hs]

/-- A machine fetches the same if a cell has been altered from which it does not fetch. -/
theorem fetch_altered (ha : a ∉ m.fetchedCells) : (m.altered a v).fetch = m.fetch := by
  have hcellAt : ∀ k ∈ m.fetchedCells,
      cellAt (m.altered a v).memory.cells k = cellAt m.memory.cells k := by
    intro k hk
    have hne : k ≠ a := fun hka ↦ ha (hka ▸ hk)
    rw [cellAt, cellAt, getElem?_altered hne]
  have hpointer := hcellAt _ pointer_mem_fetchedCells
  show Fetched.fetch (m.altered a v).memory.cells m.pointer = Fetched.fetch _ _
  simp only [Fetched.fetch, hpointer]
  cases hcell : cellAt m.memory.cells m.pointer with
  | error cause => rfl
  | ok cell =>
      cases hs : Shape.decode cell with
      | error cause => simp only [hs, bind, Except.bind]
      | ok s =>
          have hparameter : ∀ n, n ≤ s.opcode.arity →
              cellAt (m.altered a v).memory.cells (m.pointer + n) =
                cellAt m.memory.cells (m.pointer + n) := by
            intro n hn
            refine hcellAt _ ?_
            rw [fetchedCells_of_decode (cellAt_eq_ok_iff.1 hcell) hs, List.mem_range'_1]
            exact ⟨Nat.le_add_right _ _, Nat.add_lt_add_left (Nat.lt_succ_of_le hn) _⟩
          simp only [hs, bind, Except.bind]
          exact s.traverse_congr (fun n _ hn ↦ by simp only [hparameter n hn])
            fun n _ hn ↦ by simp only [hparameter n hn]

/-! ## Looking up -/

/-- An operand has the same value if a cell has been altered to which it does not refer. -/
theorem value_altered {o : Operand}
    (ha : ∀ address, m.touch? o = some address → m.memory.index? address ≠ some a) :
    (m.altered a v).value o = m.value o := by
  obtain ⟨_ | addressing, p⟩ := o
  · rfl
  · have hread : (m.altered a v).memory.read? (m.effective addressing p) =
        m.memory.read? (m.effective addressing p) := by
      simp only [Memory.read?, index?_altered]
      cases hk : m.memory.index? (m.effective addressing p) with
      | none => rfl
      | some k => exact getElem?_altered fun hka ↦ ha _ rfl (hka ▸ hk)
    have haddress : (m.altered a v).address = m.address := by
      funext addressing p
      cases addressing <;> rfl
    simp only [value, haddress, address_eq_effective, hread]

/-- An address that has been looked up has an index. -/
theorem isSome_index?_of_value {o : Operand} {x address : Cell} (hx : m.value o = .ok x)
    (haddress : m.touch? o = some address) : (m.memory.index? address).isSome = true := by
  obtain ⟨_ | addressing, p⟩ := o
  · cases haddress
  · cases haddress
    obtain ⟨i, hi, -⟩ := value_eq_ok_iff.1 hx
    rw [index?_eq_some_iff.2 hi]
    rfl

/-- An operand is looked up if those before it have been. -/
theorem mem_dereferencedCells {i : Fetched} {before after : List Operand} {o : Operand}
    {address : Cell} (hi : m.fetch = .ok i) (hsources : i.sources = before ++ o :: after)
    (hbefore : ∀ b ∈ before, ∃ x, m.value b = .ok x) (haddress : m.touch? o = some address)
    (hk : m.memory.index? address = some k) : k ∈ m.dereferencedCells := by
  have hinside : ∀ found ∈ (before.filterMap m.touch?).map m.memory.index?,
      found.isSome = true := by
    intro found hfound
    obtain ⟨address', haddress', rfl⟩ := List.mem_map.1 hfound
    obtain ⟨b, hb, htouch⟩ := List.mem_filterMap.1 haddress'
    obtain ⟨x, hx⟩ := hbefore b hb
    exact isSome_index?_of_value hx htouch
  rw [dereferencedCells, hi]
  simp only [hsources, List.filterMap_append, List.filterMap_cons, haddress, List.map_append,
    List.map_cons, hk]
  rw [List.takeWhile_append_of_pos hinside, List.takeWhile_cons_of_pos rfl,
    List.reduceOption_mem_iff]
  exact List.mem_append_right _ List.mem_cons_self

theorem source_altered {i : Fetched} (before : List Operand) {after : List Operand} {o : Operand}
    (ha : a ∉ m.dereferencedCells) (hi : m.fetch = .ok i)
    (hsources : i.sources = before ++ o :: after)
    (hbefore : ∀ b ∈ before, ∃ x, m.value b = .ok x) :
    (m.altered a v).value o = m.value o :=
  value_altered fun _ haddress hk ↦ ha (mem_dereferencedCells hi hsources hbefore haddress hk)

theorem resolve_altered {i : Fetched} (ha : a ∉ m.dereferencedCells) (hi : m.fetch = .ok i) :
    (m.altered a v).resolve i = m.resolve i := by
  have haddress : (m.altered a v).address = m.address := by
    funext addressing p
    cases addressing <;> rfl
  simp only [resolve, haddress, locate_altered]
  -- The second of two operands is looked at only if the first one has a value.
  cases i with
  | binary op x y dst =>
      have hx := source_altered (v := v) [] ha hi rfl (List.forall_mem_nil _)
      simp only [Instruction.traverse, hx]
      cases hvalue : m.value x with
      | error cause => rfl
      | ok c =>
          have hy := source_altered (v := v) [x] ha hi rfl
            (List.forall_mem_singleton.2 ⟨c, hvalue⟩)
          rw [hy]
  | input dst => rfl
  | output x =>
      have hx := source_altered (v := v) [] ha hi rfl (List.forall_mem_nil _)
      simp only [Instruction.traverse, hx]
  | jump condition x target =>
      have hx := source_altered (v := v) [] ha hi rfl (List.forall_mem_nil _)
      simp only [Instruction.traverse, hx]
      cases hvalue : m.value x with
      | error cause => rfl
      | ok c =>
          have htarget := source_altered (v := v) [x] ha hi rfl
            (List.forall_mem_singleton.2 ⟨c, hvalue⟩)
          rw [htarget]
  | adjustBase x =>
      have hx := source_altered (v := v) [] ha hi rfl (List.forall_mem_nil _)
      simp only [Instruction.traverse, hx]
  | halt => rfl

/-! ## One step -/

theorem effect_altered : (m.altered a v).effect = m.effect := by
  funext i
  cases i with
  | jump condition x target => simp only [effect, locate_altered]; rfl
  | _ => rfl

/-- What the next instruction will do does not depend on a cell outside of the footprint. -/
theorem plan_altered (ha : a ∉ m.footprint) : (m.altered a v).plan = m.plan := by
  obtain ⟨hfetched, hdereferenced⟩ : a ∉ m.fetchedCells ∧ a ∉ m.dereferencedCells := by
    simpa [footprint] using ha
  rw [plan, plan, fetch_altered hfetched, effect_altered]
  cases hi : m.fetch with
  | error cause => rfl
  | ok i => simp only [bind, Except.bind, resolve_altered hdereferenced hi]

end Machine

namespace Memory

variable {memory : Memory} {i j : Nat} {v w : Cell}

theorem set_set : (memory.set i v).set i w = memory.set i w := by
  simp only [set, Array.setIfInBounds_setIfInBounds]

theorem set_comm (h : i ≠ j) : (memory.set i v).set j w = (memory.set j w).set i v := by
  simp only [set]
  rw [Array.setIfInBounds_comm _ _ h]

end Memory

namespace Machine

variable {m : Machine} {a : Nat} {v : Cell}

/-- The same comes of an effect, except that the altered cell stays altered if nothing is stored in
it. -/
theorem perform_altered (e : Effect) :
    (m.altered a v).perform e =
      ((m.perform e).1,
        if e.action.stored? = some a then (m.perform e).2 else (m.perform e).2.altered a v) := by
  obtain ⟨action, next⟩ := e
  cases action with
  | store i w =>
      by_cases hi : i = a
      · subst hi
        simp [perform, altered, Action.stored?, Memory.set_set]
      · simp [perform, altered, Action.stored?, hi, Memory.set_comm (Ne.symm hi)]
  | receive i w rest =>
      by_cases hi : i = a
      · subst hi
        simp [perform, altered, Action.stored?, Memory.set_set]
      · simp [perform, altered, Action.stored?, hi, Memory.set_comm (Ne.symm hi)]
  | _ => rfl

theorem step_altered (hm : m.status ≠ .halted) (ha : a ∉ m.footprint) :
    (m.altered a v).step =
      (m.step.1, if m.stored? = some a then m.step.2 else m.step.2.altered a v) := by
  have hm' : (m.altered a v).status ≠ .halted := hm
  cases hplan : m.plan with
  | ok e =>
      have hstored : m.stored? = e.action.stored? := by simp only [stored?, hplan]
      rw [step_of_plan_eq_ok hm hplan, step_of_plan_eq_ok hm' ((plan_altered ha).trans hplan),
        perform_altered, hstored]
  | error cause =>
      have hstored : m.stored? = none := by simp only [stored?, hplan]
      have hpointer : m.pointer ≠ a := by
        rintro rfl
        exact ha (List.mem_append_left _ pointer_mem_fetchedCells)
      have hfault : (m.altered a v).fault cause = m.fault cause := by
        have hcell := getElem?_altered (m := m) (v := v) hpointer
        exact congrArg (fun cell ↦ Fault.mk cause m.pointer (cell.getD 0)) hcell
      rw [step_of_plan_eq_error hm hplan,
        step_of_plan_eq_error hm' ((plan_altered ha).trans hplan), hfault, hstored]
      rfl

/-! ## Whole runs -/

theorem start_altered (queue : Queue) :
    (m.altered a v).start queue = (m.start queue).altered a v := by
  by_cases h : m.status = .halted
  · have h' : (m.altered a v).status = .halted := h
    simp only [start, h, h', if_true]
  · have h' : (m.altered a v).status ≠ .halted := h
    simp only [start, h, h', if_false]
    rfl

/-- The slice is the same until a value is stored in the altered cell; from then on, so is the
machine. -/
theorem drive_altered {budget : Nat} (ha : Unread a (attempts budget m)) :
    drive budget (m.altered a v) =
      ((drive budget m).1,
        if some a ∈ (attempts budget m).map stored? then (drive budget m).2
        else (drive budget m).2.altered a v) := by
  induction budget generalizing m with
  | zero => simp [drive, attempts, altered]
  | succ budget ih =>
      by_cases hm : m.status = .running
      · have hm' : (m.altered a v).status = .running := hm
        simp only [attempts, hm, if_true] at ha
        obtain ⟨hfootprint, hlater⟩ := ha
        have hstep := step_altered (v := v) (by simp [hm]) hfootprint
        simp only [drive, attempts, hm, hm', if_true, List.map_cons, List.mem_cons]
        by_cases hstored : m.stored? = some a
        · rw [if_pos hstored] at hstep
          simp [hstep, hstored]
        · rw [if_neg hstored] at hstep
          have hne : some a ≠ m.stored? := Ne.symm hstored
          simp only [hstep, hne, false_or]
          have hlater := hlater.resolve_left hstored
          cases hs : m.step with
          | mk r m₁ =>
              rw [hs] at hlater
              cases r with
              | ok signal => exact ih hlater
              | error f => simp
      · have hm' : (m.altered a v).status ≠ .running := hm
        rw [drive_of_not_running _ hm, drive_of_not_running _ hm']
        simp [attempts, hm, altered]

/-- If a run returns and does not look at a cell before it stores a value in it, then it makes no
difference what the cell holds at first. The run returns the same and leaves the same, except that
the cell still holds what it held if nothing has been stored in it. -/
theorem unread_cell_irrelevant {m' : Machine} {queue : Queue} {r : Except Fault Status}
    {budget : Nat} (h : m.run budget queue = (r, m')) (hr : r ≠ .ok .running)
    (ha : Unread a (attempts budget (m.start queue))) (v : Cell) :
    { m with memory := m.memory.set a v }.Returns queue r
      (if some a ∈ (attempts budget (m.start queue)).map stored? then m'
        else { m' with memory := m'.memory.set a v }) := by
  refine ⟨budget, ?_, hr⟩
  have hdrive := drive_altered (v := v) ha
  rw [← start_altered] at hdrive
  have hrun : drive budget (m.start queue) = (r, m') := h
  rw [hrun] at hdrive
  exact hdrive

/-- A machine that stores a sum in a cell and puts it out, and has one more cell. -/
def tallying (pointer : Nat) (status : Status) (output : Array Cell) (x y : Cell) : Machine where
  memory := ⟨#[1101, 2, 3, 7, 4, 7, 99, x, y]⟩
  pointer := pointer
  base := 0
  queue := .empty
  output := output
  status := status
  config := { capacity := 9 }

/-- What the cell of the sum holds at first is lost, and what the other cell holds is kept. The
cell of the sum is looked at, but not before the sum is there. -/
theorem unread_cell_irrelevant_of_tallying :
    (tallying 0 .running #[] 41 8).Returns .empty (.ok .halted) (tallying 7 .halted #[5] 5 8) ∧
      (tallying 0 .running #[] 0 42).Returns .empty (.ok .halted)
        (tallying 7 .halted #[5] 5 42) := by
  have hrun : (tallying 0 .running #[] 0 8).run 4 .empty =
      (.ok .halted, tallying 7 .halted #[5] 5 8) := rfl
  have hsum : Unread 7 (attempts 4 ((tallying 0 .running #[] 0 8).start .empty)) :=
    ⟨by decide, .inl rfl⟩
  have hother : Unread 8 (attempts 4 ((tallying 0 .running #[] 0 8).start .empty)) :=
    ⟨by decide, .inr ⟨by decide, .inr ⟨by decide, .inr trivial⟩⟩⟩
  exact ⟨unread_cell_irrelevant hrun nofun hsum 41, unread_cell_irrelevant hrun nofun hother 42⟩

end Machine

end Intcode
