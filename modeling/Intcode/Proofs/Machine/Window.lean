import Intcode.Proofs.Machine.Table
import Mathlib.Algebra.Ring.Int.Defs
import Mathlib.Algebra.Ring.Nat

/-!
# Relative addresses

A relative parameter names the address that is the exact sum of base and parameter, wrapped to a
cell. Most sums that are wrapped are outside of memory afterwards: those that are too great become
negative. But those that are too small become positive, and the least of them become the indices of
the first cells. So an exact sum leads to a cell from two windows, which are as wide as memory and
lie as far apart as cells wrap around.
-/

namespace Intcode

/-- The exact sum of base and parameter leads to the cell with index `i`: it is this index, or it
becomes this index when it is wrapped. -/
def Window (capacity : Nat) (sum : Int) (i : Nat) : Prop :=
  (0 ≤ sum ∧ sum < capacity ∧ (i : Int) = sum) ∨
    (-2 ^ 64 ≤ sum ∧ sum < -2 ^ 64 + capacity ∧ (i : Int) = sum + 2 ^ 64)

namespace Machine

/-- A relative parameter stands for the cell with index `i`, whether it is read or written. -/
structure Admits (m : Machine) (p : Cell) (i : Nat) : Prop where
  target : m.locate (m.address .relative p) = .ok i
  operand : ∃ v, m.memory.cells[i]? = some v ∧ m.value ⟨.relative, p⟩ = .ok v

/-- A relative parameter is at fault for the address `a`, whether it is read or written. -/
structure Rejects (m : Machine) (p a : Cell) : Prop where
  target : m.locate (m.address .relative p) = .error (.addressOutOfRange a)
  operand : m.value ⟨.relative, p⟩ = .error (.addressOutOfRange a)

variable {m m' : Machine} {p a : Cell} {i : Nat} {signal : Signal}

/-! ## One parameter -/

/-- Sums that are too great are negative once they are wrapped, and those that are too small are
not. -/
theorem denotes_ofInt_iff {x y : Cell} (h : m.memory.capacity < 2 ^ 63) :
    m.Denotes (Int64.ofInt (x.toInt + y.toInt)) i ↔
      Window m.memory.capacity (x.toInt + y.toInt) i := by
  have hx := x.le_toInt
  have hx' := x.toInt_lt
  have hy := y.le_toInt
  have hy' := y.toInt_lt
  simp only [Denotes, Window, Int64.toInt_ofInt, Int.bmod, Int64.size]
  split <;> omega

theorem admits_iff : m.Admits p i ↔ m.Denotes (m.effective .relative p) i := by
  rw [← locate_eq_ok_iff, ← address_eq_effective]
  constructor
  · exact Admits.target
  · intro h
    rw [address_eq_effective, locate_eq_ok_iff] at h
    have hi : i < m.memory.cells.size := h.2
    have hv : m.memory.cells[i]? = some m.memory.cells[i] := Array.getElem?_eq_getElem hi
    refine ⟨?_, _, hv, value_eq_ok_iff.2 ⟨i, h, hv⟩⟩
    rw [address_eq_effective, locate_eq_ok_iff]
    exact h

theorem rejects_iff :
    m.Rejects p a ↔ a = m.effective .relative p ∧ ∀ i, ¬ m.Denotes (m.effective .relative p) i := by
  have hnone : m.Outside (m.effective .relative p) ↔
      ∀ i, ¬ m.Denotes (m.effective .relative p) i := by
    rw [← index?_eq_none_iff, Option.eq_none_iff_forall_ne_some]
    simp only [ne_eq, index?_eq_some_iff]
  rw [← hnone]
  constructor
  · intro h
    have htarget := h.target
    rw [address_eq_effective, locate_eq_error_iff] at htarget
    exact ⟨Cause.addressOutOfRange.inj htarget.2, htarget.1⟩
  · rintro ⟨rfl, hout⟩
    refine ⟨?_, ?_⟩
    · rw [address_eq_effective, locate_eq_error_iff]
      exact ⟨hout, rfl⟩
    · simp only [value, address_eq_effective, read?_eq_none_iff.2 hout]

/-! ## All parameters of an instruction -/

theorem HasValue.exists_denotes {o : Operand} {v : Cell} (h : m.HasValue o v)
    (ho : o.mode = .relative) : ∃ i, m.Denotes (m.effective .relative o.parameter) i := by
  obtain ⟨mode, p⟩ := o
  cases ho
  obtain ⟨i, hi, -⟩ := h
  exact ⟨i, hi⟩

theorem HasIndex.exists_denotes {t : Target} (h : m.HasIndex t i)
    (ht : t.toOperand.mode = .relative) :
    ∃ i, m.Denotes (m.effective .relative t.toOperand.parameter) i := by
  obtain ⟨addressing, p⟩ := t
  cases ht
  exact ⟨i, h⟩

/-- What the parameters of an instruction stand for, its relative ones have found in memory. -/
theorem exists_denotes_of_alike {f : Fetched} {j : Resolved}
    (h : Instruction.Alike (fun _ ↦ m.HasValue) (fun _ ↦ m.HasIndex) f j) {o : Operand}
    (ho : o ∈ f.operands) (hmode : o.mode = .relative) :
    ∃ i, m.Denotes (m.effective .relative o.parameter) i := by
  cases h with
  | binary ha hb hd =>
      obtain rfl | rfl | rfl : o = _ ∨ o = _ ∨ o = _ := by
        simpa [Fetched.operands, Instruction.parameters] using ho
      · exact ha.exists_denotes hmode
      · exact hb.exists_denotes hmode
      · exact hd.exists_denotes hmode
  | input hd =>
      obtain rfl := List.mem_singleton.1 ho
      exact hd.exists_denotes hmode
  | output ha =>
      obtain rfl := List.mem_singleton.1 ho
      exact ha.exists_denotes hmode
  | jump ha ht =>
      obtain rfl | rfl : o = _ ∨ o = _ := by
        simpa [Fetched.operands, Instruction.parameters] using ho
      · exact ha.exists_denotes hmode
      · exact ht.exists_denotes hmode
  | adjustBase ha =>
      obtain rfl := List.mem_singleton.1 ho
      exact ha.exists_denotes hmode
  | halt => cases ho

theorem Executes.exists_denotes {f : Fetched} (h : m.Executes signal m') (hf : m.Stands f)
    {o : Operand} (ho : o ∈ f.operands) (hmode : o.mode = .relative) :
    ∃ i, m.Denotes (m.effective .relative o.parameter) i := by
  obtain ⟨e, hplan, -⟩ := h.plan
  obtain ⟨f', j, hf', halike, -⟩ := plan_eq_ok_iff.1 hplan
  cases (fetch_eq_ok_iff.2 hf).symm.trans (fetch_eq_ok_iff.2 hf')
  exact exists_denotes_of_alike halike ho hmode

/-- Exact sums in two windows lead to a cell, and all others are at fault for the address that they
are wrapped to. None of those beyond the greatest cell is in a window, and of those below the least
one only the very least are. So no instruction is carried out with a relative parameter whose exact
sum is outside of the windows. -/
theorem relative_addresses_accepted (h : m.memory.capacity < 2 ^ 63) :
    (∀ p : Cell, let sum := m.base.toInt + p.toInt
      (∀ i, m.Admits p i ↔ Window m.memory.capacity sum i) ∧
      (∀ a, m.Rejects p a ↔ a = Int64.ofInt sum ∧ ∀ i, ¬ Window m.memory.capacity sum i) ∧
      (2 ^ 63 ≤ sum → m.Rejects p (Int64.ofInt sum)) ∧
      (sum < -2 ^ 63 → ((∃ i, m.Admits p i) ↔ sum < -2 ^ 64 + m.memory.capacity))) ∧
    (∀ signal m' f, m.status ≠ .halted → m.step = (.ok signal, m') → m.Stands f →
      ∀ o ∈ f.operands, o.mode = .relative →
        ∃ i, Window m.memory.capacity (m.base.toInt + o.parameter.toInt) i) := by
  have hwindow (p : Cell) (i : Nat) : m.Denotes (m.effective .relative p) i ↔
      Window m.memory.capacity (m.base.toInt + p.toInt) i := denotes_ofInt_iff h
  refine ⟨fun p ↦ ?_, fun signal m' f hm hs hf o ho hmode ↦ ?_⟩
  · intro sum
    have hbase := m.base.le_toInt
    have hparameter := p.le_toInt
    have hadmits (i : Nat) : m.Admits p i ↔ Window m.memory.capacity sum i := by
      rw [admits_iff, hwindow]
    have hrejects (a : Cell) :
        m.Rejects p a ↔ a = Int64.ofInt sum ∧ ∀ i, ¬ Window m.memory.capacity sum i := by
      rw [rejects_iff]
      simp only [hwindow]
      rfl
    refine ⟨hadmits, hrejects, fun hgreat ↦ ?_, fun hsmall ↦ ?_⟩
    · refine (hrejects _).2 ⟨rfl, fun i ↦ ?_⟩
      unfold Window
      omega
    · simp only [hadmits]
      constructor
      · rintro ⟨i, hi | hi⟩
        · omega
        · exact hi.2.1
      · intro hlow
        exact ⟨(sum + 2 ^ 64).toNat, .inr (by omega)⟩
  · obtain ⟨i, hi⟩ := ((step_eq_ok_iff hm).1 hs).exists_denotes hf ho hmode
    exact ⟨i, (hwindow _ i).1 hi⟩

/-- A machine that will put out what is at twice its base. -/
def doubling (base : Cell) : Machine :=
  { fresh { capacity := 3 } ⟨#[204, base, 99]⟩ with base := base }

/-- The least sum of all leads to the first cell, so its value is put out; the sum that is one more
than the greatest cell, and the greatest of all, lead to none. -/
theorem relative_addresses_accepted_of_doubling :
    (doubling Int64.minValue).Admits Int64.minValue 0 ∧
    (∃ m, (doubling Int64.minValue).step = (.ok (.output 204), m) ∧ ∃ i, Window 3 (-2 ^ 64) i) ∧
    (doubling Int64.maxValue).Rejects 1 Int64.minValue ∧
    (doubling Int64.maxValue).Rejects Int64.maxValue (-2) := by
  obtain ⟨hlow, hsteps⟩ := @relative_addresses_accepted (doubling Int64.minValue) (by decide)
  obtain ⟨hhigh, -⟩ := @relative_addresses_accepted (doubling Int64.maxValue) (by decide)
  have hstands : (doubling Int64.minValue).Stands (.output ⟨.relative, Int64.minValue⟩) :=
    fetch_eq_ok_iff.1 rfl
  have hstep : (doubling Int64.minValue).step = (.ok (.output 204),
      { doubling Int64.minValue with output := #[204], pointer := 2 }) := by rfl
  refine ⟨((hlow Int64.minValue).1 0).2 (.inr (by decide)), ⟨_, hstep, ?_⟩,
    (hhigh 1).2.2.1 (by decide), (hhigh Int64.maxValue).2.2.1 (by decide)⟩
  exact hsteps _ _ _ nofun hstep hstands _ (List.mem_singleton.2 rfl) rfl

end Machine

end Intcode
