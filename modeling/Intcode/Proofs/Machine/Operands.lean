import Intcode.Proofs.Instruction.Fetch
import Intcode.Proofs.Machine.Plan

/-!
# Operands

What the parameters of an instruction stand for. An address is the exact sum of base and parameter,
wrapped to a cell; it denotes a cell of memory if it is the number of one. A parameter that is read
has the value of that cell, a parameter that is written has its index, and the first address outside
of memory is the one that is reported.
-/

namespace Intcode

theorem Cell.ofInt_toInt_add (x y : Cell) : Int64.ofInt (x.toInt + y.toInt) = x + y := by
  rw [Int64.ofInt_add, Int64.ofInt_toInt, Int64.ofInt_toInt]

theorem Cell.ofInt_toInt_mul (x y : Cell) : Int64.ofInt (x.toInt * y.toInt) = x * y := by
  rw [Int64.ofInt_mul, Int64.ofInt_toInt, Int64.ofInt_toInt]

namespace Machine

/-- The address that a parameter names. -/
def effective (m : Machine) : Addressing → Cell → Cell
  | .position, p => p
  | .relative, p => Int64.ofInt (m.base.toInt + p.toInt)

/-- The cell with index `i` has address `a`. -/
def Denotes (m : Machine) (a : Cell) (i : Nat) : Prop := a.toInt = i ∧ i < m.memory.capacity

/-- The address `a` is outside of memory. -/
def Outside (m : Machine) (a : Cell) : Prop := a.toInt < 0 ∨ m.memory.capacity ≤ a.toInt

/-- The operand `o` has value `v`. -/
def HasValue (m : Machine) : Operand → Cell → Prop
  | ⟨.immediate, p⟩, v => v = p
  | ⟨.memory addressing, p⟩, v =>
    ∃ i, m.Denotes (m.effective addressing p) i ∧ m.memory.cells[i]? = some v

/-- The target `t` is the cell with index `i`. -/
def HasIndex (m : Machine) (t : Target) (i : Nat) : Prop :=
  m.Denotes (m.effective t.addressing t.parameter) i

/-- The address that an operand refers to, unless it is a value itself. -/
def touch? (m : Machine) : Operand → Option Cell
  | ⟨.immediate, _⟩ => none
  | ⟨.memory addressing, p⟩ => some (m.effective addressing p)

/-- The addresses that an instruction refers to, in the order of its parameters. -/
def touched (m : Machine) (i : Fetched) : List Cell := i.operands.filterMap m.touch?

variable {m : Machine}

/-! ## Addresses -/

theorem address_eq_effective : m.address = m.effective := by
  funext addressing p
  cases addressing with
  | position => rfl
  | relative => exact (Cell.ofInt_toInt_add _ _).symm

theorem index?_eq_some_iff {a : Cell} {i : Nat} :
    m.memory.index? a = some i ↔ m.Denotes a i := Memory.index?_eq_some_iff

theorem index?_eq_none_iff {a : Cell} : m.memory.index? a = none ↔ m.Outside a := by
  simp only [Memory.index?, Outside]
  split
  · simp only [reduceCtorEq, false_iff]
    omega
  · simp only [true_iff]
    omega

theorem Denotes.not_outside {a : Cell} {i : Nat} (h : m.Denotes a i) : ¬ m.Outside a := by
  rw [← index?_eq_none_iff, index?_eq_some_iff.2 h]
  simp

/-! ## Operands -/

theorem read?_eq_some_iff {a v : Cell} :
    m.memory.read? a = some v ↔ ∃ i, m.Denotes a i ∧ m.memory.cells[i]? = some v := by
  simp only [Memory.read?, Option.bind_eq_bind, Option.bind_eq_some_iff, index?_eq_some_iff]

theorem read?_eq_none_iff {a : Cell} : m.memory.read? a = none ↔ m.Outside a := by
  rw [← index?_eq_none_iff]
  cases h : m.memory.index? a with
  | none => simp [Memory.read?, h]
  | some i =>
      have hi : i < m.memory.cells.size := Memory.index?_lt h
      simp [Memory.read?, h, hi]

theorem value_eq_ok_iff {o : Operand} {v : Cell} : m.value o = .ok v ↔ m.HasValue o v := by
  obtain ⟨_ | addressing, p⟩ := o
  · simp [value, HasValue, eq_comm]
  · simp only [value, HasValue, address_eq_effective, ← read?_eq_some_iff]
    cases m.memory.read? (m.effective addressing p) <;> simp

theorem locate_eq_ok_iff {a : Cell} {i : Nat} : m.locate a = .ok i ↔ m.Denotes a i := by
  rw [← index?_eq_some_iff, locate]
  cases m.memory.index? a <;> simp

theorem locate_eq_error_iff {a : Cell} {cause : Cause} :
    m.locate a = .error cause ↔ m.Outside a ∧ cause = .addressOutOfRange a := by
  rw [← index?_eq_none_iff, locate]
  cases m.memory.index? a <;> simp [eq_comm]

theorem resolve_eq_ok_iff {i : Fetched} {j : Resolved} :
    m.resolve i = .ok j ↔ Instruction.Alike (fun _ ↦ m.HasValue) (fun _ ↦ m.HasIndex) i j := by
  simp only [resolve, Instruction.traverse_eq_ok_iff, value_eq_ok_iff, locate_eq_ok_iff,
    address_eq_effective]
  rfl

/-! ## The first address outside of memory -/

/-- The cause that an address gives if it is outside of memory. -/
def refusal? (m : Machine) (a : Cell) : Option Cause := failure? (m.locate a)

theorem refusal?_eq_some_iff {a : Cell} {cause : Cause} :
    m.refusal? a = some cause ↔ m.Outside a ∧ cause = .addressOutOfRange a := by
  rw [← locate_eq_error_iff, refusal?]
  cases m.locate a <;> simp [failure?]

theorem refusal?_eq_none_iff {a : Cell} : m.refusal? a = none ↔ ¬ m.Outside a := by
  rw [Option.eq_none_iff_forall_ne_some]
  constructor
  · intro h hout
    exact h _ (refusal?_eq_some_iff.2 ⟨hout, rfl⟩)
  · intro h cause hc
    exact h (refusal?_eq_some_iff.1 hc).1

theorem failure?_value (o : Operand) : failure? (m.value o) = (m.touch? o).bind m.refusal? := by
  obtain ⟨_ | addressing, p⟩ := o
  · rfl
  · simp only [touch?, Option.bind_some, value, address_eq_effective, refusal?, locate]
    cases h : m.memory.index? (m.effective addressing p) with
    | none => simp [read?_eq_none_iff.2 (index?_eq_none_iff.1 h), failure?]
    | some i =>
        cases hr : m.memory.read? (m.effective addressing p) with
        | none => exact absurd (read?_eq_none_iff.1 hr) (index?_eq_some_iff.1 h).not_outside
        | some v => rfl

/-- The parameters are looked up one by one, so the first that fails is the one that counts. -/
theorem survey_failure?_eq (i : Fetched) :
    i.survey (fun _ o ↦ failure? (m.value o))
        (fun _ t ↦ failure? (m.locate (m.effective t.addressing t.parameter))) =
      i.operands.map fun o ↦ (m.touch? o).bind m.refusal? := by
  cases i <;> simp only [Instruction.survey, failure?_value] <;> rfl

theorem resolve_eq_error_iff {i : Fetched} {cause : Cause} :
    m.resolve i = .error cause ↔
      ∃ before a after, m.touched i = before ++ a :: after ∧ (∀ b ∈ before, ¬ m.Outside b) ∧
        m.Outside a ∧ cause = .addressOutOfRange a := by
  have htouched : (m.touched i).findSome? m.refusal? =
      (i.operands.map fun o ↦ (m.touch? o).bind m.refusal?).findSome? id := by
    rw [touched, ← List.head?_filterMap, List.filterMap_filterMap, List.head?_filterMap,
      List.findSome?_map]
    rfl
  rw [resolve, Instruction.traverse_eq_error_iff, address_eq_effective, survey_failure?_eq,
    ← htouched, List.findSome?_eq_some_iff]
  constructor
  · rintro ⟨before, a, after, ht, ha, hb⟩
    obtain ⟨hout, hcause⟩ := refusal?_eq_some_iff.1 ha
    exact ⟨before, a, after, ht, fun b hmem ↦ refusal?_eq_none_iff.1 (hb b hmem), hout, hcause⟩
  · rintro ⟨before, a, after, ht, hb, hout, hcause⟩
    exact ⟨before, a, after, ht, refusal?_eq_some_iff.2 ⟨hout, hcause⟩,
      fun b hmem ↦ refusal?_eq_none_iff.2 (hb b hmem)⟩

end Machine

end Intcode
