import Intcode.Cell

/-!
# Memory

A fixed number of cells, all zero at first. Addresses are cells, since programs compute them, so an
address may be negative or too large; it names a cell of memory only if it has an index.

Memory of any size can be made here. That a computer has no room for it is left out, but for sizes
for which there can be no room on any.
-/

namespace Intcode

/-- A fixed number of cells. -/
structure Memory where
  cells : Array Cell
deriving DecidableEq, Repr

namespace Memory

/-- No memory has as many cells as this. A cell takes eight bytes, and what is kept in one piece has
less than `2 ^ 63` bytes. -/
def limit : Nat := Nat.pow 2 60

/-- Memory of `capacity` cells, all zero. -/
def blank (capacity : Nat) : Memory := ⟨Array.replicate capacity 0⟩

/-- The number of cells. -/
def capacity (m : Memory) : Nat := m.cells.size

/-- The index of the cell that an address names, if it is inside of memory. -/
def index? (m : Memory) (address : Cell) : Option Nat :=
  let i := address.toInt
  if 0 ≤ i ∧ i < m.capacity then some i.toNat else none

/-- The value at an address. -/
def read? (m : Memory) (address : Cell) : Option Cell := do
  let i ← m.index? address
  m.cells[i]?

/-- Changes the cell at an index. There is nothing to change past the end. -/
def set (m : Memory) (index : Nat) (value : Cell) : Memory :=
  ⟨m.cells.setIfInBounds index value⟩

/-- Changes the cell at an address. -/
def write? (m : Memory) (address value : Cell) : Option Memory :=
  (m.index? address).map fun i ↦ m.set i value

/-- A program followed by zeros, in as many cells as before. -/
def load? (m : Memory) (program : Array Cell) : Option Memory :=
  if program.size ≤ m.capacity then
    some ⟨program ++ Array.replicate (m.capacity - program.size) 0⟩
  else none

@[simp] theorem capacity_blank (capacity : Nat) : (blank capacity).capacity = capacity := by
  simp [blank, Memory.capacity]

@[simp] theorem capacity_set (m : Memory) (index : Nat) (value : Cell) :
    (m.set index value).capacity = m.capacity := by
  simp [set, capacity]

theorem index?_eq_some_iff {m : Memory} {address : Cell} {i : Nat} :
    m.index? address = some i ↔ address.toInt = i ∧ i < m.capacity := by
  simp only [index?]
  split
  · simp only [Option.some.injEq]
    omega
  · simp only [reduceCtorEq, false_iff]
    omega

theorem index?_lt {m : Memory} {address : Cell} {i : Nat} (h : m.index? address = some i) :
    i < m.capacity := (index?_eq_some_iff.1 h).2

theorem getElem?_set (m : Memory) (index : Nat) (value : Cell) (i : Nat) :
    (m.set index value).cells[i]? =
      if index = i ∧ index < m.capacity then some value else m.cells[i]? := by
  simp only [set, capacity, Array.getElem?_setIfInBounds]
  split
  · rename_i h
    subst h
    split <;> simp_all
  · simp_all

theorem capacity_load? {m m' : Memory} {program : Array Cell} (h : m.load? program = some m') :
    m'.capacity = m.capacity := by
  simp only [load?] at h
  split at h
  · cases h
    simp only [capacity, Array.size_append, Array.size_replicate]
    unfold capacity at *
    omega
  · cases h

end Memory

end Intcode
