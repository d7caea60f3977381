import Intcode.Fault
import Intcode.Memory

/-!
# Guarded operations

Sizes are numbers without bounds, and an access past the end of memory finds nothing: so all that a
machine does is defined everywhere. In words of 64 bits it is not. A sum may overflow, an access
must find something, and a case that cannot come up has no meaning. Here such operations are given
with guards that tell what has gone wrong, so that it can be said that nothing ever does.

What goes wrong with an operation is a mishap, and no fault of the program that is executed. The two
are kept apart: a computation with guards ends with a mishap or without one, and without one it has
a result or a cause like any other.
-/

namespace Intcode

/-- What goes wrong with an operation that is not defined everywhere. -/
inductive Mishap where
  /-- A sum of sizes has more than 64 bits. -/
  | overflow
  /-- A size is less than what is taken from it. -/
  | underflow
  /-- There is nothing at an index, or an end lies past the end of an array. -/
  | outside
  /-- Cells are copied to a place of another size. -/
  | unequal
  /-- A case comes up that was ruled out. -/
  | unreachable
  /-- A target that has been located cannot be written. -/
  | unwritable
  /-- A target that has been decoded is in immediate mode. -/
  | immediateTarget
deriving DecidableEq, Repr

/-- A computation with guards. -/
abbrev Guarded := Except Mishap

namespace Guarded

variable {ε α β : Type}

/-! ## The operations -/

/-- The sum of two sizes. -/
def plus (a b : Nat) : Guarded Nat := if a + b < UInt64.size then .ok (a + b) else .error .overflow

/-- A size without a smaller one. -/
def minus (a b : Nat) : Guarded Nat := if b ≤ a then .ok (a - b) else .error .underflow

/-- What has been looked up at an index. -/
def found : Option α → Guarded α
  | some x => .ok x
  | none => .error .outside

/-- The first cells, and the others. -/
def splitAt (cells : Array Cell) (count : Nat) : Guarded (Array Cell × Array Cell) :=
  if count ≤ cells.size then
    .ok (cells.extract 0 count, cells.extract count cells.size)
  else .error .outside

/-- The cells from an index on. -/
def after (cells : Array Cell) (start : Nat) : Guarded (Array Cell) :=
  if start ≤ cells.size then .ok (cells.extract start cells.size) else .error .outside

/-- What stands in the place of cells after others have been copied to it. -/
def copy (source target : Array Cell) : Guarded (Array Cell) :=
  if target.size = source.size then .ok source else .error .unequal

/-- Cells with another value at an index. -/
def put (cells : Array Cell) (index : Nat) (value : Cell) : Guarded (Array Cell) :=
  if index < cells.size then .ok (cells.setIfInBounds index value) else .error .outside

theorem plus_eq {a b : Nat} (h : a + b < UInt64.size) : plus a b = .ok (a + b) := if_pos h

theorem eq_of_plus_eq_ok {a b c : Nat} (h : plus a b = .ok c) : c = a + b := by
  unfold plus at h
  split at h
  · exact (Except.ok.inj h).symm
  · cases h

theorem minus_eq {a b : Nat} (h : b ≤ a) : minus a b = .ok (a - b) := if_pos h

theorem after_eq {cells : Array Cell} {start : Nat} (h : start ≤ cells.size) :
    after cells start = .ok (cells.extract start cells.size) := if_pos h

theorem put_eq {cells : Array Cell} {index : Nat} (h : index < cells.size) (value : Cell) :
    put cells index value = .ok (cells.setIfInBounds index value) := if_pos h

example : plus (UInt64.size - 1) 1 = .error .overflow := rfl
example : minus 0 1 = .error .underflow := rfl
example : after #[5, 7] 3 = .error .outside := rfl

/-! ## Computations without mishaps -/

@[simp] theorem run_ofExcept (x : Except ε α) : (ofExcept x : ExceptT ε Guarded α).run = .ok x := by
  cases x <;> rfl

@[simp] theorem ok_bind (a : α) (f : α → Except ε β) : Except.ok a >>= f = f a := rfl

@[simp] theorem liftM_ok_bind (a : α) (f : α → ExceptT ε Guarded β) :
    (liftM (.ok a : Guarded α) : ExceptT ε Guarded α) >>= f = f a := rfl

/-- A computation goes on after a part without mishaps as it does after the result of the part. -/
theorem run_bind_eq {x : ExceptT ε Guarded α} {y : Except ε α} {f : α → ExceptT ε Guarded β} :
    x.run = .ok y →
      (x >>= f).run =
        match y with
        | .ok a => (f a).run
        | .error e => .ok (.error e) := by
  intro h
  rw [ExceptT.run_bind, h]
  rfl

/-! ## Memory -/

/-- The value at an address. -/
def read (memory : Memory) (address : Cell) : Guarded (Option Cell) :=
  match memory.index? address with
  | none => return none
  | some i => return some (← found memory.cells[i]?)

/-- Changes the cell at an address. -/
def write (memory : Memory) (address value : Cell) : Guarded (Option Memory) :=
  match memory.index? address with
  | none => return none
  | some i => return some ⟨← put memory.cells i value⟩

/-- A program followed by zeros. The first cells are taken apart from the others and replaced. -/
def load (memory : Memory) (program : Array Cell) : Guarded (Option Memory) :=
  if memory.capacity < program.size then return none
  else do
    let (head, tail) ← splitAt memory.cells program.size
    let head ← copy program head
    return some ⟨head ++ .replicate tail.size 0⟩

theorem read_eq (memory : Memory) (address : Cell) :
    read memory address = .ok (memory.read? address) := by
  unfold read Memory.read?
  cases hindex : memory.index? address with
  | none => rfl
  | some i =>
      have hi : i < memory.cells.size := Memory.index?_lt hindex
      simp [found, hi, bind, Except.bind, pure, Except.pure]

theorem write_eq (memory : Memory) (address value : Cell) :
    write memory address value = .ok (memory.write? address value) := by
  unfold write Memory.write?
  cases hindex : memory.index? address with
  | none => rfl
  | some i =>
      simp only [put_eq (Memory.index?_lt hindex)]
      rfl

theorem load_eq (memory : Memory) (program : Array Cell) :
    load memory program = .ok (memory.load? program) := by
  unfold load Memory.load?
  by_cases hfits : program.size ≤ memory.capacity
  · have hle : program.size ≤ memory.cells.size := hfits
    have hhead : (memory.cells.extract 0 program.size).size = program.size := by simp [hle]
    have htail : (memory.cells.extract program.size memory.cells.size).size =
        memory.capacity - program.size := by simp [Memory.capacity]
    rw [if_neg (Nat.not_lt.2 hfits), if_pos hfits, splitAt, if_pos hle, ← htail]
    simp only [bind, Except.bind, copy, hhead, if_true]
    rfl
  · rw [if_pos (Nat.lt_of_not_le hfits), if_neg hfits]
    rfl

end Guarded

end Intcode
