import Intcode.Proofs.Machine.Invariant

/-!
# Reloading

A machine that is given another program is a new machine with that program, whatever has happened to
it before; or the program is too long, and then nothing happens to it. What carries over is the size
of memory and the options, and these are the same at all times.
-/

namespace Intcode

theorem Memory.load?_eq_of_capacity_eq {memory memory' : Memory}
    (h : memory.capacity = memory'.capacity) : memory.load? = memory'.load? := by
  funext program
  simp only [load?, h]

namespace Machine

variable {m : Machine} {program : Array Cell} {config : Config}

theorem place_eq_of_capacity_eq {memory memory' : Memory}
    (h : memory.capacity = memory'.capacity) : place memory = place memory' := by
  funext program
  simp only [place, Memory.load?_eq_of_capacity_eq h, h]

/-- A machine whose parts fit together is reloaded as if it were built anew. -/
theorem Consistent.reload_eq_load (h : m.Consistent) (program : Array Cell) :
    m.reload program = load program m.config := by
  have hcapacity : m.memory.capacity = (Memory.blank m.config.capacity).capacity := by
    rw [Memory.capacity_blank]
    exact h.capacity
  rw [reload, load, place_eq_of_capacity_eq hcapacity]

theorem load_of_lt (h : config.capacity < program.size) :
    load program config =
      .error ⟨.programTooLong program.size config.capacity, 0, program[0]?.getD 0⟩ := by
  simp [load, place, Memory.load?, Nat.not_le_of_lt h, Except.map]

theorem load_of_le (h : program.size ≤ config.capacity) :
    load program config =
      .ok (fresh config ⟨program ++ Array.replicate (config.capacity - program.size) 0⟩) := by
  simp [load, place, Memory.load?, h, Except.map]

/-- After any history, a machine has the options that it was built with. A program that is too long
is refused, and the machine stays as it is. Any other program makes it the machine that is built
with this program and these options: program and zeros in memory, pointer and base at zero, nothing
to read, nothing put out, and running. So all that is asked of it later is answered as by a new
machine. -/
theorem reload_leaves_no_residue (h : load program config = .ok m) (requests : List Request)
    (program' : Array Cell) :
    (m.after requests).config = config ∧
    (config.capacity < program'.size →
      (m.after requests).serve (.reload program') =
        (.loaded (.error
            ⟨.programTooLong program'.size config.capacity, 0, program'[0]?.getD 0⟩),
          m.after requests)) ∧
    (program'.size ≤ config.capacity →
      ∃ m', load program' config = .ok m' ∧
        m' =
          { memory := ⟨program' ++ Array.replicate (config.capacity - program'.size) 0⟩
            pointer := 0
            base := 0
            queue := .empty
            output := #[]
            status := .running
            config := config } ∧
        (m.after requests).serve (.reload program') = (.loaded (.ok ()), m') ∧
        ∀ later : List Request,
          m.after (requests ++ .reload program' :: later) = m'.after later ∧
          m.replies (requests ++ .reload program' :: later) =
            m.replies requests ++ .loaded (.ok ()) :: m'.replies later) := by
  obtain ⟨hconfig, hconsistent⟩ := consistent_after h requests
  have hreload : (m.after requests).reload program' = load program' config := by
    rw [hconsistent.reload_eq_load, hconfig]
  refine ⟨hconfig, ?_, ?_⟩
  · intro hlong
    exact serve_reload_of_eq_error (hreload.trans (load_of_lt hlong))
  · intro hfits
    have hserve := serve_reload_of_eq_ok (hreload.trans (load_of_le hfits))
    refine ⟨_, load_of_le hfits, rfl, hserve, fun later ↦ ?_⟩
    rw [after_append, replies_append, after, replies, hserve]
    exact ⟨rfl, rfl⟩

/-- A machine that has put out a value and waits for one is loaded anew, and is left waiting if the
program has one cell too many. -/
theorem reload_leaves_no_residue_of_pausing :
    (pausing.after [.run 9 ⟨[4]⟩, .run 9 .empty]).serve (.reload #[99, 5]) =
      (.loaded (.ok ()), fresh pausing.config ⟨#[99, 5, 0, 0, 0]⟩) ∧
    (pausing.after [.run 9 ⟨[4]⟩, .run 9 .empty]).serve (.reload #[3, 1, 4, 1, 99, 0]) =
      (.loaded (.error ⟨.programTooLong 6 5, 0, 3⟩),
        pausing.after [.run 9 ⟨[4]⟩, .run 9 .empty]) := by
  have hload : load #[104, 7, 3, 0, 99] pausing.config = .ok pausing := by rfl
  obtain ⟨-, -, hfits⟩ :=
    reload_leaves_no_residue hload [.run 9 ⟨[4]⟩, .run 9 .empty] #[99, 5]
  obtain ⟨-, hlong, -⟩ :=
    reload_leaves_no_residue hload [.run 9 ⟨[4]⟩, .run 9 .empty] #[3, 1, 4, 1, 99, 0]
  obtain ⟨_, -, rfl, hserve, -⟩ := hfits (by decide)
  exact ⟨hserve, hlong (by decide)⟩

end Machine

end Intcode
