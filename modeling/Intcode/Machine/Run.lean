import Intcode.Machine.Step

/-!
# Runs

A run gives a machine its input and lets it execute until it pauses, halts or fails. A program may
never do any of these, so a run is cut into slices: a slice that ends with the machine still running
can be continued by another one, and does not differ from a longer slice.
-/

namespace Intcode.Machine

/-- Gives a machine its input and sets it running, unless it has halted. Input from before is
dropped. -/
def start (m : Machine) (queue : Queue) : Machine :=
  if m.status = .halted then m else { m with queue := queue, status := .running }

/-- Executes at most `budget` instructions, and stops when the machine is not running any more. -/
def drive : Nat → Machine → Except Fault Status × Machine
  | 0, m => (.ok m.status, m)
  | budget + 1, m =>
    if m.status = .running then
      match m.step with
      | (.ok _, m) => drive budget m
      | (.error fault, m) => (.error fault, m)
    else (.ok m.status, m)

/-- Runs a machine on new input, for at most `budget` instructions. -/
def run (budget : Nat) (queue : Queue) (m : Machine) : Except Fault Status × Machine :=
  drive budget (m.start queue)

theorem drive_of_not_running {m : Machine} (budget : Nat) (h : m.status ≠ .running) :
    drive budget m = (.ok m.status, m) := by
  cases budget <;> simp [drive, h]

/-- A slice continues the one before it. -/
theorem drive_add (a b : Nat) (m : Machine) :
    drive (a + b) m =
      match drive a m with
      | (.ok _, m) => drive b m
      | (.error fault, m) => (.error fault, m) := by
  induction a generalizing m with
  | zero => simp [drive]
  | succ a ih =>
      rw [Nat.succ_add]
      by_cases h : m.status = .running
      · simp only [drive, h, if_true]
        cases hs : m.step with
        | mk r m' =>
            cases r with
            | ok _ => exact ih m'
            | error _ => rfl
      · rw [drive_of_not_running _ h, drive_of_not_running _ h]
        exact (drive_of_not_running b h).symm

/-- A halted machine does nothing and drops the input it is given. -/
theorem run_of_halted {m : Machine} (budget : Nat) (queue : Queue) (h : m.status = .halted) :
    run budget queue m = (.ok .halted, m) := by
  simp only [run, start, h, if_true]
  rw [drive_of_not_running _ (by simp [h]), h]

end Intcode.Machine
