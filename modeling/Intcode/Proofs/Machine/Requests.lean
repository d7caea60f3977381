import Intcode.Machine.Run

/-!
# Requests

All that can be asked of a machine from outside, and what it answers. A history of a machine is a
list of requests, served one after the other.
-/

namespace Intcode

/-- Something to ask of a machine. To resume a paused machine is to run it again. -/
inductive Request where
  /-- Run on new input, for at most `budget` instructions. -/
  | run (budget : Nat) (queue : Queue)
  | step
  /-- Load another program, and stay as before if it does not fit. -/
  | reload (program : Array Cell)
  /-- Hand out the input that has not been read. -/
  | takeQueue
deriving DecidableEq, Repr

/-- What a machine answers. -/
inductive Reply where
  | status (result : Except Fault Status)
  | signal (result : Except Fault Signal)
  | loaded (result : Except Fault Unit)
  | queue (queue : Queue)

namespace Machine

/-- Serves one request. -/
def serve (m : Machine) : Request → Reply × Machine
  | .run budget queue =>
    let (result, m') := m.run budget queue
    (.status result, m')
  | .step =>
    let (result, m') := m.step
    (.signal result, m')
  | .reload program =>
    match m.reload program with
    | .ok m' => (.loaded (.ok ()), m')
    | .error f => (.loaded (.error f), m)
  | .takeQueue =>
    let (queue, m') := m.takeQueue
    (.queue queue, m')

theorem serve_reload_of_eq_ok {m m' : Machine} {program : Array Cell}
    (h : m.reload program = .ok m') : m.serve (.reload program) = (.loaded (.ok ()), m') := by
  rw [serve, h]

theorem serve_reload_of_eq_error {m : Machine} {program : Array Cell} {f : Fault}
    (h : m.reload program = .error f) : m.serve (.reload program) = (.loaded (.error f), m) := by
  rw [serve, h]

/-- The machine after a history. -/
def after (m : Machine) : List Request → Machine
  | [] => m
  | request :: requests => (m.serve request).2.after requests

/-- The answers given in a history. -/
def replies (m : Machine) : List Request → List Reply
  | [] => []
  | request :: requests => (m.serve request).1 :: (m.serve request).2.replies requests

theorem after_append (m : Machine) (requests later : List Request) :
    m.after (requests ++ later) = (m.after requests).after later := by
  induction requests generalizing m with
  | nil => rfl
  | cons request requests ih => exact ih _

theorem replies_append (m : Machine) (requests later : List Request) :
    m.replies (requests ++ later) = m.replies requests ++ (m.after requests).replies later := by
  induction requests generalizing m with
  | nil => rfl
  | cons request requests ih => exact congrArg (_ :: ·) (ih _)

/-- What each request keeps, a history keeps. -/
theorem after_invariant {P : Machine → Prop} (hserve : ∀ m request, P m → P (m.serve request).2)
    {m : Machine} (requests : List Request) (h : P m) : P (m.after requests) := by
  induction requests generalizing m with
  | nil => exact h
  | cons request requests ih => exact ih (hserve m request h)

end Machine

end Intcode
