import Intcode.Proofs.Machine.Runs
import Intcode.Proofs.Machine.Table

/-!
# Schedules

A machine can be driven to its halt in many ways: step by step, pause by pause, with its input in
one piece or in several, early or late. None of this makes a difference in the end. Whatever the
schedule, the machine halts as if it had been run once, on all of the input, without a pause.

Each driven machine is followed by the one that runs through: it has the input of the rest of the
schedule already, and it does not pause. A step of the first is a step of the second, except that
the first may have to wait; then the second does nothing, and has lost nothing.
-/

namespace Intcode

/-- One call of a schedule. -/
inductive Call where
  | step
  /-- Add values to the input that has not been read, and run. -/
  | feed (values : List Cell)
deriving DecidableEq, Repr

/-- The input that a call brings. -/
def Call.fed : Call → List Cell
  | step => []
  | feed values => values

namespace Machine

/-- A call returns. Of what it returns, only a fault counts. -/
inductive Answers (m : Machine) : Call → Except Fault Unit → Machine → Prop
  | step {signal : Signal} {m' : Machine} (step : m.step = (.ok signal, m')) :
      Answers m .step (.ok ()) m'
  | stepFault {f : Fault} {m' : Machine} (step : m.step = (.error f, m')) :
      Answers m .step (.error f) m'
  | feed {values : List Cell} {status : Status} {m' : Machine}
      (returns : m.takeQueue.2.Returns (m.takeQueue.1.extend values) (.ok status) m') :
      Answers m (.feed values) (.ok ()) m'
  | feedFault {values : List Cell} {f : Fault} {m' : Machine}
      (returns : m.takeQueue.2.Returns (m.takeQueue.1.extend values) (.error f) m') :
      Answers m (.feed values) (.error f) m'

/-- The machine is driven by the calls, one after the other, and the last one is the first after
which it has halted. The result is that of the last call. -/
inductive Driven : Machine → List Call → Except Fault Unit → Machine → Prop
  | last {m m' : Machine} {call : Call} {r : Except Fault Unit}
      (answers : m.Answers call r m') (halted : m'.status = .halted) : Driven m [call] r m'
  | next {m m₁ m' : Machine} {call : Call} {calls : List Call} {r₁ r : Except Fault Unit}
      (answers : m.Answers call r₁ m₁) (going : m₁.status ≠ .halted)
      (rest : Driven m₁ calls r m') : Driven m (call :: calls) r m'

/-- The machine with both pauses switched off. -/
def unpaused (m : Machine) : Machine :=
  { m with config := { m.config with pauseOnOutput := false, pauseOnInput := false } }

/-- The machine that does not pause, and that has all later input in its queue. -/
def uninterrupted (m : Machine) (later : List Cell) : Machine :=
  { m.unpaused with
    queue := m.queue.extend later
    status := if m.status = .halted then .halted else .running }

variable {m m₁ m' : Machine} {signal : Signal} {later : List Cell} {call : Call} {f : Fault}
  {r : Except Fault Status}

/-! ## The machine that runs through -/

theorem status_uninterrupted (h : m.status ≠ .halted) :
    (m.uninterrupted later).status = .running := if_neg h

theorem uninterrupted_eq_unpaused (h : m.status = .halted) : m.uninterrupted [] = m.unpaused := by
  simp only [uninterrupted, unpaused, Queue.extend_nil, h, if_true]

theorem start_unpaused (h : m.status ≠ .halted) :
    m.unpaused.start (m.queue.extend later) = m.uninterrupted later := by
  have hunpaused : m.unpaused.status ≠ .halted := h
  simp only [start, hunpaused, uninterrupted, h, if_false]

theorem start_takeQueue (h : m.status ≠ .halted) (values : List Cell) :
    (m.takeQueue.2.start (m.takeQueue.1.extend values)).uninterrupted later =
      m.uninterrupted (values ++ later) := by
  have htaken : m.takeQueue.2.status ≠ .halted := h
  have hqueue : (m.queue.extend values).extend later = m.queue.extend (values ++ later) :=
    congrArg Queue.mk (List.append_assoc _ _ _)
  simp only [start, htaken, if_false, uninterrupted, h]
  rw [← hqueue]
  rfl

theorem uninterrupted_resume (h : m.status ≠ .halted) :
    (m.takeQueue.2.start m.takeQueue.1).uninterrupted later = m.uninterrupted later := by
  have hstart : (m.takeQueue.2.start (m.takeQueue.1.extend [])).uninterrupted later =
      m.uninterrupted ([] ++ later) := start_takeQueue h []
  rw [Queue.extend_nil] at hstart
  exact hstart

/-! ## One step -/

/-- What is executed with pauses is executed without, unless it is a pause before an input. -/
theorem Executes.uninterrupted (h : m.Executes signal m') (hsignal : signal ≠ .awaitingInput)
    (later : List Cell) : (m.uninterrupted later).Executes signal (m'.uninterrupted later) := by
  cases h with
  | binary hi ha hb hd hs => exact .binary hi ha hb hd hs
  | @input dst i v rest memory hi hd hq hs =>
      have hqueue : (m.uninterrupted later).queue.values = v :: (rest ++ later) := by
        show m.queue.values ++ later = _
        rw [hq]
        rfl
      exact .input hi hd hqueue hs
  | await => exact absurd rfl hsignal
  | @output a x hi ha =>
      have hx : (m.uninterrupted later).Executes (.output x) _ := .output hi ha
      cases hwaits : m.config.pauseOnOutput <;> exact hx
  | jump hi ha ht hc hk => exact .jump hi ha ht hc hk
  | pass hi ha ht hc => exact .pass hi ha ht hc
  | adjustBase hi ha => exact .adjustBase hi ha
  | halt hi => exact .halt hi

/-- A pause before an input changes nothing for the machine that does not pause. -/
theorem uninterrupted_of_awaitingInput (h : m.Executes .awaitingInput m') (hm : m.status ≠ .halted)
    (later : List Cell) : m'.uninterrupted later = m.uninterrupted later := by
  cases h
  simp only [uninterrupted, unpaused, hm]
  rfl

/-- What is refused is refused without pauses, unless there is later input for a machine that could
not have waited for it. -/
theorem Refuses.uninterrupted {cause : Cause} (h : m.Refuses cause)
    (hlater : m.config.pauseOnInput = false → later = []) :
    (m.uninterrupted later).Refuses cause := by
  cases h with
  | pastEnd hout => exact .pastEnd hout
  | undecoded hc hd => exact .undecoded hc hd
  | cutOff hc hd hw => exact .cutOff hc hd hw
  | outside hi ht hb ha => exact .outside hi ht hb ha
  | exhausted hi hd hq hp =>
      have hqueue : (m.uninterrupted later).queue.values = [] := by
        show m.queue.values ++ later = []
        rw [hq, hlater hp, List.append_nil]
      exact .exhausted hi hd hqueue rfl
  | astray hi ha ht hc hy => exact .astray hi ha ht hc hy

/-- A machine that fails without input to come fails in the same way if it does not pause. -/
theorem step_uninterrupted_of_error (hs : m.step = (.error f, m₁))
    (hlater : m.config.pauseOnInput = false → later = []) :
    (m.uninterrupted later).step = (.error f, m₁.uninterrupted later) := by
  have hm : m.status ≠ .halted := status_of_step_eq_error hs
  have hrunning : (m.uninterrupted later).status = .running := status_uninterrupted hm
  obtain ⟨hr, hf, rfl⟩ := (step_eq_error_iff hm).1 hs
  exact (step_eq_error_iff (by simp [hrunning])).2 ⟨hr.uninterrupted hlater, hf, rfl⟩

theorem step_uninterrupted (hm : m.status ≠ .halted) (hs : m.step = (.ok signal, m₁))
    (hsignal : signal ≠ .awaitingInput) :
    (m.uninterrupted later).step = (.ok signal, m₁.uninterrupted later) := by
  have hrunning : (m.uninterrupted later).status = .running := status_uninterrupted hm
  exact (step_eq_ok_iff (by simp [hrunning])).2
    (((step_eq_ok_iff hm).1 hs).uninterrupted hsignal later)

theorem Ends.of_step (hm : m.status ≠ .halted) (hs : m.step = (.ok signal, m₁))
    (h : Ends (m₁.uninterrupted later) r m') : Ends (m.uninterrupted later) r m' := by
  by_cases hsignal : signal = .awaitingInput
  · subst hsignal
    rw [← uninterrupted_of_awaitingInput ((step_eq_ok_iff hm).1 hs) hm]
    exact h
  · exact .next (status_uninterrupted hm) (step_uninterrupted hm hs hsignal) h

theorem Ends.of_step_error (hs : m.step = (.error f, m₁)) :
    Ends (m.uninterrupted []) (.error f) (m₁.uninterrupted []) :=
  .fail (status_uninterrupted (status_of_step_eq_error hs))
    (step_uninterrupted_of_error hs fun _ ↦ rfl)

/-! ## One call -/

theorem Ends.uninterrupted {status : Status} (h : Ends m (.ok status) m₁)
    (hrest : Ends (m₁.uninterrupted later) r m') : Ends (m.uninterrupted later) r m' := by
  generalize hr : (Except.ok status : Except Fault Status) = r₁ at h
  induction h with
  | stop => exact hrest
  | fail => cases hr
  | next hrunning hs _ ih => exact .of_step (by simp [hrunning]) hs (ih hrest hr)

theorem Ends.uninterrupted_of_error (h : Ends m (.error f) m') :
    Ends (m.uninterrupted []) (.error f) (m'.uninterrupted []) := by
  generalize hr : (Except.error f : Except Fault Status) = r at h
  induction h with
  | stop => cases hr
  | fail _ hs =>
      cases hr
      exact .of_step_error hs
  | next hrunning hs _ ih => exact .of_step (by simp [hrunning]) hs (ih hr)

theorem Ends.status_of_error (h : Ends m (.error f) m') : m'.status = .halted := by
  obtain ⟨_, m₁, -, -, hs⟩ := h.exists_trace_of_error
  obtain ⟨-, rfl⟩ := eq_of_step_eq_error hs
  rfl

theorem Answers.uninterrupted (h : m.Answers call (.ok ()) m₁) (hm : m.status ≠ .halted)
    (hrest : Ends (m₁.uninterrupted later) r m') :
    Ends (m.uninterrupted (call.fed ++ later)) r m' := by
  cases h with
  | step hs => exact .of_step hm hs hrest
  | feed hreturns =>
      have hends := (returns_iff_ends.1 hreturns).uninterrupted hrest
      rw [start_takeQueue hm] at hends
      exact hends

theorem Answers.uninterrupted_of_error (h : m.Answers call (.error f) m')
    (hm : m.status ≠ .halted) :
    Ends (m.uninterrupted call.fed) (.error f) (m'.uninterrupted []) := by
  cases h with
  | stepFault hs => exact .of_step_error hs
  | feedFault hreturns =>
      have hends := (returns_iff_ends.1 hreturns).uninterrupted_of_error
      rw [start_takeQueue hm, List.append_nil] at hends
      exact hends

theorem Answers.status_of_error (h : m.Answers call (.error f) m') : m'.status = .halted := by
  cases h with
  | stepFault hs =>
      obtain ⟨-, rfl⟩ := eq_of_step_eq_error hs
      rfl
  | feedFault hreturns => exact (returns_iff_ends.1 hreturns).status_of_error

/-! ## All calls -/

theorem Driven.halted {calls : List Call} {r : Except Fault Unit} (h : Driven m calls r m') :
    m'.status = .halted := by
  induction h with
  | last _ hhalted => exact hhalted
  | next _ _ _ ih => exact ih

theorem Driven.ends {calls : List Call} {r : Except Fault Unit} (h : Driven m calls r m')
    (hm : m.status ≠ .halted) :
    Ends (m.uninterrupted (calls.flatMap Call.fed)) (r.map fun _ ↦ .halted)
      (m'.uninterrupted []) := by
  induction h with
  | @last m m' call r hanswers hhalted =>
      rw [List.flatMap_singleton]
      -- Only the last call can fail, and then there is no later input for the follower to read.
      cases r with
      | ok _ =>
          have hstatus : (m'.uninterrupted []).status = .halted := if_pos hhalted
          have hstop : Ends (m'.uninterrupted []) (.ok .halted) (m'.uninterrupted []) :=
            hstatus ▸ .stop (by simp [hstatus])
          have hends := hanswers.uninterrupted hm hstop
          rw [List.append_nil] at hends
          exact hends
      | error f => exact hanswers.uninterrupted_of_error hm
  | @next m m₁ m' call calls r₁ r hanswers hgoing _ ih =>
      rw [List.flatMap_cons]
      cases r₁ with
      | ok _ => exact hanswers.uninterrupted hm (ih hgoing)
      | error f => exact absurd hanswers.status_of_error hgoing

/-- However a machine is driven to its halt, it halts in the same way and in the same state if it is
run once, with no pauses, on what it has left to read and all that it is fed. -/
theorem schedule_independent {calls : List Call} {r : Except Fault Unit}
    (hm : m.status ≠ .halted) (h : Driven m calls r m') :
    m.unpaused.Returns (m.queue.extend (calls.flatMap Call.fed)) (r.map fun _ ↦ .halted)
      m'.unpaused := by
  rw [returns_iff_ends, start_unpaused hm, ← uninterrupted_eq_unpaused h.halted]
  exact h.ends hm

/-- A machine that reads `x` and `y` and puts out their sum `z`, and that may pause. -/
def summing (pointer : Nat) (status : Status) (x y z : Cell) (output : Array Cell) : Machine :=
  { fresh { capacity := 14, pauseOnOutput := true, pauseOnInput := true }
      ⟨#[3, 11, 3, 12, 1, 11, 12, 13, 4, 13, 99, x, y, z]⟩ with
    pointer := pointer
    status := status
    output := output }

/-- The values come one by one, or both at once. -/
theorem schedule_independent_of_summing :
    Driven (summing 0 .running 0 0 0 #[]) [.step, .feed [5], .feed [6], .step] (.ok ())
      (summing 11 .halted 5 6 11 #[11]) ∧
    (summing 0 .running 0 0 0 #[]).unpaused.Returns ⟨[5, 6]⟩ (.ok .halted)
      (summing 11 .halted 5 6 11 #[11]).unpaused := by
  have hfirst : (summing 0 .running 0 0 0 #[]).step =
      (.ok .awaitingInput, summing 0 (.paused .input) 0 0 0 #[]) := by rfl
  have hread : (summing 0 (.paused .input) 0 0 0 #[]).Returns ⟨[5]⟩ (.ok (.paused .input))
      (summing 2 (.paused .input) 5 0 0 #[]) := ⟨9, by rfl, nofun⟩
  have hsum : (summing 2 (.paused .input) 5 0 0 #[]).Returns ⟨[6]⟩ (.ok (.paused .output))
      (summing 10 (.paused .output) 5 6 11 #[11]) := ⟨9, by rfl, nofun⟩
  have hlast : (summing 10 (.paused .output) 5 6 11 #[11]).step =
      (.ok .halted, summing 11 .halted 5 6 11 #[11]) := by rfl
  have hdriven : Driven (summing 0 .running 0 0 0 #[]) [.step, .feed [5], .feed [6], .step] (.ok ())
      (summing 11 .halted 5 6 11 #[11]) :=
    .next (.step hfirst) nofun
      (.next (.feed hread) nofun (.next (.feed hsum) nofun (.last (.step hlast) rfl)))
  have hrunning : (summing 0 .running 0 0 0 #[]).status ≠ .halted := nofun
  exact ⟨hdriven, schedule_independent hrunning hdriven⟩

end Machine

end Intcode
