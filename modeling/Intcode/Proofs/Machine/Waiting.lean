import Intcode.Proofs.Machine.Invariant
import Intcode.Proofs.Machine.Want
import Mathlib.Data.List.Forall2
import Mathlib.Data.List.Induction

/-!
# Waiting for input

A machine that waits for input stays as it is, and says so, for as long as it is given none. Each
such request looks at the instruction at the pointer again; it is the same input as before, since
nothing has been stored and nothing has been passed. When there is something to read at last, this
instruction is the first to be executed, and it stores into the cell that had been found for it
when the machine paused.
-/

namespace Intcode

/-- The request brings nothing to read. A run is one that may execute an instruction. -/
def Request.Idle : Request → Prop
  | .run budget queue => 0 < budget ∧ queue = .empty
  | .step | .takeQueue => True
  | .reload _ => False

/-- The reply is that of a machine that waits for input. -/
inductive Reply.StillWaiting : Request → Reply → Prop
  | run {budget : Nat} : StillWaiting (.run budget .empty) (.status (.ok (.paused .input)))
  | step : StillWaiting .step (.signal (.ok .awaitingInput))
  | takeQueue : StillWaiting .takeQueue (.queue .empty)

namespace Machine

/-- The machine waits for input, and it could carry the input out if there were something to
read. -/
structure Waiting (m : Machine) : Prop where
  status : m.status = .paused .input
  waits : m.config.pauseOnInput = true
  wants : m.Wants

/-- While the request is served, the machine comes to be `m₀`, with an instruction to execute. -/
inductive Visits (m : Machine) : Request → Machine → Prop
  | step (going : m.status ≠ .halted) : Visits m .step m
  | run {budget k : Nat} {queue : Queue} (lt : k < budget)
      (running : (drive k (m.start queue)).2.status = .running) :
      Visits m (.run budget queue) (drive k (m.start queue)).2

/-- In the history, the machine has come to be `m₀`, has paused there for input, and has not changed
since. -/
def PausedFrom (m : Machine) (requests : List Request) (m₀ : Machine) : Prop :=
  ∃ earlier request later, requests = earlier ++ request :: later ∧
    (m.after earlier).Visits request m₀ ∧
    m₀.step = (.ok .awaitingInput, m.after (earlier ++ [request])) ∧
    m.after requests = m.after (earlier ++ [request])

variable {m m₀ m' : Machine} {r : Except Fault Status} {requests : List Request}

/-! ## Nothing to read -/

theorem Wants.step (h : m.Wants) (hm : m.status ≠ .halted) (hwaits : m.config.pauseOnInput = true) :
    m.step = (.ok .awaitingInput, { m with status := .paused .input }) :=
  (step_eq_ok_iff hm).2 (executes_awaitingInput_iff.2 ⟨h, hwaits, rfl⟩)

namespace Waiting

theorem queue_eq (h : m.Waiting) : m.queue = .empty := by
  obtain ⟨_, _, -, -, hq⟩ := h.wants
  exact congrArg Queue.mk hq

theorem step (h : m.Waiting) : m.step = (.ok .awaitingInput, m) := by
  rw [h.wants.step (by simp [h.status]) h.waits, ← h.status]

theorem start_empty (h : m.Waiting) : m.start .empty = { m with status := .running } := by
  simp only [start, h.status, ← h.queue_eq, reduceCtorEq, if_false]

theorem run_empty (h : m.Waiting) (budget : Nat) :
    m.run (budget + 1) .empty = (.ok (.paused .input), m) := by
  have hstep : ({ m with status := .running } : Machine).step = (.ok .awaitingInput, m) := by
    have hwants : ({ m with status := .running } : Machine).Wants := h.wants
    rw [hwants.step nofun h.waits]
    show (_, { m with status := .paused .input }) = _
    rw [← h.status]
  rw [run, h.start_empty, drive, if_pos rfl, hstep]
  show drive budget m = _
  rw [drive_of_not_running budget (by simp [h.status]), h.status]

theorem takeQueue (h : m.Waiting) : m.takeQueue = (.empty, m) := by
  rw [Machine.takeQueue, h.queue_eq, ← h.queue_eq]

/-- A machine that waits is not changed by a request that brings it nothing. -/
theorem serve (h : m.Waiting) {request : Request} (hidle : request.Idle) :
    (m.serve request).2 = m ∧ Reply.StillWaiting request (m.serve request).1 := by
  cases request with
  | run budget queue =>
      obtain ⟨hbudget, rfl⟩ := hidle
      obtain ⟨budget, rfl⟩ := Nat.exists_eq_succ_of_ne_zero (Nat.ne_of_gt hbudget)
      simp only [Machine.serve, h.run_empty, true_and]
      exact .run
  | step =>
      simp only [Machine.serve, h.step, true_and]
      exact .step
  | reload => exact hidle.elim
  | takeQueue =>
      simp only [Machine.serve, h.takeQueue, true_and]
      exact .takeQueue

theorem after (h : m.Waiting) {requests : List Request}
    (hidle : ∀ request ∈ requests, request.Idle) :
    m.after requests = m ∧ List.Forall₂ Reply.StillWaiting requests (m.replies requests) := by
  induction requests with
  | nil => exact ⟨rfl, .nil⟩
  | cons request requests ih =>
      obtain ⟨hfirst, hrest⟩ := List.forall_mem_cons.1 hidle
      obtain ⟨hm, hreply⟩ := h.serve hfirst
      obtain ⟨hafter, hreplies⟩ := ih hrest
      simp only [Machine.after, replies, hm]
      exact ⟨hafter, .cons hreply hreplies⟩

end Waiting

/-! ## Where the machine has paused -/

theorem Consistent.waiting (h : m.Consistent) (hm : m.status = .paused .input) : m.Waiting := by
  obtain ⟨hwaits, hq, dst, i, hfetch, hlocate⟩ := h.rests .input hm
  rw [address_eq_effective] at hlocate
  exact ⟨hm, hwaits, dst, i, fetch_eq_ok_iff.1 hfetch, locate_eq_ok_iff.1 hlocate, hq⟩

/-- A running machine that is driven until it waits has come to the step that has paused it. -/
theorem exists_drive_of_paused {budget : Nat} (h : drive budget m = (r, m'))
    (hm : m.status = .running) (hm' : m'.status = .paused .input) :
    ∃ k < budget, (drive k m).2.status = .running ∧
      (drive k m).2.step = (.ok .awaitingInput, m') := by
  induction budget generalizing m with
  | zero =>
      cases h
      rw [hm] at hm'
      cases hm'
  | succ budget ih =>
      simp only [drive, hm, if_true] at h
      split at h
      · rename_i signal m₁ hs
        by_cases hgoing : m₁.status = .running
        · obtain ⟨k, hk, hrunning, hlast⟩ := ih h hgoing
          have hdrive : drive (k + 1) m = drive k m₁ := by simp only [drive, hm, if_true, hs]
          rw [← hdrive] at hrunning hlast
          exact ⟨k + 1, Nat.succ_lt_succ hk, hrunning, hlast⟩
        · rw [drive_of_not_running budget hgoing] at h
          cases h
          have hx : m.Executes signal m' := (step_eq_ok_iff (by simp [hm])).1 hs
          rw [hx.paused_input_iff.1 hm'] at hs
          exact ⟨0, Nat.succ_pos budget, hm, hs⟩
      · rename_i hs
        cases h
        obtain ⟨-, rfl⟩ := eq_of_step_eq_error hs
        cases hm'

/-- After a request to go on, the machine waits only if it has paused on the way. -/
theorem exists_visits_of_run {budget : Nat} {queue : Queue}
    (h : (m.run budget queue).2.status = .paused .input) :
    ∃ m₀, m.Visits (.run budget queue) m₀ ∧
      m₀.step = (.ok .awaitingInput, (m.run budget queue).2) := by
  by_cases hm : m.status = .halted
  · rw [run_of_halted budget queue hm, hm] at h
    cases h
  · obtain ⟨k, hk, hrunning, hlast⟩ := exists_drive_of_paused rfl (status_start hm queue) h
    exact ⟨_, .run hk hrunning, hlast⟩

theorem exists_visits_of_step (h : m.step.2.status = .paused .input) :
    ∃ m₀, m.Visits .step m₀ ∧ m₀.step = (.ok .awaitingInput, m.step.2) := by
  by_cases hm : m.status = .halted
  · rw [step_of_halted hm, hm] at h
    cases h
  · refine ⟨m, .step hm, ?_⟩
    rcases hs : m.step with ⟨f | signal, m'⟩
    · obtain ⟨-, rfl⟩ := eq_of_step_eq_error hs
      rw [hs] at h
      cases h
    · rw [hs] at h
      have hx : m.Executes signal m' := (step_eq_ok_iff hm).1 hs
      rw [hx.paused_input_iff.1 h]

/-- A machine that waits has paused at some time since it was loaded, and not changed after that. -/
theorem exists_pausedFrom {program : Array Cell} {config : Config} (h : load program config = .ok m)
    (hwaiting : (m.after requests).status = .paused .input) :
    ∃ m₀, m.PausedFrom requests m₀ := by
  induction requests using List.reverseRecOn with
  | nil =>
      obtain ⟨memory, -, rfl⟩ := load_eq_ok_iff.1 h
      cases hwaiting
  | append_singleton requests request ih =>
      have hlast : m.after (requests ++ [request]) = ((m.after requests).serve request).2 :=
        after_append m requests [request]
      -- If the last request changes nothing, the machine has waited before, and still does.
      have hsame (hsame : m.after (requests ++ [request]) = m.after requests) :
          ∃ m₀, m.PausedFrom (requests ++ [request]) m₀ := by
        rw [hsame] at hwaiting
        obtain ⟨m₀, earlier, first, later, rfl, hvisits, hpause, hafter⟩ := ih hwaiting
        exact ⟨m₀, earlier, first, later ++ [request], by simp, hvisits, hpause,
          hsame.trans hafter⟩
      have hpaused {m₀ : Machine} (hvisits : (m.after requests).Visits request m₀)
          (hstep : m₀.step = (.ok .awaitingInput, ((m.after requests).serve request).2)) :
          ∃ m₀, m.PausedFrom (requests ++ [request]) m₀ :=
        ⟨m₀, requests, request, [], rfl, hvisits, hlast ▸ hstep, rfl⟩
      rw [hlast] at hwaiting
      cases request with
      | run budget queue =>
          obtain ⟨m₀, hvisits, hstep⟩ := exists_visits_of_run hwaiting
          exact hpaused hvisits hstep
      | step =>
          obtain ⟨m₀, hvisits, hstep⟩ := exists_visits_of_step hwaiting
          exact hpaused hvisits hstep
      | reload program =>
          cases hreload : (m.after requests).reload program with
          | ok m₁ =>
              obtain ⟨memory, -, rfl⟩ := reload_eq_ok_iff.1 hreload
              rw [serve_reload_of_eq_ok hreload] at hwaiting
              cases hwaiting
          | error f => exact hsame (by rw [hlast, serve_reload_of_eq_error hreload])
      | takeQueue =>
          have hbefore : (m.after requests).Waiting :=
            (consistent_after h requests).2.waiting hwaiting
          exact hsame (hlast.trans (congrArg Prod.snd hbefore.takeQueue))

/-! ## Something to read -/

/-- Given something to read, a machine that waits executes the input that it has waited before. -/
theorem step_start_cons {dst : Target} {i : Nat} (hm : m.status = .paused .input)
    (hi : m.Stands (.input dst)) (hdst : m.HasIndex dst i) (v : Cell) (vs : List Cell) :
    (m.start ⟨v :: vs⟩).step =
      (.ok .executed,
        { m with
          memory := m.memory.set i v
          pointer := m.pointer + 2
          queue := ⟨vs⟩
          status := .running }) := by
  have hstart : m.start ⟨v :: vs⟩ = { m with queue := ⟨v :: vs⟩, status := .running } := by
    simp only [start, hm, reduceCtorEq, if_false]
  have hqueue : { m with queue := ⟨v :: vs⟩, status := .running }.queue.values = v :: vs := rfl
  rw [hstart]
  exact (step_eq_ok_iff (by simp)).2 (.input hi hdst hqueue ((Memory.stored_iff hdst.2).2 rfl))

/-- Whenever a machine waits for input, whatever has been asked of it since it was loaded, any
requests that bring it nothing to read are answered as by a waiting machine and leave it as it is.
It has paused before an input, at the pointer where it still is, and has found a cell for that input
then. Once it is run on some values, the first thing that it does is to carry out this very input:
it stores the first value in that cell, takes it from the queue, and goes on after the input. -/
theorem waiting_is_stable {program : Array Cell} {config : Config} (h : load program config = .ok m)
    (requests : List Request) (hawaiting : (m.after requests).awaitingInput = true) :
    let m' := m.after requests
    (∀ idle : List Request, (∀ request ∈ idle, request.Idle) →
      m'.after idle = m' ∧ List.Forall₂ Reply.StillWaiting idle (m'.replies idle)) ∧
    ∃ m₀ dst i, m.PausedFrom requests m₀ ∧ m₀.pointer = m'.pointer ∧ m₀.Stands (.input dst) ∧
      m₀.HasIndex dst i ∧
      ∀ v vs, ∃ memory, m'.memory.Stored i v memory ∧
        let m₁ :=
          { m' with
            memory := memory
            pointer := m'.pointer + 2
            queue := ⟨vs⟩
            status := .running }
        (m'.start ⟨v :: vs⟩).step = (.ok .executed, m₁) ∧
        ∀ budget, m'.run (budget + 1) ⟨v :: vs⟩ = drive budget m₁ := by
  intro m'
  have hstatus : m'.status = .paused .input := of_decide_eq_true hawaiting
  have hwaiting : m'.Waiting := (consistent_after h requests).2.waiting hstatus
  refine ⟨fun idle hidle ↦ hwaiting.after hidle, ?_⟩
  obtain ⟨m₀, hpaused⟩ := exists_pausedFrom h hstatus
  have hpause : m' = { m₀ with status := .paused .input } := by
    obtain ⟨_, _, _, -, -, hstep, hafter⟩ := hpaused
    exact hafter.trans (eq_of_step_eq_awaitingInput hstep)
  obtain ⟨dst, i, hi, hdst, -⟩ := hwaiting.wants
  have hpointer : m₀.pointer = m'.pointer := by rw [hpause]
  have hi₀ : m₀.Stands (.input dst) := by
    rw [hpause] at hi
    exact hi
  have hdst₀ : m₀.HasIndex dst i := by
    rw [hpause] at hdst
    exact hdst
  refine ⟨m₀, dst, i, hpaused, hpointer, hi₀, hdst₀, fun v vs ↦ ?_⟩
  have hstep := step_start_cons hstatus hi hdst v vs
  refine ⟨m'.memory.set i v, (Memory.stored_iff hdst.2).2 rfl, hstep, fun budget ↦ ?_⟩
  have hrunning : (m'.start ⟨v :: vs⟩).status = .running := status_start (by simp [hstatus]) _
  simp only [run, drive, hrunning, if_true, hstep]

/-- A machine that waits is asked to go on in all ways without being given anything. The input that
it is given then is stored in the cell that it has waited to fill. -/
theorem waiting_is_stable_of_pausing :
    (pausing.after [.run 9 .empty, .step]).after [.step, .run 3 .empty, .takeQueue, .run 1 .empty] =
      pausing.after [.run 9 .empty, .step] ∧
    ∃ m₀ dst i, pausing.PausedFrom [.run 9 .empty, .step] m₀ ∧ m₀.Stands (.input dst) ∧
      m₀.HasIndex dst i ∧
      ∃ memory, (pausing.after [.run 9 .empty, .step]).memory.Stored i 4 memory := by
  have hload : load #[104, 7, 3, 0, 99] pausing.config = .ok pausing := by rfl
  obtain ⟨hidle, m₀, dst, i, hpaused, -, hi, hdst, hstore⟩ :=
    waiting_is_stable hload [.run 9 .empty, .step] (by rfl)
  have hrequests : ∀ request ∈ [.step, .run 3 .empty, .takeQueue, .run 1 .empty],
      Request.Idle request := by
    simp only [List.mem_cons, List.not_mem_nil, or_false]
    rintro request (rfl | rfl | rfl | rfl)
    · trivial
    · exact ⟨by decide, rfl⟩
    · trivial
    · exact ⟨by decide, rfl⟩
  obtain ⟨memory, hstored, -⟩ := hstore 4 []
  exact ⟨(hidle _ hrequests).1, m₀, dst, i, hpaused, hi, hdst, memory, hstored⟩

end Machine

end Intcode
