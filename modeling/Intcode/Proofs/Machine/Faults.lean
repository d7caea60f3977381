import Intcode.Proofs.Machine.Requests
import Intcode.Proofs.Machine.Runs
import Intcode.Proofs.Machine.Table

/-!
# Faults

A fault is atomic and final. A step works in place and takes nothing back, and still one that fails
leaves all but the status as it was. So a run that fails ends where its last successful step had
brought it; and a machine that has halted answers so to whatever is asked of it, and does not
change, until another program is loaded.
-/

namespace Intcode

/-- The request does not concern a machine that has halted: it would have the machine go on, or load
a program for which there is no room. -/
def Request.Futile (m : Machine) : Request → Prop
  | .run .. | .step => True
  | .reload program => m.memory.capacity < program.size
  | .takeQueue => False

/-- The machine says that it has halted, or that a program does not fit. -/
def Reply.Declines : Reply → Prop
  | .status result => result = .ok .halted
  | .signal result => result = .ok .halted
  | .loaded result => ∃ f, result = .error f
  | .queue _ => False

namespace Machine

variable {m : Machine}

/-! ## Finality -/

theorem reload_of_lt {program : Array Cell} (h : m.memory.capacity < program.size) :
    ∃ f, m.reload program = .error f := by
  have hload : m.memory.load? program = none := by simp [Memory.load?, Nat.not_le_of_lt h]
  simp only [reload, place, hload]
  exact ⟨_, rfl⟩

theorem serve_of_halted {request : Request} (h : m.status = .halted) (hr : request.Futile m) :
    (m.serve request).2 = m ∧ (m.serve request).1.Declines := by
  cases request with
  | run budget queue =>
      have hs : m.serve (.run budget queue) = (.status (.ok .halted), m) := by
        rw [serve, run_of_halted budget queue h]
      rw [hs]
      exact ⟨rfl, rfl⟩
  | step =>
      have hs : m.serve .step = (.signal (.ok .halted), m) := by rw [serve, step_of_halted h]
      rw [hs]
      exact ⟨rfl, rfl⟩
  | reload program =>
      obtain ⟨f, hf⟩ := reload_of_lt hr
      rw [serve_reload_of_eq_error hf]
      exact ⟨rfl, f, rfl⟩
  | takeQueue => exact hr.elim

theorem after_of_halted {requests : List Request} (h : m.status = .halted)
    (hr : ∀ request ∈ requests, request.Futile m) :
    m.after requests = m ∧ ∀ reply ∈ m.replies requests, reply.Declines := by
  induction requests with
  | nil => exact ⟨rfl, nofun⟩
  | cons request requests ih =>
      obtain ⟨hm, hreply⟩ := serve_of_halted h (hr request List.mem_cons_self)
      obtain ⟨hafter, hreplies⟩ := ih fun q hq ↦ hr q (List.mem_cons_of_mem _ hq)
      simp only [after, replies, hm, List.mem_cons]
      refine ⟨hafter, ?_⟩
      rintro reply (rfl | hmem)
      · exact hreply
      · exact hreplies reply hmem

/-- A step that fails changes nothing but the status, and tells where it failed. So a run that fails
ends in the state to which its successful steps have led, with the status changed. From then on all
further requests are declined and leave the machine alone. -/
theorem faults_atomic_and_final (m : Machine) :
    (∀ f m', m.step = (.error f, m') →
      m' = { m with status := .halted } ∧ m'.awaitingInput = false ∧ f.pointer = m.pointer ∧
        f.opcode = m.memory.cells[m.pointer]?.getD 0) ∧
    (∀ queue f m', m.Returns queue (.error f) m' →
      ∃ signals m₁, Trace (m.start queue) signals m₁ ∧ m₁.step = (.error f, m') ∧
        m' = { m₁ with status := .halted }) ∧
    (m.status = .halted → ∀ requests : List Request, (∀ request ∈ requests, request.Futile m) →
      m.after requests = m ∧ ∀ reply ∈ m.replies requests, reply.Declines) := by
  refine ⟨?_, ?_, fun h requests ↦ after_of_halted h⟩
  · intro f m' h
    obtain ⟨hf, rfl⟩ := eq_of_step_eq_error h
    exact ⟨rfl, rfl, congrArg Fault.pointer hf, congrArg Fault.opcode hf⟩
  · intro queue f m' h
    obtain ⟨signals, m₁, htrace, -, hlast⟩ := (returns_iff_ends.1 h).exists_trace_of_error
    exact ⟨signals, m₁, htrace, hlast, (eq_of_step_eq_error hlast).2⟩

/-- A machine that will read two values. -/
def reading : Machine := fresh { capacity := 7 } ⟨#[3, 5, 3, 6, 99, 0, 0]⟩

/-- The machine that has read the first value, and that halts for want of a second. -/
def halfRead (status : Status) : Machine :=
  { reading with memory := ⟨#[3, 5, 3, 6, 99, 8, 0]⟩, pointer := 2, status := status }

/-- What was stored before a fault stays, and nothing is read or loaded after it. -/
theorem faults_atomic_and_final_of_reading :
    (∃ f signals m, Trace (reading.start ⟨[8]⟩) signals m ∧ m.step = (.error f, halfRead .halted)) ∧
    (halfRead .halted).awaitingInput = false ∧
    (halfRead .halted).after [.run 3 ⟨[1]⟩, .step, .reload (Array.replicate 8 0)] =
      halfRead .halted := by
  have hreturns : reading.Returns ⟨[8]⟩ (.error ⟨.inputExhausted, 2, 3⟩) (halfRead .halted) :=
    ⟨2, by rfl, nofun⟩
  have hfault : (halfRead .running).step = (.error ⟨.inputExhausted, 2, 3⟩, halfRead .halted) := by
    rfl
  have hfutile : ∀ request ∈ [.run 3 ⟨[1]⟩, .step, .reload (Array.replicate 8 0)],
      Request.Futile (halfRead .halted) request := by
    simp only [List.mem_cons, List.not_mem_nil, or_false]
    rintro request (rfl | rfl | rfl)
    · trivial
    · trivial
    · show 7 < (Array.replicate 8 (0 : Cell)).size
      simp
  obtain ⟨signals, m, htrace, hlast, -⟩ := (faults_atomic_and_final reading).2.1 _ _ _ hreturns
  obtain ⟨-, hawaiting, -⟩ := (faults_atomic_and_final (halfRead .running)).1 _ _ hfault
  obtain ⟨hafter, -⟩ := (faults_atomic_and_final (halfRead .halted)).2.2 rfl _ hfutile
  exact ⟨⟨_, signals, m, htrace, hlast⟩, hawaiting, hafter⟩

end Machine

end Intcode
