import Intcode.Proofs.Machine.Requests
import Intcode.Proofs.Machine.Runs
import Intcode.Proofs.Machine.Table

/-!
# Reachable machines

What is true of a machine at all times after it has been loaded, whatever is asked of it and in
whatever order. Most of it is about pauses: a machine that waits for input stands before an input
that it could carry out, and a machine that has paused after an output can still tell which one.
-/

namespace Intcode.Machine

/-- What is known of a machine by the way in which it has paused. -/
def Rests (m : Machine) : Pause → Prop
  | .input =>
    m.config.pauseOnInput = true ∧ m.queue.values = [] ∧
      ∃ dst i, m.fetch = .ok (.input dst) ∧
        m.locate (m.address dst.addressing dst.parameter) = .ok i
  | .output =>
    m.config.pauseOnOutput = true ∧ 2 ≤ m.pointer ∧
      ∃ a x, Fetched.fetch m.memory.cells (m.pointer - 2) = .ok (.output a) ∧ m.value a = .ok x ∧
        m.lastOutput? = some x

/-- The parts of a machine fit together. -/
structure Consistent (m : Machine) : Prop where
  capacity : m.memory.capacity = m.config.capacity
  pointer_le : m.pointer ≤ m.memory.capacity
  rests : ∀ pause, m.status = .paused pause → m.Rests pause

variable {m m' : Machine} {signal : Signal}

/-! ## One instruction -/

theorem Stands.add_width_le {i : Fetched} (h : m.Stands i) :
    m.pointer + i.width ≤ m.memory.capacity := Fetched.StandsAt.add_width_le h

theorem Executes.pointer_le (h : m.Executes signal m') : m'.pointer ≤ m.memory.capacity := by
  cases h with
  | binary hi => exact Stands.add_width_le hi
  | input hi => exact Stands.add_width_le hi
  | await hi => exact Nat.le_of_add_right_le (Stands.add_width_le hi)
  | output hi => exact Stands.add_width_le hi
  | jump _ _ _ _ hinside => exact Nat.le_of_lt hinside.2
  | pass hi => exact Stands.add_width_le hi
  | adjustBase hi => exact Stands.add_width_le hi
  | halt hi => exact Stands.add_width_le hi

/-- Only an input can pause before itself, and only an output after itself. -/
theorem Executes.rests {pause : Pause} (h : m.Executes signal m')
    (hp : m'.status = .paused pause) : m'.Rests pause := by
  cases h with
  | binary => cases hp
  | input => cases hp
  | @await dst i hi hdst hq hwaits =>
      cases hp
      have hlocate : m.locate (m.address dst.addressing dst.parameter) = .ok i := by
        rw [address_eq_effective]
        exact locate_eq_ok_iff.2 hdst
      exact ⟨hwaits, hq, dst, i, fetch_eq_ok_iff.2 hi, hlocate⟩
  | @output a x hi ha =>
      cases hwaits : m.config.pauseOnOutput with
      | false => simp [hwaits] at hp
      | true =>
          simp only [hwaits, if_true, Status.paused.injEq] at hp
          subst hp
          refine ⟨hwaits, Nat.le_add_left 2 m.pointer, a, x, ?_, ?_, Array.back?_push⟩
          · exact Fetched.fetch_eq_ok_iff.2 hi
          · exact value_eq_ok_iff.2 ha
  | jump => cases hp
  | pass => cases hp
  | adjustBase => cases hp
  | halt => cases hp

theorem Consistent.of_executes (h : m.Consistent) (hs : m.step = (.ok signal, m'))
    (hx : m.Executes signal m') : m'.Consistent := by
  have hconfig : m'.config = m.config := by simpa [hs] using config_step m
  have hcapacity : m'.memory.capacity = m.memory.capacity := by simpa [hs] using capacity_step m
  refine ⟨?_, ?_, fun pause ↦ hx.rests⟩
  · rw [hcapacity, hconfig]
    exact h.capacity
  · rw [hcapacity]
    exact hx.pointer_le

/-! ## Loading -/

theorem place_eq_ok_iff {memory memory' : Memory} {program : Array Cell} :
    place memory program = .ok memory' ↔ memory.load? program = some memory' := by
  unfold place
  cases memory.load? program <;> simp

theorem consistent_fresh {config : Config} {memory memory' : Memory} {program : Array Cell}
    (h : place memory program = .ok memory') (hcapacity : memory.capacity = config.capacity) :
    (fresh config memory').Consistent := by
  refine ⟨?_, Nat.zero_le _, nofun⟩
  show memory'.capacity = config.capacity
  rw [Memory.capacity_load? (place_eq_ok_iff.1 h), hcapacity]

theorem reload_eq_ok_iff {program : Array Cell} :
    m.reload program = .ok m' ↔
      ∃ memory, place m.memory program = .ok memory ∧ fresh m.config memory = m' := by
  unfold reload
  cases place m.memory program <;> simp [Except.map]

theorem load_eq_ok_iff {program : Array Cell} {config : Config} :
    load program config = .ok m ↔
      ∃ memory, place (.blank config.capacity) program = .ok memory ∧ fresh config memory = m := by
  unfold load
  cases place (.blank config.capacity) program <;> simp [Except.map]

/-! ## One request -/

/-- A machine that has not paused is consistent if its size and its pointer are right. -/
theorem Consistent.of_not_paused (h : m.Consistent) (hconfig : m'.config = m.config)
    (hmemory : m'.memory = m.memory) (hpointer : m'.pointer = m.pointer)
    (hstatus : ∀ pause, m'.status ≠ .paused pause) : m'.Consistent := by
  refine ⟨?_, ?_, fun pause hp ↦ absurd hp (hstatus pause)⟩
  · rw [hmemory, hconfig]
    exact h.capacity
  · rw [hmemory, hpointer]
    exact h.pointer_le

theorem Consistent.step (h : m.Consistent) : m.step.2.Consistent := by
  by_cases hhalted : m.status = .halted
  · rw [step_of_halted hhalted]
    exact h
  · cases hs : m.step with
    | mk r m' =>
        cases r with
        | ok signal => exact h.of_executes hs ((step_eq_ok_iff hhalted).1 hs)
        | error f =>
            obtain ⟨-, rfl⟩ := eq_of_step_eq_error hs
            exact h.of_not_paused rfl rfl rfl nofun

theorem Consistent.start (h : m.Consistent) (queue : Queue) : (m.start queue).Consistent := by
  unfold Machine.start
  split
  · exact h
  · exact h.of_not_paused rfl rfl rfl nofun

theorem config_serve (m : Machine) (request : Request) : (m.serve request).2.config = m.config := by
  cases request with
  | run budget queue =>
      have hdrive : ∀ m₁ : Machine, m₁.config = m.config → m₁.step.2.config = m.config :=
        fun m₁ h ↦ (config_step m₁).trans h
      exact drive_invariant hdrive budget (config_start queue)
  | step => exact config_step m
  | reload program =>
      simp only [serve]
      split
      · rename_i hm
        obtain ⟨memory, -, rfl⟩ := reload_eq_ok_iff.1 hm
        rfl
      · rfl
  | takeQueue => rfl

theorem Consistent.serve (h : m.Consistent) (request : Request) :
    (m.serve request).2.Consistent := by
  cases request with
  | run budget queue => exact drive_invariant (fun _ ↦ Consistent.step) budget (h.start queue)
  | step => exact h.step
  | reload program =>
      simp only [Machine.serve]
      split
      · rename_i hm
        obtain ⟨memory, hmemory, rfl⟩ := reload_eq_ok_iff.1 hm
        exact consistent_fresh hmemory h.capacity
      · exact h
  | takeQueue =>
      refine ⟨h.capacity, h.pointer_le, fun pause hp ↦ ?_⟩
      cases pause with
      | input =>
          obtain ⟨hwaits, -, hi⟩ := h.rests .input hp
          exact ⟨hwaits, rfl, hi⟩
      | output => exact h.rests .output hp

/-! ## All histories -/

theorem consistent_after {program : Array Cell} {config : Config}
    (h : load program config = .ok m) (requests : List Request) :
    (m.after requests).config = config ∧ (m.after requests).Consistent := by
  obtain ⟨memory, hmemory, rfl⟩ := load_eq_ok_iff.1 h
  constructor
  · exact after_invariant (P := fun m ↦ m.config = config)
      (fun m request h ↦ (config_serve m request).trans h) requests rfl
  · exact after_invariant (fun _ request h ↦ h.serve request) requests
      (consistent_fresh hmemory (Memory.capacity_blank _))

/-- Whatever is asked of a machine from its loading on, it keeps its options and its size, and its
pointer is inside of memory or right after it. It waits for input only if it may, with nothing to
read and before an input that it could carry out; and any other pause is one that it may make after
an output, which it could still carry out with the same result. -/
theorem reachable_invariant {program : Array Cell} {config : Config}
    (h : load program config = .ok m) (requests : List Request) :
    let m' := m.after requests
    m'.config = config ∧ m'.memory.cells.size = config.capacity ∧
    m'.pointer ≤ config.capacity ∧
    (m'.awaitingInput = true → m'.status = .paused .input ∧ m'.Rests .input) ∧
    (∀ pause, m'.status = .paused pause → m'.awaitingInput = false → m'.Rests .output) ∧
    (config.pauseOnOutput = false → config.pauseOnInput = false →
      ∀ pause, m'.status ≠ .paused pause) := by
  intro m'
  obtain ⟨hconfig, hm⟩ : m'.config = config ∧ m'.Consistent := consistent_after h requests
  have hcapacity : m'.memory.cells.size = config.capacity := by
    rw [← hconfig]
    exact hm.capacity
  refine ⟨hconfig, hcapacity, ?_, ?_, ?_, ?_⟩
  · rw [← hcapacity]
    exact hm.pointer_le
  · intro hawaiting
    have hstatus : m'.status = .paused .input := of_decide_eq_true hawaiting
    exact ⟨hstatus, hm.rests .input hstatus⟩
  · intro pause hstatus hawaiting
    cases pause with
    | input => exact absurd hstatus (of_decide_eq_false hawaiting)
    | output => exact hm.rests .output hstatus
  · intro houtput hinput pause hstatus
    have hrests := hm.rests pause hstatus
    cases pause with
    | input =>
        have hwaits : config.pauseOnInput = true := hconfig ▸ hrests.1
        rw [hinput] at hwaits
        cases hwaits
    | output =>
        have hwaits : config.pauseOnOutput = true := hconfig ▸ hrests.1
        rw [houtput] at hwaits
        cases hwaits

/-- A machine that will put out a value and then read one, and that may pause for both. -/
def pausing : Machine :=
  fresh { capacity := 5, pauseOnOutput := true, pauseOnInput := true } ⟨#[104, 7, 3, 0, 99]⟩

/-- The machine rests in both ways, also after requests that do not get it any further. -/
theorem reachable_invariant_of_pausing :
    load #[104, 7, 3, 0, 99] pausing.config = .ok pausing ∧
    (pausing.after [.run 9 ⟨[4]⟩, .takeQueue]).Rests .output ∧
    (pausing.after [.run 9 ⟨[4]⟩, .run 9 .empty, .reload (Array.replicate 6 0)]).Rests .input := by
  have hload : load #[104, 7, 3, 0, 99] pausing.config = .ok pausing := by rfl
  obtain ⟨-, -, -, -, houtput, -⟩ := reachable_invariant hload [.run 9 ⟨[4]⟩, .takeQueue]
  obtain ⟨-, -, -, hinput, -⟩ :=
    reachable_invariant hload [.run 9 ⟨[4]⟩, .run 9 .empty, .reload (Array.replicate 6 0)]
  exact ⟨hload, houtput .output (by rfl) (by rfl), (hinput (by rfl)).2⟩

end Intcode.Machine
