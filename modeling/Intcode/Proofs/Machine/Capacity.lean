import Intcode.Proofs.Machine.Invariant

/-!
# Capacity

How much memory a machine has matters only for the addresses that are outside of it. A machine with
more memory does the same as one with less, for as long as the one with less does not fail at an
address; and all that it has more is zeros at the end of memory.

The larger machine is a function of the smaller one, `Machine.enlarged`, so what is to be shown of a
step, a run or a history is one equation each. What can be looked up in the smaller memory is found
in the larger one too, so each row of the instruction table is kept. The rows that are not are those
of an address outside of memory.
-/

namespace Intcode

/-- Memory with more cells at its end, all zero. -/
def Memory.pad (memory : Memory) (extra : Nat) : Memory :=
  ⟨memory.cells ++ Array.replicate extra 0⟩

/-- Two configurations pause at the same occasions. -/
structure Config.SamePauses (config config' : Config) : Prop where
  output : config'.pauseOnOutput = config.pauseOnOutput
  input : config'.pauseOnInput = config.pauseOnInput

/-- The cause is an address outside of memory. -/
def Cause.OutOfRange : Cause → Prop
  | .addressOutOfRange _ => True
  | _ => False

/-- The machine has failed at an address outside of memory. -/
def Reply.OutOfRange : Reply → Prop
  | .status (.error f) => f.cause.OutOfRange
  | .signal (.error f) => f.cause.OutOfRange
  | _ => False

/-- The request leaves the program that has been loaded. -/
def Request.KeepsProgram : Request → Prop
  | .reload _ => False
  | .run .. | .step | .takeQueue => True

/-! ## Larger memory -/

namespace Memory

variable {memory memory' : Memory} {i extra : Nat} {v : Cell}

@[simp] theorem capacity_pad : (memory.pad extra).capacity = memory.capacity + extra := by
  simp [pad, capacity]

theorem getElem?_pad (h : memory.cells[i]? = some v) : (memory.pad extra).cells[i]? = some v :=
  getElem?_append_of_eq_some h _

/-- A cell that is only there in the larger memory is zero, which is also what is said of a cell
that is not there. -/
theorem getD_getElem?_pad : (memory.pad extra).cells[i]?.getD 0 = memory.cells[i]?.getD 0 := by
  cases h : memory.cells[i]? with
  | some v => rw [getElem?_pad h]
  | none =>
      have hle : memory.cells.size ≤ i := Array.getElem?_eq_none_iff.1 h
      rw [pad, Array.getElem?_append_right hle, Array.getElem?_replicate]
      split <;> rfl

theorem pad_set (h : i < memory.capacity) :
    (memory.pad extra).set i v = (memory.set i v).pad extra := by
  have hlt : i < memory.cells.size := h
  simp only [pad, set, Array.setIfInBounds_append_left hlt]

theorem Stored.pad (h : memory.Stored i v memory') (hi : i < memory.capacity) :
    (memory.pad extra).Stored i v (memory'.pad extra) := by
  obtain rfl := (stored_iff hi).1 h
  refine (stored_iff ?_).2 (pad_set hi).symm
  rw [capacity_pad]
  exact Nat.lt_add_right extra hi

/-- A program that fits into a memory fits into a larger one, and is followed by more zeros. -/
theorem load?_of_capacity_le {program : Array Cell} {loaded : Memory}
    (hle : memory.capacity ≤ memory'.capacity)
    (h : memory.load? program = some loaded) :
    memory'.load? program = some (loaded.pad (memory'.capacity - memory.capacity)) := by
  unfold load? at h ⊢
  split at h
  · rename_i hfits
    cases h
    rw [if_pos (Nat.le_trans hfits hle), pad, Array.append_assoc, Array.replicate_append_replicate]
    congr 4
    omega
  · cases h

end Memory

namespace Machine

/-- The machine with more cells of memory, all zero, and with the options that go with them. -/
def enlarged (config : Config) (extra : Nat) (m : Machine) : Machine :=
  { m with memory := m.memory.pad extra, config := config }

variable {config : Config} {extra : Nat} {m m' : Machine} {signal : Signal}

/-! ## One step -/

theorem Stands.enlarged {i : Fetched} (h : m.Stands i) : (m.enlarged config extra).Stands i :=
  Fetched.StandsAt.append h _

theorem Denotes.enlarged {a : Cell} {i : Nat} (h : m.Denotes a i) :
    (m.enlarged config extra).Denotes a i := by
  refine ⟨h.1, ?_⟩
  show i < (m.memory.pad extra).capacity
  rw [Memory.capacity_pad]
  exact Nat.lt_add_right extra h.2

theorem effective_enlarged : (m.enlarged config extra).effective = m.effective := by
  funext addressing p
  cases addressing <;> rfl

theorem HasValue.enlarged {o : Operand} {v : Cell} (h : m.HasValue o v) :
    (m.enlarged config extra).HasValue o v := by
  obtain ⟨_ | addressing, p⟩ := o
  · exact h
  · obtain ⟨i, hi, hv⟩ := h
    rw [HasValue, effective_enlarged]
    exact ⟨i, hi.enlarged, Memory.getElem?_pad hv⟩

theorem HasIndex.enlarged {t : Target} {i : Nat} (h : m.HasIndex t i) :
    (m.enlarged config extra).HasIndex t i := by
  rw [HasIndex, effective_enlarged]
  exact Denotes.enlarged h

theorem Executes.enlarged (h : m.Executes signal m') (hpauses : m.config.SamePauses config) :
    (m.enlarged config extra).Executes signal (m'.enlarged config extra) := by
  cases h with
  | binary hi ha hb hd hs =>
      exact .binary (Stands.enlarged hi) ha.enlarged hb.enlarged hd.enlarged (hs.pad hd.2)
  | input hi hd hq hs => exact .input (Stands.enlarged hi) hd.enlarged hq (hs.pad hd.2)
  | await hi hd hq hwaits =>
      exact .await (Stands.enlarged hi) hd.enlarged hq (hpauses.input.trans hwaits)
  | @output a x hi ha =>
      have hx : (m.enlarged config extra).Executes (.output x) _ :=
        .output (Stands.enlarged hi) ha.enlarged
      have hwaits : (m.enlarged config extra).config.pauseOnOutput = m.config.pauseOnOutput :=
        hpauses.output
      rw [hwaits] at hx
      exact hx
  | jump hi ha ht hc hk =>
      exact .jump (Stands.enlarged hi) ha.enlarged ht.enlarged hc hk.enlarged
  | pass hi ha ht hc => exact .pass (Stands.enlarged hi) ha.enlarged ht.enlarged hc
  | adjustBase hi ha => exact .adjustBase (Stands.enlarged hi) ha.enlarged
  | halt hi => exact .halt (Stands.enlarged hi)

theorem Refuses.enlarged {cause : Cause} (h : m.Refuses cause)
    (hpauses : m.config.SamePauses config) (hcause : ¬ cause.OutOfRange) :
    (m.enlarged config extra).Refuses cause := by
  cases h with
  | undecoded hc hd => exact .undecoded (Memory.getElem?_pad hc) hd
  | exhausted hi hd hq hp =>
      exact .exhausted (Stands.enlarged hi) hd.enlarged hq (hpauses.input.trans hp)
  | pastEnd => exact absurd trivial hcause
  | cutOff => exact absurd trivial hcause
  | outside => exact absurd trivial hcause
  | astray => exact absurd trivial hcause

theorem fault_enlarged (cause : Cause) : (m.enlarged config extra).fault cause = m.fault cause := by
  have hopcode :
      (m.memory.pad extra).cells[m.pointer]?.getD 0 = m.memory.cells[m.pointer]?.getD 0 :=
    Memory.getD_getElem?_pad
  exact congrArg (Fault.mk cause m.pointer) hopcode

/-- A step of the larger machine, unless the smaller one fails at an address. -/
theorem step_enlarged (hpauses : m.config.SamePauses config)
    (h : ∀ f, m.step.1 = .error f → ¬ f.cause.OutOfRange) :
    (m.enlarged config extra).step = (m.step.1, m.step.2.enlarged config extra) := by
  by_cases hhalted : m.status = .halted
  · have hhalted' : (m.enlarged config extra).status = .halted := hhalted
    rw [step_of_halted hhalted, step_of_halted hhalted']
  · have hrunning : (m.enlarged config extra).status ≠ .halted := hhalted
    cases hs : m.step with
    | mk r m' =>
        cases r with
        | ok signal =>
            have hx : m.Executes signal m' := (step_eq_ok_iff hhalted).1 hs
            exact (step_eq_ok_iff hrunning).2 (hx.enlarged hpauses)
        | error f =>
            obtain ⟨hr, hf, rfl⟩ := (step_eq_error_iff hhalted).1 hs
            have hcause : ¬ f.cause.OutOfRange := h f (by rw [hs])
            refine (step_eq_error_iff hrunning).2 ⟨hr.enlarged hpauses hcause, ?_, rfl⟩
            rw [fault_enlarged]
            exact hf

/-! ## Runs and histories -/

theorem drive_enlarged {budget : Nat} (hpauses : m.config.SamePauses config)
    (h : ∀ f, (drive budget m).1 = .error f → ¬ f.cause.OutOfRange) :
    drive budget (m.enlarged config extra) =
      ((drive budget m).1, (drive budget m).2.enlarged config extra) := by
  induction budget generalizing m with
  | zero => rfl
  | succ budget ih =>
      by_cases hrunning : m.status = .running
      · have hrunning' : (m.enlarged config extra).status = .running := hrunning
        simp only [drive, hrunning, if_true] at h
        simp only [drive, hrunning, hrunning', if_true]
        cases hs : m.step with
        | mk r m₁ =>
            rw [hs] at h
            have hconfig : m₁.config = m.config := by simpa [hs] using config_step m
            cases r with
            | ok signal =>
                rw [step_enlarged hpauses (by simp [hs]), hs]
                exact ih (hconfig ▸ hpauses) h
            | error f =>
                have hcause : ∀ f', m.step.1 = .error f' → ¬ f'.cause.OutOfRange := by
                  intro f' hf'
                  rw [hs] at hf'
                  cases hf'
                  exact h f rfl
                rw [step_enlarged hpauses hcause, hs]
      · have hrunning' : (m.enlarged config extra).status ≠ .running := hrunning
        rw [drive_of_not_running _ hrunning, drive_of_not_running _ hrunning']
        rfl

theorem start_enlarged (queue : Queue) :
    (m.enlarged config extra).start queue = (m.start queue).enlarged config extra := by
  by_cases h : m.status = .halted
  · have h' : (m.enlarged config extra).status = .halted := h
    simp only [start, h, h', if_true]
  · have h' : (m.enlarged config extra).status ≠ .halted := h
    simp only [start, h, h', if_false]
    rfl

theorem serve_enlarged {request : Request} (hpauses : m.config.SamePauses config)
    (hkeeps : request.KeepsProgram) (h : ¬ (m.serve request).1.OutOfRange) :
    (m.enlarged config extra).serve request =
      ((m.serve request).1, (m.serve request).2.enlarged config extra) := by
  cases request with
  | run budget queue =>
      have hconfig : (m.start queue).config = m.config := config_start queue
      have hcause : ∀ f, (drive budget (m.start queue)).1 = .error f → ¬ f.cause.OutOfRange := by
        intro f hf
        simp only [serve, run, hf] at h
        exact h
      simp only [serve, run, start_enlarged, drive_enlarged (hconfig ▸ hpauses) hcause]
  | step =>
      have hcause : ∀ f, m.step.1 = .error f → ¬ f.cause.OutOfRange := by
        intro f hf
        simp only [serve, hf] at h
        exact h
      simp only [serve, step_enlarged hpauses hcause]
  | reload => exact hkeeps.elim
  | takeQueue => rfl

theorem after_enlarged {requests : List Request} (hpauses : m.config.SamePauses config)
    (hkeeps : ∀ request ∈ requests, request.KeepsProgram)
    (h : ∀ reply ∈ m.replies requests, ¬ reply.OutOfRange) :
    (m.enlarged config extra).replies requests = m.replies requests ∧
      (m.enlarged config extra).after requests = (m.after requests).enlarged config extra := by
  induction requests generalizing m with
  | nil => exact ⟨rfl, rfl⟩
  | cons request requests ih =>
      have hserve : (m.enlarged config extra).serve request = _ :=
        serve_enlarged hpauses (hkeeps request List.mem_cons_self) (h _ List.mem_cons_self)
      have hconfig : (m.serve request).2.config = m.config := config_serve m request
      obtain ⟨hreplies, hafter⟩ := ih (hconfig ▸ hpauses)
        (fun q hq ↦ hkeeps q (List.mem_cons_of_mem _ hq))
        (fun reply hreply ↦ h reply (List.mem_cons_of_mem _ hreply))
      simp only [replies, after, hserve, hreplies, hafter, true_and]

/-- Two machines that differ in the size of memory are asked the same. As long as the smaller one
does not fail at an address outside of its memory, they give the same answers, and the larger one is
the smaller one with more zeros at the end of memory. -/
theorem capacity_matters_only_to_addresses {program : Array Cell} {config config' : Config}
    {m : Machine} (hm : load program config = .ok m) (hle : config.capacity ≤ config'.capacity)
    (hpauses : config.SamePauses config') (requests : List Request)
    (hkeeps : ∀ request ∈ requests, request.KeepsProgram)
    (hinside : ∀ reply ∈ m.replies requests, ¬ reply.OutOfRange) :
    ∃ m', load program config' = .ok m' ∧ m'.replies requests = m.replies requests ∧
      m'.after requests =
        { m.after requests with
          memory := ⟨(m.after requests).memory.cells ++
            Array.replicate (config'.capacity - config.capacity) 0⟩
          config := config' } := by
  obtain ⟨memory, hmemory, rfl⟩ := load_eq_ok_iff.1 hm
  have hblank : (Memory.blank config.capacity).capacity ≤ (Memory.blank config'.capacity).capacity := by
    simpa using hle
  have hlarger := Memory.load?_of_capacity_le hblank (place_eq_ok_iff.1 hmemory)
  simp only [Memory.capacity_blank] at hlarger
  exact ⟨_, load_eq_ok_iff.2 ⟨_, place_eq_ok_iff.2 hlarger, rfl⟩, after_enlarged hpauses hkeeps hinside⟩

/-- The options of a machine that pauses after an output. -/
def slow (capacity : Nat) : Config := { capacity := capacity, pauseOnOutput := true }

/-- A program that reads a value into the last of six cells and puts it out. -/
def echo : Array Cell := #[3, 5, 4, 5, 99]

/-- Six cells are enough for the program, and two more make no difference. -/
theorem capacity_matters_only_to_addresses_of_echo :
    ∃ m m', load echo (slow 6) = .ok m ∧ load echo (slow 8) = .ok m' ∧
      m'.replies [.run 9 ⟨[4, 7]⟩, .takeQueue, .run 9 .empty] =
        [.status (.ok (.paused .output)), .queue ⟨[7]⟩, .status (.ok .halted)] ∧
      (m'.after [.run 9 ⟨[4, 7]⟩, .takeQueue, .run 9 .empty]).memory =
        ⟨#[3, 5, 4, 5, 99, 4] ++ Array.replicate 2 0⟩ := by
  have hm : load echo (slow 6) = .ok (fresh (slow 6) ⟨#[3, 5, 4, 5, 99, 0]⟩) := by rfl
  have hreplies : (fresh (slow 6) ⟨#[3, 5, 4, 5, 99, 0]⟩).replies
      [.run 9 ⟨[4, 7]⟩, .takeQueue, .run 9 .empty] =
        [.status (.ok (.paused .output)), .queue ⟨[7]⟩, .status (.ok .halted)] := by rfl
  have hle : (slow 6).capacity ≤ (slow 8).capacity := by decide
  obtain ⟨m', hm', hsame, hafter⟩ := capacity_matters_only_to_addresses hm hle ⟨rfl, rfl⟩
    [.run 9 ⟨[4, 7]⟩, .takeQueue, .run 9 .empty]
    (by simp [Request.KeepsProgram]) (by simp [hreplies, Reply.OutOfRange])
  refine ⟨_, m', hm, hm', hsame.trans hreplies, ?_⟩
  rw [hafter]
  rfl

end Machine

end Intcode
