import Intcode.Proofs.Machine.Invariant

/-!
# Pauses after an output

A machine that pauses after every output hands its values over one at a time. Each run puts out one
value and pauses right after it, or it ends in another way and puts out none; so there are as many
values as there have been such pauses. A machine without this option pauses for input only.
-/

namespace Intcode.Machine

/-- The machine `m` puts out `x` and pauses. The machine `m'` that is left stands right after the
output instruction. -/
def PausesAfter (m : Machine) (x : Cell) (m' : Machine) : Prop :=
  m.config.pauseOnOutput = true ∧ ∃ a : Operand, m.Stands (.output a) ∧ m.HasValue a x ∧
    m' =
      { m with
        output := m.output.push x
        pointer := m.pointer + (Instruction.output a : Fetched).width
        status := .paused .output }

/-- A run with this result has paused after an output. -/
def isOutputPause : Except Fault Status → Bool
  | .ok (.paused .output) => true
  | _ => false

/-- The machine is run on one queue after the other, and each run returns. -/
inductive Rounds : Machine → List (Except Fault Status) → Machine → Prop
  | nil {m : Machine} : Rounds m [] m
  | cons {m m₁ m' : Machine} {queue : Queue} {r : Except Fault Status}
      {results : List (Except Fault Status)} (returns : m.Returns queue r m₁)
      (rest : Rounds m₁ results m') : Rounds m (r :: results) m'

/-- The machine has just been given a program: it is new, or it has been reloaded. -/
def Loaded (m : Machine) : Prop :=
  ∃ program, (∃ config, load program config = .ok m) ∨ ∃ before, reload before program = .ok m

variable {m m₁ m' : Machine} {signal : Signal} {signals : List Signal} {x : Cell} {queue : Queue}
  {r : Except Fault Status} {results : List (Except Fault Status)}

/-! ## One instruction -/

theorem Executes.exists_pausesAfter (h : m.Executes signal m')
    (hpaused : m'.status = .paused .output) : ∃ x, m.PausesAfter x m' := by
  cases h with
  | @output a x hi ha =>
      cases hwaits : m.config.pauseOnOutput with
      | false => simp [hwaits] at hpaused
      | true => exact ⟨x, hwaits, a, hi, ha, by simp; rfl⟩
  | _ => cases hpaused

/-- If the machine may pause after outputs, an instruction after which it has not done so has put
out nothing. -/
theorem Executes.output_eq (h : m.Executes signal m') (hwaits : m.config.pauseOnOutput = true)
    (hpaused : m'.status ≠ .paused .output) : m'.output = m.output := by
  cases h with
  | output => exact absurd (by simp [hwaits]) hpaused
  | _ => rfl

/-! ## One run -/

/-- A machine that is still running has not put out anything. -/
theorem Trace.output_eq (h : Trace m signals m') (hwaits : m.config.pauseOnOutput = true)
    (hm' : m'.status = .running) : m'.output = m.output := by
  induction h with
  | nil => rfl
  | @cons m m₁ m' signal signals hrunning hs hrest ih =>
      have hx : m.Executes signal m₁ := (step_eq_ok_iff (by simp [hrunning])).1 hs
      have hwaits₁ : m₁.config.pauseOnOutput = true := by rw [config_of_step hs, hwaits]
      have hgoing : m₁.status = .running := hrest.status_eq_running hm'
      exact (ih hwaits₁ hm').trans (hx.output_eq hwaits (by simp [hgoing]))

/-- A run that pauses after an output does so by its last instruction. -/
theorem Ends.exists_pausesAfter (h : Ends m (.ok (.paused .output)) m')
    (hm : m.status = .running) :
    ∃ signals m₁ x, Trace m signals m₁ ∧ m₁.status = .running ∧ m₁.PausesAfter x m' := by
  obtain ⟨signals, m₁, signal, htrace, hm₁, hs⟩ := h.exists_trace_of_ok hm
  have hx : m₁.Executes signal m' := (step_eq_ok_iff (by simp [hm₁])).1 hs
  obtain ⟨x, hpauses⟩ := hx.exists_pausesAfter h.status_eq
  exact ⟨signals, m₁, x, htrace, hm₁, hpauses⟩

/-- A run that ends in another way has put out nothing, if the machine may pause after outputs. -/
theorem Ends.output_eq (h : Ends m r m') (hwaits : m.config.pauseOnOutput = true)
    (hr : r ≠ .ok (.paused .output)) : m'.output = m.output := by
  induction h with
  | stop => rfl
  | fail _ hs =>
      obtain ⟨-, rfl⟩ := eq_of_step_eq_error hs
      rfl
  | @next m m₁ m' signal r hrunning hs hrest ih =>
      have hx : m.Executes signal m₁ := (step_eq_ok_iff (by simp [hrunning])).1 hs
      have hwaits₁ : m₁.config.pauseOnOutput = true := by rw [config_of_step hs, hwaits]
      have hpaused : m₁.status ≠ .paused .output := by
        intro hpaused
        obtain ⟨rfl, -⟩ := hrest.eq_of_stopped (by simp [hpaused])
        exact hr (congrArg Except.ok hpaused)
      exact (ih hwaits₁ hr).trans (hx.output_eq hwaits hpaused)

/-- A run puts out one value and pauses, or it ends in another way and puts out none. -/
theorem Returns.pauses_or_output_eq (h : m.Returns queue r m') (hm : m.status ≠ .halted)
    (hwaits : m.config.pauseOnOutput = true) :
    (r = .ok (.paused .output) ∧ m'.awaitingInput = false ∧
      ∃ signals m₁ x, Trace (m.start queue) signals m₁ ∧ m₁.PausesAfter x m' ∧
        m'.output = m.output.push x) ∨
    ((r = .ok (.paused .input) ∧ m'.awaitingInput = true ∨ r = .ok .halted ∨ ∃ f, r = .error f) ∧
      m'.output = m.output) := by
  have hends : Ends (m.start queue) r m' := returns_iff_ends.1 h
  have hstart : (m.start queue).config.pauseOnOutput = true := by rw [config_start, hwaits]
  have hsame (hr : r ≠ .ok (.paused .output)) : m'.output = m.output :=
    (hends.output_eq hstart hr).trans (output_start queue)
  rcases r with f | (_ | (_ | _) | _)
  · exact .inr ⟨.inr (.inr ⟨f, rfl⟩), hsame nofun⟩
  · obtain ⟨_, -, hr⟩ := h
    exact absurd rfl hr
  · obtain ⟨signals, m₁, x, htrace, hm₁, hpauses⟩ :=
      hends.exists_pausesAfter (status_start hm queue)
    have hbefore : m₁.output = m.output :=
      (htrace.output_eq hstart hm₁).trans (output_start queue)
    have houtput : m'.output = m.output.push x := by
      obtain ⟨-, _, -, -, rfl⟩ := hpauses
      exact congrArg (·.push x) hbefore
    refine .inl ⟨rfl, ?_, signals, m₁, x, htrace, hpauses, houtput⟩
    simp [awaitingInput, hends.status_eq]
  · refine .inr ⟨.inl ⟨rfl, ?_⟩, hsame nofun⟩
    simp [awaitingInput, hends.status_eq]
  · exact .inr ⟨.inr (.inl rfl), hsame nofun⟩

/-! ## Many runs -/

theorem Returns.output_size (h : m.Returns queue r m') (hwaits : m.config.pauseOnOutput = true) :
    m'.output.size = m.output.size + [r].countP isOutputPause := by
  by_cases hm : m.status = .halted
  · obtain ⟨rfl, rfl⟩ := h.deterministic ⟨0, run_of_halted 0 queue hm, nofun⟩
    rfl
  · obtain ⟨rfl, -, _, _, x, -, -, houtput⟩ | ⟨hr, houtput⟩ := h.pauses_or_output_eq hm hwaits
    · rw [houtput, Array.size_push]
      rfl
    · rw [houtput]
      obtain ⟨rfl, -⟩ | rfl | ⟨f, rfl⟩ := hr <;> rfl

/-- Each pause after an output accounts for one value. -/
theorem Rounds.output_size (h : Rounds m results m') (hwaits : m.config.pauseOnOutput = true) :
    m'.output.size = m.output.size + results.countP isOutputPause := by
  induction h with
  | nil => rfl
  | @cons m m₁ m' queue r results hreturns _ ih =>
      have hconfig : m₁.config = m.config :=
        (returns_iff_ends.1 hreturns).config_eq.trans (config_start queue)
      rw [ih (by rw [hconfig, hwaits]), hreturns.output_size hwaits, Nat.add_assoc,
        ← List.countP_append]
      rfl

theorem Loaded.output_eq (h : Loaded m) : m.output = #[] := by
  obtain ⟨program, ⟨config, h⟩ | ⟨before, h⟩⟩ := h
  · obtain ⟨memory, -, rfl⟩ := load_eq_ok_iff.1 h
    rfl
  · obtain ⟨memory, -, rfl⟩ := reload_eq_ok_iff.1 h
    rfl

/-- On a machine that pauses after outputs, a run that returns has put out exactly one value and has
paused right after the output instruction; or it has paused for input, halted or failed, and has put
out nothing. So in all the runs since a program was loaded, the machine has paused after an output
as many times as it has put out a value. A machine that does not pause after outputs pauses for
input only. -/
theorem one_value_per_pause :
    (∀ (m m' : Machine) (queue : Queue) (r : Except Fault Status), m.status ≠ .halted →
      m.config.pauseOnOutput = true → m.Returns queue r m' →
      (r = .ok (.paused .output) ∧ m'.awaitingInput = false ∧
        ∃ signals m₁ x, Trace (m.start queue) signals m₁ ∧ m₁.PausesAfter x m' ∧
          m'.output = m.output.push x) ∨
      ((r = .ok (.paused .input) ∧ m'.awaitingInput = true ∨ r = .ok .halted ∨
          ∃ f, r = .error f) ∧
        m'.output = m.output)) ∧
    (∀ (m m' : Machine) (results : List (Except Fault Status)), Loaded m →
      m.config.pauseOnOutput = true → Rounds m results m' →
      results.countP isOutputPause = m'.output.size) ∧
    (∀ (m m' : Machine) (queue : Queue) (pause : Pause), m.config.pauseOnOutput = false →
      m.Returns queue (.ok (.paused pause)) m' → m'.awaitingInput = true) := by
  refine ⟨fun m m' queue r hm hwaits h ↦ h.pauses_or_output_eq hm hwaits, ?_, ?_⟩
  · intro m m' results hloaded hwaits h
    rw [h.output_size hwaits, hloaded.output_eq, Array.size_empty, Nat.zero_add]
  · intro m m' queue pause hwaits h
    have hends : Ends (m.start queue) (.ok (.paused pause)) m' := returns_iff_ends.1 h
    cases pause with
    | input => simp [awaitingInput, hends.status_eq]
    | output =>
        have hm : m.status ≠ .halted := by
          intro hm
          cases (h.deterministic ⟨0, run_of_halted 0 queue hm, nofun⟩).1
        obtain ⟨_, m₁, _, -, -, hwaits₁, _, -, -, rfl⟩ :=
          hends.exists_pausesAfter (status_start hm queue)
        have hconfig : m₁.config = m.config := hends.config_eq.trans (config_start queue)
        rw [hconfig, hwaits] at hwaits₁
        cases hwaits₁

/-- A machine that puts out a value and waits for one. It is run on nothing, again on nothing, and
then on the value; all three runs return, and the first has paused after an output. Without the
option the first run waits already. -/
theorem one_value_per_pause_of_pausing :
    (∃ signals m₁ x, Trace (pausing.start .empty) signals m₁ ∧
      m₁.PausesAfter x (pausing.after [.run 9 .empty]) ∧ #[7] = pausing.output.push x) ∧
    (∃ results, Rounds pausing results
        (pausing.after [.run 9 .empty, .run 9 .empty, .run 9 ⟨[4]⟩]) ∧
      results.countP isOutputPause = 1) ∧
    ({ pausing with config.pauseOnOutput := false }.after [.run 9 .empty]).awaitingInput := by
  have hfirst : pausing.Returns .empty (.ok (.paused .output)) (pausing.after [.run 9 .empty]) :=
    ⟨9, by rfl, nofun⟩
  have hsecond : (pausing.after [.run 9 .empty]).Returns .empty (.ok (.paused .input))
      (pausing.after [.run 9 .empty, .run 9 .empty]) := ⟨9, by rfl, nofun⟩
  have hthird : (pausing.after [.run 9 .empty, .run 9 .empty]).Returns ⟨[4]⟩ (.ok .halted)
      (pausing.after [.run 9 .empty, .run 9 .empty, .run 9 ⟨[4]⟩]) := ⟨9, by rfl, nofun⟩
  have hrounds := Rounds.cons hfirst (.cons hsecond (.cons hthird .nil))
  have hloaded : Loaded pausing := ⟨#[104, 7, 3, 0, 99], .inl ⟨pausing.config, by rfl⟩⟩
  have hrunning : pausing.status ≠ .halted := nofun
  have hwithout : { pausing with config.pauseOnOutput := false }.Returns .empty
      (.ok (.paused .input))
      ({ pausing with config.pauseOnOutput := false }.after [.run 9 .empty]) := ⟨9, by rfl, nofun⟩
  obtain ⟨hruns, hcount, hwaits⟩ := one_value_per_pause
  refine ⟨?_, ⟨_, hrounds, hcount _ _ _ hloaded rfl hrounds⟩, hwaits _ _ _ _ rfl hwithout⟩
  obtain ⟨-, -, hpauses⟩ | ⟨⟨hr, -⟩ | hr | ⟨f, hr⟩, -⟩ := hruns _ _ _ _ hrunning rfl hfirst
  · exact hpauses
  · cases hr
  · cases hr
  · cases hr

end Intcode.Machine
