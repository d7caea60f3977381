import Intcode.Proofs.Machine.Runs
import Intcode.Proofs.Machine.Table

/-!
# Want of input

How much input a machine has been given, and whether it may wait for more, makes no difference until
it comes to an input with nothing to read. This is said once, for a machine that is provided with
more to read and with another setting of the option to wait: until it comes to want, it does what
the machine does that is not so provided.

Two statements follow. A run on more input is the run on less with the rest of the input left over,
or, if that run has paused for want of input, what becomes of it when it is given the rest. And the
option to wait turns a failure for want of input into a pause, and does nothing else.
-/

namespace Intcode.Machine

/-- The machine stands before an input that it could carry out if there were something to read. -/
def Wants (m : Machine) : Prop :=
  ∃ dst i, m.Stands (.input dst) ∧ m.HasIndex dst i ∧ m.queue.values = []

/-- A run with this result has ended for want of input. -/
def ForWant : Except Fault Status → Prop
  | .ok status => status = .paused .input
  | .error f => f.cause = .inputExhausted

/-- The machine with more to read after what it has, and with the option to wait set anew. -/
def provided (m : Machine) (later : List Cell) (waits : Bool) : Machine :=
  { m with queue := m.queue.extend later, config.pauseOnInput := waits }

variable {m m₁ m' : Machine} {signal : Signal} {signals : List Signal} {cause : Cause}
  {r : Except Fault Status} {queue : Queue} {later : List Cell} {waits : Bool}

/-! ## Machines in want -/

theorem executes_awaitingInput_iff :
    m.Executes .awaitingInput m' ↔
      m.Wants ∧ m.config.pauseOnInput = true ∧ m' = { m with status := .paused .input } := by
  constructor
  · intro h
    cases h with
    | await hi hd hq hwaits => exact ⟨⟨_, _, hi, hd, hq⟩, hwaits, rfl⟩
  · rintro ⟨⟨_, _, hi, hd, hq⟩, hwaits, rfl⟩
    exact .await hi hd hq hwaits

theorem refuses_inputExhausted_iff :
    m.Refuses .inputExhausted ↔ m.Wants ∧ m.config.pauseOnInput = false := by
  constructor
  · intro h
    cases h with
    | undecoded _ hd =>
        obtain hcause | ⟨_, hcause⟩ := Shape.decode_eq_error hd
        · cases hcause
        · cases hcause
    | exhausted hi hd hq hwaits => exact ⟨⟨_, _, hi, hd, hq⟩, hwaits⟩
  · rintro ⟨⟨_, _, hi, hd, hq⟩, hwaits⟩
    exact .exhausted hi hd hq hwaits

theorem Wants.pauses (h : m.Wants) (hm : m.status = .running)
    (hwaits : m.config.pauseOnInput = true) :
    Ends m (.ok (.paused .input)) { m with status := .paused .input } := by
  have hx : m.Executes .awaitingInput { m with status := .paused .input } :=
    executes_awaitingInput_iff.2 ⟨h, hwaits, rfl⟩
  exact .next hm ((step_eq_ok_iff (by simp [hm])).2 hx) (.stop (by simp))

theorem Wants.fails (h : m.Wants) (hm : m.status = .running)
    (hwaits : m.config.pauseOnInput = false) :
    Ends m (.error (m.fault .inputExhausted)) { m with status := .halted } := by
  have hr : m.Refuses .inputExhausted := refuses_inputExhausted_iff.2 ⟨h, hwaits⟩
  exact .fail hm ((step_eq_error_iff (by simp [hm])).2 ⟨hr, rfl, rfl⟩)

/-- A run that ends for want of input comes to a state of want, and pauses there or fails. -/
theorem Ends.exists_wants (h : Ends m r m') (hm : m.status = .running) (hr : ForWant r) :
    ∃ signals m₁, Trace m signals m₁ ∧ m₁.status = .running ∧ m₁.Wants ∧
      (m.config.pauseOnInput = true ∧ r = .ok (.paused .input) ∧
          m' = { m₁ with status := .paused .input } ∨
        m.config.pauseOnInput = false ∧ r = .error (m₁.fault .inputExhausted) ∧
          m' = { m₁ with status := .halted }) := by
  induction h with
  | stop hstopped => exact absurd hm hstopped
  | @fail m m' f _ hs =>
      obtain ⟨hrefuses, hf, rfl⟩ := (step_eq_error_iff (by simp [hm])).1 hs
      have hcause : f.cause = .inputExhausted := hr
      rw [hcause] at hf hrefuses
      obtain ⟨hwants, hwaits⟩ := refuses_inputExhausted_iff.1 hrefuses
      exact ⟨[], m, .nil, hm, hwants, .inr ⟨hwaits, congrArg Except.error hf, rfl⟩⟩
  | @next m m₁ m' signal r _ hs hrest ih =>
      by_cases hgoing : m₁.status = .running
      · obtain ⟨signals, m₂, htrace, hwants⟩ := ih hgoing hr
        rw [config_of_step hs] at hwants
        exact ⟨_, m₂, .cons hm hs htrace, hwants⟩
      · obtain ⟨rfl, rfl⟩ := hrest.eq_of_stopped hgoing
        have hx : m.Executes signal m' := (step_eq_ok_iff (by simp [hm])).1 hs
        obtain rfl := hx.paused_input_iff.1 hr
        obtain ⟨hwants, hwaits, rfl⟩ := executes_awaitingInput_iff.1 hx
        exact ⟨[], m, .nil, hm, hwants, .inl ⟨hwaits, rfl, rfl⟩⟩

/-! ## Machines that are provided for -/

theorem Executes.provided (h : m.Executes signal m') (hsignal : signal ≠ .awaitingInput)
    (later : List Cell) (waits : Bool) :
    (m.provided later waits).Executes signal (m'.provided later waits) := by
  cases h with
  | binary hi ha hb hd hs => exact .binary hi ha hb hd hs
  | @input dst i v rest memory hi hd hq hs =>
      have hqueue : (m.provided later waits).queue.values = v :: (rest ++ later) := by
        show m.queue.values ++ later = _
        rw [hq]
        rfl
      exact .input hi hd hqueue hs
  | await => exact absurd rfl hsignal
  | output hi ha => exact .output hi ha
  | jump hi ha ht hc hk => exact .jump hi ha ht hc hk
  | pass hi ha ht hc => exact .pass hi ha ht hc
  | adjustBase hi ha => exact .adjustBase hi ha
  | halt hi => exact .halt hi

theorem Refuses.provided (h : m.Refuses cause) (hcause : cause ≠ .inputExhausted)
    (later : List Cell) (waits : Bool) : (m.provided later waits).Refuses cause := by
  cases h with
  | pastEnd hout => exact .pastEnd hout
  | undecoded hc hd => exact .undecoded hc hd
  | cutOff hc hd hw => exact .cutOff hc hd hw
  | outside hi ht hb ha => exact .outside hi ht hb ha
  | exhausted => exact absurd rfl hcause
  | astray hi ha ht hc hy => exact .astray hi ha ht hc hy

theorem step_provided (hm : m.status = .running) (hs : m.step = (.ok signal, m₁))
    (hm₁ : m₁.status ≠ .paused .input) :
    (m.provided later waits).step = (.ok signal, m₁.provided later waits) := by
  have hprovided : (m.provided later waits).status = .running := hm
  have hx : m.Executes signal m₁ := (step_eq_ok_iff (by simp [hm])).1 hs
  exact (step_eq_ok_iff (by simp [hprovided])).2 (hx.provided (hx.ne_awaitingInput hm₁) later waits)

/-- Steps that are followed by others are not those of a machine in want. -/
theorem Trace.provided (h : Trace m signals m') (hm' : m'.status = .running) (later : List Cell)
    (waits : Bool) : Trace (m.provided later waits) signals (m'.provided later waits) := by
  induction h with
  | nil => exact .nil
  | @cons m m₁ m' signal signals hrunning hs hrest ih =>
      have hgoing : m₁.status = .running := hrest.status_eq_running hm'
      exact .cons hrunning (step_provided hrunning hs (by simp [hgoing])) (ih hm')

/-- A run that does not end for want of input is the same if more is provided. -/
theorem Ends.provided (h : Ends m r m') (hr : ¬ ForWant r) (later : List Cell) (waits : Bool) :
    Ends (m.provided later waits) r (m'.provided later waits) := by
  induction h with
  | stop hstopped => exact .stop hstopped
  | @fail m m' f hrunning hs =>
      have hprovided : (m.provided later waits).status = .running := hrunning
      obtain ⟨hrefuses, hf, rfl⟩ := (step_eq_error_iff (by simp [hrunning])).1 hs
      refine .fail hprovided ((step_eq_error_iff (by simp [hprovided])).2 ⟨?_, hf, rfl⟩)
      exact hrefuses.provided hr later waits
  | @next m m₁ m' signal r hrunning hs hrest ih =>
      by_cases hpaused : m₁.status = .paused .input
      · obtain ⟨rfl, -⟩ := hrest.eq_of_stopped (by simp [hpaused])
        exact absurd hpaused hr
      · exact .next hrunning (step_provided hrunning hs hpaused) (ih hr)

theorem not_forWant_iff :
    ¬ ForWant r ↔
      r ≠ .ok (.paused .input) ∧ ∀ f, r = .error f → f.cause ≠ .inputExhausted := by
  cases r <;> simp [ForWant]

/-! ## More to read -/

theorem start_provided (hm : m.status ≠ .halted) (values later : List Cell) :
    (m.start ⟨values⟩).provided later m.config.pauseOnInput = m.start ⟨values ++ later⟩ := by
  simp only [start, hm, if_false]
  rfl

/-- To give a machine in want something to read is the same before it pauses and after. -/
theorem Wants.start_paused (h : m.Wants) (hm : m.status = .running) (values : List Cell) :
    { m with status := .paused .input }.start ⟨values⟩ =
      m.provided values m.config.pauseOnInput := by
  obtain ⟨_, _, -, -, hq⟩ := h
  simp only [start, provided, Queue.extend, hq, hm]
  rfl

/-- A run on more input does what the run on less does, and leaves the rest of the input; unless
there is too little for the run on less. If that run pauses, the run on more input goes on as the
paused machine would with the rest. -/
theorem more_input_extends_run (hm : m.status ≠ .halted) (xs ys : List Cell)
    (h : m.Returns ⟨xs⟩ r m') :
    (r = .ok (.paused .input) →
      ∀ r₂ m₂, m.Returns ⟨xs ++ ys⟩ r₂ m₂ ↔ m'.Returns ⟨ys⟩ r₂ m₂) ∧
    (r ≠ .ok (.paused .input) → (∀ f, r = .error f → f.cause ≠ .inputExhausted) →
      m.Returns ⟨xs ++ ys⟩ r { m' with queue := m'.queue.extend ys }) := by
  have hends : Ends (m.start ⟨xs⟩) r m' := returns_iff_ends.1 h
  have hconfig : m'.config = m.config := hends.config_eq.trans (config_start _)
  constructor
  · rintro rfl r₂ m₂
    obtain ⟨signals, m₁, htrace, hm₁, hwants, ⟨-, -, rfl⟩ | ⟨-, hfails, -⟩⟩ :=
      hends.exists_wants (status_start hm _) rfl
    · -- The longer run comes to the same input, and finds there what the paused machine is given.
      have hconfig₁ : m₁.config = m.config := hconfig
      have htrace' : Trace (m.start ⟨xs ++ ys⟩) signals (m₁.provided ys m.config.pauseOnInput) := by
        rw [← start_provided hm]
        exact htrace.provided hm₁ ys _
      rw [returns_iff_ends, returns_iff_ends, htrace'.ends_iff, hwants.start_paused hm₁, hconfig₁]
    · cases hfails
  · intro hpaused hexhausted
    have hprovided : Ends (m.start ⟨xs ++ ys⟩) r (m'.provided ys m.config.pauseOnInput) := by
      rw [← start_provided hm]
      exact hends.provided (not_forWant_iff.2 ⟨hpaused, hexhausted⟩) ys _
    rw [← hconfig] at hprovided
    exact returns_iff_ends.2 hprovided

/-- A machine that reads `x` and `y`, and that may wait for them or not. -/
def reader (waits : Bool) (pointer : Nat) (status : Status) (x y : Cell) : Machine :=
  { fresh { capacity := 7, pauseOnInput := waits } ⟨#[3, 5, 3, 6, 99, x, y]⟩ with
    pointer := pointer
    status := status }

/-- The first value is enough for a pause, and the third one is too much. -/
theorem more_input_extends_run_of_reader :
    (reader true 0 .running 0 0).Returns ⟨[8, 9]⟩ (.ok .halted) (reader true 5 .halted 8 9) ∧
    (reader true 0 .running 0 0).Returns ⟨[8, 9, 4]⟩ (.ok .halted)
      { reader true 5 .halted 8 9 with queue := ⟨[4]⟩ } := by
  have hrunning : (reader true 0 .running 0 0).status ≠ .halted := nofun
  have hpaused : (reader true 0 .running 0 0).Returns ⟨[8]⟩ (.ok (.paused .input))
      (reader true 2 (.paused .input) 8 0) := ⟨9, by rfl, nofun⟩
  have hresumed : (reader true 2 (.paused .input) 8 0).Returns ⟨[9]⟩ (.ok .halted)
      (reader true 5 .halted 8 9) := ⟨9, by rfl, nofun⟩
  have hhalted := ((more_input_extends_run hrunning [8] [9] hpaused).1 rfl _ _).2 hresumed
  exact ⟨hhalted, (more_input_extends_run hrunning [8, 9] [4] hhalted).2 nofun nofun⟩

/-! ## Leave to wait -/

theorem provided_nil : m.provided [] waits = { m with config.pauseOnInput := waits } := by
  rw [provided, Queue.extend_nil]

theorem start_provided_nil :
    (m.provided [] waits).start queue = (m.start queue).provided [] waits := by
  simp only [provided_nil]
  by_cases hm : m.status = .halted
  · simp only [start, hm, if_true]
  · simp only [start, hm, if_false]

theorem Wants.provided_nil (h : m.Wants) (waits : Bool) : (m.provided [] waits).Wants := by
  rw [Machine.provided_nil]
  exact h

theorem Returns.provided_nil (h : m.Returns queue r m') (hr : ¬ ForWant r) (waits : Bool) :
    (m.provided [] waits).Returns queue r (m'.provided [] waits) := by
  rw [returns_iff_ends, start_provided_nil]
  exact (returns_iff_ends.1 h).provided hr [] waits

/-- If a run ends for want of input, it pauses or fails there as the machine may wait or not. -/
theorem Returns.of_forWant (h : m.Returns queue r m') (hr : ForWant r) :
    m'.queue = .empty ∧
    (m.provided [] true).Returns queue (.ok (.paused .input))
      { m'.provided [] true with status := .paused .input } ∧
    ∃ f, f.cause = .inputExhausted ∧
      (m.provided [] false).Returns queue (.error f)
        { m'.provided [] false with status := .halted } := by
  have hends : Ends (m.start queue) r m' := returns_iff_ends.1 h
  have hm : m.status ≠ .halted := by
    rintro hhalted
    obtain ⟨rfl, -⟩ := h.deterministic ⟨0, run_of_halted 0 queue hhalted, nofun⟩
    cases hr
  obtain ⟨signals, m₁, htrace, hm₁, hwants, hlast⟩ := hends.exists_wants (status_start hm _) hr
  have hpauses := (hwants.provided_nil true).pauses hm₁ rfl
  have hfails := (hwants.provided_nil false).fails hm₁ rfl
  rw [← (htrace.provided hm₁ [] _).ends_iff, ← start_provided_nil, ← returns_iff_ends] at hpauses
  rw [← (htrace.provided hm₁ [] _).ends_iff, ← start_provided_nil, ← returns_iff_ends] at hfails
  obtain ⟨_, _, -, -, hq⟩ := hwants
  have hqueue : m₁.queue = .empty := congrArg Queue.mk hq
  obtain ⟨-, -, rfl⟩ | ⟨-, -, rfl⟩ := hlast
  · exact ⟨hqueue, hpauses, _, rfl, hfails⟩
  · exact ⟨hqueue, hpauses, _, rfl, hfails⟩

/-- Of two machines that are alike but for the option to wait for input, one returns from a run if
the other does. They return the same, unless the one that does not wait fails for want of input:
then the one that does pauses at that place with all else the same. -/
theorem pauseOnInput_matters_only_in_want {off on : Machine}
    (hoff : off.config.pauseOnInput = false) (hon : on = { off with config.pauseOnInput := true })
    (queue : Queue) :
    ((∃ r m', off.Returns queue r m') ↔ ∃ r m', on.Returns queue r m') ∧
    (∀ r m', off.Returns queue r m' → (∀ f, r = .error f → f.cause ≠ .inputExhausted) →
      on.Returns queue r { m' with config.pauseOnInput := true }) ∧
    (∀ f m', off.Returns queue (.error f) m' → f.cause = .inputExhausted →
      m'.queue = .empty ∧ ∃ m₁, on.Returns queue (.ok (.paused .input)) m₁ ∧
        m₁.awaitingInput = true ∧
        m₁ = { m' with config.pauseOnInput := true, status := .paused .input }) ∧
    (∀ m', on.Returns queue (.ok (.paused .input)) m' →
      ∃ f m₁, off.Returns queue (.error f) m₁ ∧ f.cause = .inputExhausted) := by
  have hon' : off.provided [] true = on := by rw [provided_nil, hon]
  have hoff' : on.provided [] false = off := by rw [provided_nil, hon, ← hoff]
  -- The machine that does not wait is in want only if it fails.
  have hnever : ∀ m', ¬ off.Returns queue (.ok (.paused .input)) m' := by
    intro m' h
    obtain ⟨-, -, f, -, hfails⟩ := h.of_forWant rfl
    rw [provided_nil, ← hoff] at hfails
    cases (h.deterministic hfails).1
  refine ⟨⟨?_, ?_⟩, ?_, ?_, ?_⟩
  · rintro ⟨r, m', h⟩
    by_cases hr : ForWant r
    · obtain ⟨-, hpauses, -⟩ := h.of_forWant hr
      exact ⟨_, _, hon' ▸ hpauses⟩
    · exact ⟨_, _, hon' ▸ h.provided_nil hr true⟩
  · rintro ⟨r, m', h⟩
    by_cases hr : ForWant r
    · obtain ⟨-, -, _, -, hfails⟩ := h.of_forWant hr
      exact ⟨_, _, hoff' ▸ hfails⟩
    · exact ⟨_, _, hoff' ▸ h.provided_nil hr false⟩
  · intro r m' h hexhausted
    have hpaused : r ≠ .ok (.paused .input) := by
      rintro rfl
      exact hnever m' h
    rw [← hon', ← provided_nil]
    exact h.provided_nil (not_forWant_iff.2 ⟨hpaused, hexhausted⟩) true
  · intro f m' h hf
    obtain ⟨hqueue, hpauses, -⟩ := h.of_forWant hf
    rw [hon', provided_nil] at hpauses
    exact ⟨hqueue, _, hpauses, rfl, rfl⟩
  · intro m' h
    obtain ⟨-, -, f, hf, hfails⟩ := h.of_forWant rfl
    exact ⟨f, _, hoff' ▸ hfails, hf⟩

/-- One value is not enough for this program. The machine that may wait pauses for the other one,
and the machine that may not fails. Two values are enough for both. -/
theorem pauseOnInput_matters_only_in_want_of_reader :
    (∃ m, (reader true 0 .running 0 0).Returns ⟨[8]⟩ (.ok (.paused .input)) m ∧
      m.awaitingInput = true ∧ m = reader true 2 (.paused .input) 8 0) ∧
    (∃ f m, (reader false 0 .running 0 0).Returns ⟨[8]⟩ (.error f) m ∧
      f.cause = .inputExhausted) ∧
    (reader true 0 .running 0 0).Returns ⟨[8, 9]⟩ (.ok .halted) (reader true 5 .halted 8 9) := by
  have hoff : (reader false 0 .running 0 0).config.pauseOnInput = false := rfl
  have hon : reader true 0 .running 0 0 =
      { reader false 0 .running 0 0 with config.pauseOnInput := true } := rfl
  have hfails : (reader false 0 .running 0 0).Returns ⟨[8]⟩ (.error ⟨.inputExhausted, 2, 3⟩)
      (reader false 2 .halted 8 0) := ⟨9, by rfl, nofun⟩
  have hhalts : (reader false 0 .running 0 0).Returns ⟨[8, 9]⟩ (.ok .halted)
      (reader false 5 .halted 8 9) := ⟨9, by rfl, nofun⟩
  obtain ⟨-, -, hwaits, hconverse⟩ := pauseOnInput_matters_only_in_want hoff hon ⟨[8]⟩
  obtain ⟨-, hsame, -, -⟩ := pauseOnInput_matters_only_in_want hoff hon ⟨[8, 9]⟩
  obtain ⟨-, m, hpaused, hawaiting, rfl⟩ := hwaits _ _ hfails rfl
  exact ⟨⟨_, hpaused, hawaiting, rfl⟩, hconverse _ hpaused, hsame _ _ hhalts nofun⟩

end Intcode.Machine
