import Intcode.Machine.Run
import Intcode.Proofs.Machine.InPlace

/-!
# Runs that return

A run is executed in slices, and a slice may end before the machine stops. Here a run is said to
return if some slice is long enough. `Ends` says the same without a budget, one step after the
other, so that a proof about a run is an induction over its steps.
-/

namespace Intcode.Machine

/-- The machine, running all the while, makes one successful step for each of the signals. -/
inductive Trace : Machine → List Signal → Machine → Prop
  | nil {m : Machine} : Trace m [] m
  | cons {m m₁ m' : Machine} {signal : Signal} {signals : List Signal}
      (running : m.status = .running) (step : m.step = (.ok signal, m₁))
      (rest : Trace m₁ signals m') : Trace m (signal :: signals) m'

/-- The machine steps until it is not running any more, or fails; then the result is the one
given, and so is the machine that is left. -/
inductive Ends : Machine → Except Fault Status → Machine → Prop
  | stop {m : Machine} (stopped : m.status ≠ .running) : Ends m (.ok m.status) m
  | fail {m m' : Machine} {f : Fault} (running : m.status = .running)
      (step : m.step = (.error f, m')) : Ends m (.error f) m'
  | next {m m₁ m' : Machine} {signal : Signal} {r : Except Fault Status}
      (running : m.status = .running) (step : m.step = (.ok signal, m₁)) (rest : Ends m₁ r m') :
      Ends m r m'

/-- A run on new input returns. -/
def Returns (m : Machine) (queue : Queue) (r : Except Fault Status) (m' : Machine) : Prop :=
  ∃ budget, m.run budget queue = (r, m') ∧ r ≠ .ok .running

variable {m m₁ m' : Machine} {r r' : Except Fault Status} {signals : List Signal}

/-! ## Setting out -/

theorem status_start (h : m.status ≠ .halted) (queue : Queue) :
    (m.start queue).status = .running := by
  simp [start, h]

theorem queue_start (h : m.status ≠ .halted) (queue : Queue) : (m.start queue).queue = queue := by
  simp [start, h]

theorem memory_start (queue : Queue) : (m.start queue).memory = m.memory := by
  unfold start
  split <;> rfl

theorem pointer_start (queue : Queue) : (m.start queue).pointer = m.pointer := by
  unfold start
  split <;> rfl

theorem config_start (queue : Queue) : (m.start queue).config = m.config := by
  unfold start
  split <;> rfl

theorem output_start (queue : Queue) : (m.start queue).output = m.output := by
  unfold start
  split <;> rfl

/-- A machine that is running after some steps has been running all the while. -/
theorem Trace.status_eq_running (h : Trace m signals m') (hm' : m'.status = .running) :
    m.status = .running := by
  cases h with
  | nil => exact hm'
  | cons hrunning => exact hrunning

/-! ## Coming to an end -/

theorem Ends.of_drive {budget : Nat} (h : drive budget m = (r, m')) (hr : r ≠ .ok .running) :
    Ends m r m' := by
  induction budget generalizing m with
  | zero =>
      cases h
      exact .stop fun hrunning ↦ hr (congrArg Except.ok hrunning)
  | succ budget ih =>
      by_cases hrunning : m.status = .running
      · simp only [drive, hrunning, if_true] at h
        split at h
        · rename_i hs
          exact .next hrunning hs (ih h)
        · rename_i hs
          cases h
          exact .fail hrunning hs
      · rw [drive_of_not_running _ hrunning] at h
        cases h
        exact .stop hrunning

theorem Ends.exists_drive (h : Ends m r m') :
    ∃ budget, drive budget m = (r, m') ∧ r ≠ .ok .running := by
  induction h with
  | stop hstopped => exact ⟨0, rfl, fun h ↦ hstopped (Except.ok.inj h)⟩
  | fail hrunning hs => exact ⟨1, by simp [drive, hrunning, hs], nofun⟩
  | next hrunning hs _ ih =>
      obtain ⟨budget, hd, hr⟩ := ih
      exact ⟨budget + 1, by simp [drive, hrunning, hs, hd], hr⟩

theorem returns_iff_ends {queue : Queue} : m.Returns queue r m' ↔ Ends (m.start queue) r m' := by
  constructor
  · rintro ⟨budget, hd, hr⟩
    exact .of_drive hd hr
  · exact Ends.exists_drive

theorem Ends.eq_of_stopped (h : Ends m r m') (hm : m.status ≠ .running) :
    r = .ok m.status ∧ m' = m := by
  cases h with
  | stop => exact ⟨rfl, rfl⟩
  | fail hrunning => exact absurd hrunning hm
  | next hrunning => exact absurd hrunning hm

theorem Ends.deterministic {m'' : Machine} (h : Ends m r m') (h' : Ends m r' m'') :
    r = r' ∧ m' = m'' := by
  induction h with
  | stop hstopped =>
      obtain ⟨hr, hm⟩ := h'.eq_of_stopped hstopped
      exact ⟨hr.symm, hm.symm⟩
  | fail hrunning hs =>
      cases h' with
      | stop hstopped => exact absurd hrunning hstopped
      | fail _ hs' =>
          rw [hs] at hs'
          cases hs'
          exact ⟨rfl, rfl⟩
      | next _ hs' =>
          rw [hs] at hs'
          cases hs'
  | next hrunning hs _ ih =>
      cases h' with
      | stop hstopped => exact absurd hrunning hstopped
      | fail _ hs' =>
          rw [hs] at hs'
          cases hs'
      | next _ hs' hrest =>
          rw [hs] at hs'
          cases hs'
          exact ih hrest

/-- A run has one result, however long the slice that reaches it. -/
theorem Returns.deterministic {queue : Queue} {m'' : Machine} (h : m.Returns queue r m')
    (h' : m.Returns queue r' m'') : r = r' ∧ m' = m'' :=
  (returns_iff_ends.1 h).deterministic (returns_iff_ends.1 h')

/-- A run goes on in the same way from any state that it comes through. -/
theorem Trace.ends_iff (h : Trace m signals m₁) : Ends m r m' ↔ Ends m₁ r m' := by
  induction h with
  | nil => rfl
  | cons hrunning hs _ ih =>
      rw [← ih]
      constructor
      · intro hends
        cases hends with
        | stop hstopped => exact absurd hrunning hstopped
        | fail _ hs' => cases hs.symm.trans hs'
        | next _ hs' hrest =>
            cases hs.symm.trans hs'
            exact hrest
      · exact .next hrunning hs

/-- A run that fails makes successful steps up to the one that fails. -/
theorem Ends.exists_trace_of_error {f : Fault} (h : Ends m (.error f) m') :
    ∃ signals m₁, Trace m signals m₁ ∧ m₁.status = .running ∧ m₁.step = (.error f, m') := by
  generalize hr : (Except.error f : Except Fault Status) = r at h
  induction h with
  | stop => cases hr
  | fail hrunning hs =>
      cases hr
      exact ⟨[], _, .nil, hrunning, hs⟩
  | next hrunning hs _ ih =>
      obtain ⟨signals, m₁, htrace, hlast⟩ := ih hr
      exact ⟨_, m₁, .cons hrunning hs htrace, hlast⟩

/-- A run that returns a status has left the machine with that status. -/
theorem Ends.status_eq {status : Status} (h : Ends m (.ok status) m') : m'.status = status := by
  generalize hr : (Except.ok status : Except Fault Status) = r at h
  induction h with
  | stop => exact (Except.ok.inj hr).symm
  | fail => cases hr
  | next _ _ _ ih => exact ih hr

/-- A run that does not fail comes to its end by its last step. -/
theorem Ends.exists_trace_of_ok {status : Status} (h : Ends m (.ok status) m')
    (hm : m.status = .running) :
    ∃ signals m₁ signal, Trace m signals m₁ ∧ m₁.status = .running ∧
      m₁.step = (.ok signal, m') := by
  generalize hr : (Except.ok status : Except Fault Status) = r at h
  induction h with
  | stop hstopped => exact absurd hm hstopped
  | fail => cases hr
  | @next m m₁ m' signal r _ hs hrest ih =>
      by_cases hgoing : m₁.status = .running
      · obtain ⟨signals, m₂, last, htrace, hlast⟩ := ih hgoing hr
        exact ⟨_, m₂, last, .cons hm hs htrace, hlast⟩
      · obtain ⟨-, rfl⟩ := hrest.eq_of_stopped hgoing
        exact ⟨[], m, signal, .nil, hm, hs⟩

theorem config_of_step {r : Except Fault Signal} (hs : m.step = (r, m')) :
    m'.config = m.config := by
  have hconfig := config_step m
  rw [hs] at hconfig
  exact hconfig

theorem Ends.config_eq (h : Ends m r m') : m'.config = m.config := by
  induction h with
  | stop => rfl
  | fail _ hs => exact config_of_step hs
  | next _ hs _ ih => exact ih.trans (config_of_step hs)

/-- What each step keeps, a run keeps. -/
theorem drive_invariant {P : Machine → Prop} (hstep : ∀ m, P m → P m.step.2) (budget : Nat)
    (h : P m) : P (drive budget m).2 := by
  induction budget generalizing m with
  | zero => exact h
  | succ budget ih =>
      have hs := hstep m h
      simp only [drive]
      split
      · split
        · rename_i heq
          rw [heq] at hs
          exact ih hs
        · rename_i heq
          rw [heq] at hs
          exact hs
      · exact h

end Intcode.Machine
