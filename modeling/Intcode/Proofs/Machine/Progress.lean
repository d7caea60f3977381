import Intcode.Proofs.Machine.Invariant

/-!
# Progress

Each instruction takes the pointer further, to the end of memory at the most, unless it is a jump
that is taken. So what is left of memory bounds the steps of a run that takes no jump, whatever its
program reads and however it changes itself; and a run that never returns takes jumps again and
again.
-/

namespace Intcode.Machine

/-- The instruction at the pointer is a jump that is taken, and it leads to a cell of memory. -/
def Jumps (m : Machine) : Prop :=
  ∃ c a target x y i, m.Stands (.jump c a target) ∧ m.HasValue a x ∧ m.HasValue target y ∧
    c.Taken x ∧ m.Denotes y i

/-- Whether the machine is about to take a jump. -/
def jumps? (m : Machine) : Bool :=
  match m.fetch >>= m.resolve with
  | .ok (.jump c x y) => c.holds x && (m.memory.index? y).isSome
  | _ => false

/-- The machine makes one successful step for each of the signals, going on wherever it pauses, and
takes no jump. It does not halt before the last of them. -/
inductive Straight : Machine → List Signal → Machine → Prop
  | nil {m : Machine} : Straight m [] m
  | cons {m m₁ m' : Machine} {signal : Signal} {signals : List Signal}
      (going : m.status ≠ .halted) (straight : ¬ m.Jumps) (step : m.step = (.ok signal, m₁))
      (rest : Straight m₁ signals m') : Straight m (signal :: signals) m'

variable {m m₁ m' : Machine} {signal : Signal} {signals : List Signal}

theorem jumps?_iff : m.jumps? = true ↔ m.Jumps := by
  constructor
  · intro h
    unfold jumps? at h
    split at h
    · rename_i c x y hr
      obtain ⟨i, hi, hj⟩ := bind_eq_ok_iff.1 hr
      cases resolve_eq_ok_iff.1 hj with
      | jump ha ht =>
          obtain ⟨hc, hy⟩ := Bool.and_eq_true_iff.1 h
          obtain ⟨k, hk⟩ := Option.isSome_iff_exists.1 hy
          exact ⟨c, _, _, x, y, k, fetch_eq_ok_iff.1 hi, ha, ht, Condition.holds_iff_taken.1 hc,
            index?_eq_some_iff.1 hk⟩
    · cases h
  · rintro ⟨c, a, target, x, y, k, hi, ha, ht, hc, hk⟩
    have hr : m.fetch >>= m.resolve = .ok (.jump c x y) :=
      bind_eq_ok_iff.2 ⟨_, fetch_eq_ok_iff.2 hi, resolve_eq_ok_iff.2 (.jump ha ht)⟩
    simp [jumps?, hr, Condition.holds_iff_taken.2 hc, index?_eq_some_iff.2 hk]

instance (m : Machine) : Decidable m.Jumps := decidable_of_iff (m.jumps? = true) jumps?_iff

/-! ## One step -/

theorem Executes.pointer_lt (h : m.Executes signal m') (hjumps : ¬ m.Jumps)
    (hsignal : signal ≠ .awaitingInput) : m.pointer < m'.pointer := by
  cases h with
  | await => exact absurd rfl hsignal
  | jump hi ha ht hc hk => exact absurd ⟨_, _, _, _, _, _, hi, ha, ht, hc, hk⟩ hjumps
  | _ => exact Nat.lt_add_of_pos_right (by decide)

theorem pointer_step_le (h : m.pointer ≤ m.memory.capacity) :
    m.step.2.pointer ≤ m.step.2.memory.capacity := by
  rw [capacity_step]
  by_cases hhalted : m.status = .halted
  · rw [step_of_halted hhalted]
    exact h
  · rcases hs : m.step with ⟨f | signal, m'⟩
    · obtain ⟨-, rfl⟩ := eq_of_step_eq_error hs
      exact h
    · exact ((step_eq_ok_iff hhalted).1 hs).pointer_le

/-! ## Many steps -/

theorem Straight.capacity_eq (h : m.Straight signals m') :
    m'.memory.capacity = m.memory.capacity := by
  induction h with
  | nil => rfl
  | @cons m m₁ m' _ _ _ _ hs _ ih =>
      have hcapacity := capacity_step m
      rw [hs] at hcapacity
      exact ih.trans hcapacity

theorem Straight.pointer_le (h : m.Straight signals m') (hm : m.pointer ≤ m.memory.capacity) :
    m'.pointer ≤ m'.memory.capacity := by
  induction h with
  | nil => exact hm
  | cons _ _ hs _ ih =>
      have hpointer := pointer_step_le hm
      rw [hs] at hpointer
      exact ih hpointer

/-- The pointer has passed a cell for each step that was not a pause for input. -/
theorem Straight.add_countP_le (h : m.Straight signals m') :
    m.pointer + signals.countP (· ≠ .awaitingInput) ≤ m'.pointer := by
  induction h with
  | nil => exact Nat.le_refl _
  | @cons m m₁ m' signal signals hgoing hjumps hs _ ih =>
      have hx : m.Executes signal m₁ := (step_eq_ok_iff hgoing).1 hs
      by_cases hsignal : signal = .awaitingInput
      · subst hsignal
        obtain rfl := eq_of_step_eq_awaitingInput hs
        rw [List.countP_cons_of_neg (by simp)]
        exact ih
      · have hlt := hx.pointer_lt hjumps hsignal
        rw [List.countP_cons_of_pos (by simpa using hsignal)]
        omega

/-- A run that goes on after some steps without a jump has passed a cell with each of them. -/
theorem exists_straight_of_drive {n : Nat} (h : drive n m = (.ok .running, m'))
    (hjumps : ∀ k < n, (drive k m).2.status = .running → ¬ (drive k m).2.Jumps) :
    ∃ signals, m.Straight signals m' ∧ signals.countP (· ≠ .awaitingInput) = n := by
  induction n generalizing m with
  | zero =>
      obtain ⟨-, rfl⟩ := Prod.mk.inj h
      exact ⟨[], .nil, rfl⟩
  | succ n ih =>
      by_cases hrunning : m.status = .running
      · rcases hs : m.step with ⟨f | signal, m₁⟩
        · simp only [drive, hrunning, hs, if_true] at h
          cases h
        · have hdrive (k : Nat) : drive (k + 1) m = drive k m₁ := by
            simp only [drive, hrunning, hs, if_true]
          have hgoing : m.status ≠ .halted := by simp [hrunning]
          have hsignal : signal ≠ .awaitingInput := by
            rintro rfl
            obtain rfl := eq_of_step_eq_awaitingInput hs
            rw [hdrive, drive_of_not_running n (by simp)] at h
            cases h
          rw [hdrive] at h
          obtain ⟨signals, hstraight, hcount⟩ := ih h fun k hk ↦ by
            rw [← hdrive]
            exact hjumps (k + 1) (Nat.succ_lt_succ hk)
          refine ⟨signal :: signals, .cons hgoing ?_ hs hstraight, ?_⟩
          · exact hjumps 0 (Nat.succ_pos n) hrunning
          · rw [List.countP_cons_of_pos (by simpa using hsignal), hcount]
      · rw [drive_of_not_running _ hrunning] at h
        exact absurd (Except.ok.inj (Prod.mk.inj h).1) hrunning

/-- As many steps as there are cells left, and one more, are enough for a run without jumps. -/
theorem drive_ne_running (hm : m.pointer ≤ m.memory.capacity)
    (hjumps : ∀ k ≤ m.memory.capacity - m.pointer,
      (drive k m).2.status = .running → ¬ (drive k m).2.Jumps) :
    (drive (m.memory.capacity - m.pointer + 1) m).1 ≠ .ok .running := by
  intro hrunning
  obtain ⟨signals, hstraight, hcount⟩ := exists_straight_of_drive (Prod.ext hrunning rfl)
    fun k hk ↦ hjumps k (Nat.le_of_lt_succ hk)
  have hpassed := hstraight.add_countP_le
  have hpointer := hstraight.pointer_le hm
  rw [hstraight.capacity_eq] at hpointer
  omega

/-- A run that never returns still has a jump before it, however far it has come. -/
theorem exists_jumps_of_running (hm : m.pointer ≤ m.memory.capacity)
    (hrunning : ∀ n, (drive n m).1 = .ok .running) (n : Nat) :
    ∃ k, n ≤ k ∧ (drive k m).2.Jumps := by
  refine Classical.byContradiction fun hnone ↦ ?_
  have hlater (k : Nat) : drive (n + k) m = drive k (drive n m).2 := by
    have hn : drive n m = (.ok .running, (drive n m).2) := Prod.ext (hrunning n) rfl
    rw [drive_add, hn]
  have hpointer : (drive n m).2.pointer ≤ (drive n m).2.memory.capacity :=
    drive_invariant (P := fun m ↦ m.pointer ≤ m.memory.capacity) (fun _ ↦ pointer_step_le) n hm
  refine drive_ne_running hpointer (fun k _ _ hjumps ↦ ?_) ?_
  · rw [← hlater] at hjumps
    exact hnone ⟨n + k, Nat.le_add_right n k, hjumps⟩
  · rw [← hlater]
    exact hrunning _

/-- A step takes the pointer further, and not beyond the end of memory, unless it pauses for input,
fails or takes a jump; and so does any number of steps. So a run that takes no jump returns: it
halts, pauses or fails within as many steps as there are cells from its pointer on, and one more.
Hence a run that never returns takes jumps, and always another one. -/
theorem diverges_only_through_jumps (hm : m.pointer ≤ m.memory.capacity) :
    (∀ signals m₀, m.Straight signals m₀ →
      m.pointer + signals.countP (· ≠ .awaitingInput) ≤ m₀.pointer ∧
      m₀.pointer ≤ m.memory.capacity ∧
      ∀ signal m₁, m₀.status ≠ .halted → ¬ m₀.Jumps → m₀.step = (.ok signal, m₁) →
        signal ≠ .awaitingInput → m₀.pointer < m₁.pointer ∧ m₁.pointer ≤ m.memory.capacity) ∧
    (∀ queue, (∀ k ≤ m.memory.capacity - m.pointer,
        (drive k (m.start queue)).2.status = .running → ¬ (drive k (m.start queue)).2.Jumps) →
      (m.run (m.memory.capacity - m.pointer + 1) queue).1 ≠ .ok .running) ∧
    (∀ queue, (∀ budget, (m.run budget queue).1 = .ok .running) →
      ∀ n, ∃ k, n ≤ k ∧ (drive k (m.start queue)).2.Jumps) := by
  have hstart (queue : Queue) : (m.start queue).pointer ≤ (m.start queue).memory.capacity := by
    rw [pointer_start, memory_start]
    exact hm
  refine ⟨?_, ?_, fun queue hrunning ↦ exists_jumps_of_running (hstart queue) hrunning⟩
  · intro signals m₀ hstraight
    have hcapacity := hstraight.capacity_eq
    refine ⟨hstraight.add_countP_le, hcapacity ▸ hstraight.pointer_le hm, ?_⟩
    intro signal m₁ hgoing hjumps hs hsignal
    have hx : m₀.Executes signal m₁ := (step_eq_ok_iff hgoing).1 hs
    exact ⟨hx.pointer_lt hjumps hsignal, hcapacity ▸ hx.pointer_le⟩
  · intro queue hjumps
    have hreturns := drive_ne_running (hstart queue)
    rw [pointer_start, memory_start] at hreturns
    exact hreturns hjumps

/-- A jump that is not taken, and a sum that becomes what is put out after it. -/
def falling : Machine :=
  fresh { capacity := 10 } ⟨#[1105, 0, 9, 1101, 2, 3, 8, 104, 0, 99]⟩

/-- A jump to itself. -/
def circling : Machine := fresh { capacity := 3 } ⟨#[1105, 1, 0]⟩

/-- The one machine returns, and the other one jumps for ever. -/
theorem diverges_only_through_jumps_of_circling :
    (falling.run (10 + 1) .empty).1 ≠ .ok .running ∧
    (∃ m, falling.step = (.ok .executed, m) ∧ 0 < m.pointer ∧ m.pointer ≤ 10) ∧
    ∀ n, ∃ k, n ≤ k ∧ (drive k (circling.start .empty)).2.Jumps := by
  obtain ⟨hsteps, hreturns, -⟩ := @diverges_only_through_jumps falling (by decide)
  obtain ⟨-, -, hdiverges⟩ := @diverges_only_through_jumps circling (by decide)
  have hstep : falling.step = (.ok .executed, { falling with pointer := 3 }) := by rfl
  have hcircle (budget : Nat) : circling.run budget .empty = (.ok .running, circling) := by
    induction budget with
    | zero => rfl
    | succ budget ih => exact ih
  refine ⟨hreturns .empty (by decide), ⟨_, hstep, ?_⟩, hdiverges .empty fun budget ↦ ?_⟩
  · exact (hsteps [] falling .nil).2.2 _ _ (by decide) (by decide) hstep (by decide)
  · rw [hcircle]

end Intcode.Machine
