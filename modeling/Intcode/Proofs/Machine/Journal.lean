import Intcode.Proofs.Machine.Runs
import Intcode.Proofs.Machine.Table
import Mathlib.Data.List.Forall2

/-!
# Journals

A journal lists the instructions that a run has carried out, in order, each between the machine
before it and the machine after it. It accounts for all that has become of the input and of the
output: no value is lost, read twice or read out of turn, and no other instruction touches either.
-/

namespace Intcode

/-- An instruction that has been carried out. -/
structure JournalEntry where
  before : Machine
  instruction : Resolved
  after : Machine

namespace JournalEntry

def isInput (e : JournalEntry) : Bool := e.instruction.opcode = .input

/-- The values that the instruction has put out. -/
def emitted (e : JournalEntry) : List Cell :=
  match e.instruction with
  | .output a => [a]
  | _ => []

/-- The instruction is an input, and has stored `v` in the cell that its target was resolved to. -/
def Receives (e : JournalEntry) (v : Cell) : Prop :=
  ∃ i, e.instruction = .input i ∧ i < e.before.memory.capacity ∧
    e.before.memory.Stored i v e.after.memory

end JournalEntry

namespace Machine

/-- The machine carries out the instruction at its pointer. An input for which it pauses is not
carried out. -/
def Completes (m : Machine) (i : Resolved) (m' : Machine) : Prop :=
  (∃ fetched, m.fetch = .ok fetched ∧ m.resolve fetched = .ok i) ∧
    ∃ signal, m.step = (.ok signal, m') ∧ signal ≠ .awaitingInput

/-- The machine runs to an end and carries out the instructions of the journal on the way. -/
inductive Journal : Machine → List JournalEntry → Except Fault Status → Machine → Prop
  | stop {m : Machine} (stopped : m.status ≠ .running) : Journal m [] (.ok m.status) m
  | fail {m m' : Machine} {f : Fault} (running : m.status = .running)
      (step : m.step = (.error f, m')) : Journal m [] (.error f) m'
  | wait {m m' : Machine} (running : m.status = .running)
      (step : m.step = (.ok .awaitingInput, m')) : Journal m [] (.ok m'.status) m'
  | next {m m₁ m' : Machine} {i : Resolved} {entries : List JournalEntry} {r : Except Fault Status}
      (running : m.status = .running) (completes : m.Completes i m₁)
      (rest : Journal m₁ entries r m') : Journal m (⟨m, i, m₁⟩ :: entries) r m'

/-- The entries account for the input and the output of the machine on its way from `m` to `m'`. -/
structure Accounts (m : Machine) (entries : List JournalEntry) (m' : Machine) : Prop where
  input : ∃ values, m.queue.values = values ++ m'.queue.values ∧
    List.Forall₂ JournalEntry.Receives (entries.filter JournalEntry.isInput) values
  output : m'.output.toList = m.output.toList ++ entries.flatMap JournalEntry.emitted

variable {m m₁ m' : Machine} {i : Resolved} {signal : Signal} {entries entries' : List JournalEntry}
  {r : Except Fault Status}

/-! ## One instruction -/

theorem exists_completes (hm : m.status ≠ .halted) (hs : m.step = (.ok signal, m'))
    (hsignal : signal ≠ .awaitingInput) : ∃ i, m.Completes i m' := by
  cases hp : m.plan with
  | error cause =>
      rw [step_of_plan_eq_error hm hp] at hs
      cases hs
  | ok e =>
      simp only [plan, bind_eq_ok_iff] at hp
      obtain ⟨fetched, hf, i, hi, -⟩ := hp
      exact ⟨i, ⟨fetched, hf, hi⟩, signal, hs, hsignal⟩

theorem Completes.exists_effect (h : m.Completes i m') (hm : m.status ≠ .halted) :
    ∃ e signal, m.effect i = .ok e ∧ m.perform e = (signal, m') ∧ signal ≠ .awaitingInput := by
  obtain ⟨⟨fetched, hf, hi⟩, signal, hs, hsignal⟩ := h
  have hplan : m.plan = m.effect i := by
    rw [plan, hf]
    show m.resolve fetched >>= m.effect = m.effect i
    rw [hi]
    rfl
  cases he : m.effect i with
  | error cause =>
      rw [step_of_plan_eq_error hm (hplan.trans he)] at hs
      cases hs
  | ok e =>
      rw [step_of_plan_eq_ok hm (hplan.trans he)] at hs
      cases hs
      exact ⟨e, _, rfl, rfl, hsignal⟩

theorem Completes.index_lt {dst : Nat} (h : m.Completes (.input dst) m') :
    dst < m.memory.capacity := by
  obtain ⟨⟨fetched, -, hi⟩, -⟩ := h
  cases resolve_eq_ok_iff.1 hi with
  | input hd => exact hd.2

/-- An input stores the next value and takes it from the queue. Since its target is inside of memory
by then, nothing can fail in between. -/
theorem Completes.receives {dst : Nat} (h : m.Completes (.input dst) m')
    (hm : m.status ≠ .halted) :
    ∃ v, m.queue.values = v :: m'.queue.values ∧ JournalEntry.Receives ⟨m, .input dst, m'⟩ v ∧
      m'.output = m.output := by
  obtain ⟨e, signal, he, hperform, hsignal⟩ := h.exists_effect hm
  simp only [effect] at he
  split at he
  · rename_i v rest hq
    cases he
    cases hperform
    exact ⟨v, Queue.pop?_eq_some_iff.1 hq,
      ⟨dst, rfl, h.index_lt, (Memory.stored_iff h.index_lt).2 rfl⟩, rfl⟩
  · split at he
    · cases he
      cases hperform
      exact absurd rfl hsignal
    · cases he

theorem Accounts.of_eq (hqueue : m'.queue = m.queue) (houtput : m'.output = m.output) :
    Accounts m [] m' :=
  ⟨⟨[], by rw [hqueue]; rfl, .nil⟩, by simp [houtput]⟩

theorem Accounts.append (h : Accounts m entries m₁) (h' : Accounts m₁ entries' m') :
    Accounts m (entries ++ entries') m' := by
  obtain ⟨⟨values, hqueue, hreceives⟩, houtput⟩ := h
  obtain ⟨⟨values', hqueue', hreceives'⟩, houtput'⟩ := h'
  refine ⟨⟨values ++ values', ?_, ?_⟩, ?_⟩
  · rw [hqueue, hqueue', List.append_assoc]
  · rw [List.filter_append]
    exact List.rel_append hreceives hreceives'
  · rw [houtput', houtput, List.flatMap_append, List.append_assoc]

/-- Inputs take from the queue, outputs add to the output, and nothing else does either. -/
theorem Completes.accounts (h : m.Completes i m') (hm : m.status ≠ .halted) :
    Accounts m [⟨m, i, m'⟩] m' := by
  obtain ⟨e, signal, he, hperform, -⟩ := h.exists_effect hm
  cases i with
  | input dst =>
      obtain ⟨v, hqueue, hreceives, houtput⟩ := h.receives hm
      exact ⟨⟨[v], hqueue, .cons hreceives .nil⟩, by simp [houtput, JournalEntry.emitted]⟩
  | jump c a target =>
      simp only [effect] at he
      split at he
      · simp only [bind_eq_ok_iff, pure_eq_ok_iff] at he
        obtain ⟨k, -, rfl⟩ := he
        cases hperform
        exact ⟨⟨[], rfl, .nil⟩, by simp [JournalEntry.emitted]⟩
      · cases he
        cases hperform
        exact ⟨⟨[], rfl, .nil⟩, by simp [JournalEntry.emitted]⟩
  | _ =>
      cases he
      cases hperform
      exact ⟨⟨[], rfl, .nil⟩, by simp [JournalEntry.emitted]⟩

/-! ## Whole runs -/

/-- A run that returns has a journal. -/
theorem Ends.exists_journal (h : Ends m r m') : ∃ entries, Journal m entries r m' := by
  induction h with
  | stop hstopped => exact ⟨[], .stop hstopped⟩
  | fail hrunning hs => exact ⟨[], .fail hrunning hs⟩
  | @next m m₁ m' signal r hrunning hs hrest ih =>
      by_cases hsignal : signal = .awaitingInput
      · subst hsignal
        have hpaused : m₁.status = .paused .input := by rw [eq_of_step_eq_awaitingInput hs]
        obtain ⟨rfl, rfl⟩ := hrest.eq_of_stopped (by simp [hpaused])
        exact ⟨[], .wait hrunning hs⟩
      · obtain ⟨i, hi⟩ := exists_completes (by simp [hrunning]) hs hsignal
        obtain ⟨entries, hentries⟩ := ih
        exact ⟨_, .next hrunning hi hentries⟩

theorem Journal.accounts (h : Journal m entries r m') : Accounts m entries m' := by
  induction h with
  | stop => exact .of_eq rfl rfl
  | fail _ hs =>
      obtain ⟨-, rfl⟩ := eq_of_step_eq_error hs
      exact .of_eq rfl rfl
  | wait _ hs =>
      obtain rfl := eq_of_step_eq_awaitingInput hs
      exact .of_eq rfl rfl
  | next hrunning hi _ ih => exact (hi.accounts (by simp [hrunning])).append ih

/-- A run that returns has a journal, and its journal accounts for input and output. As many values
have been read as inputs have been carried out, one by each and in order, and the other values are
still there. The output has grown by what the outputs have put out, in order. An instruction that
fails, or that the machine pauses before, has no part in this, and neither has what had been left to
read before the run. -/
theorem input_and_output_accounted (hm : m.status ≠ .halted) {xs : List Cell}
    (h : m.Returns ⟨xs⟩ r m') :
    (∃ entries, Journal (m.start ⟨xs⟩) entries r m') ∧
    (∀ entries, Journal (m.start ⟨xs⟩) entries r m' →
      let inputs := entries.filter JournalEntry.isInput
      inputs.length ≤ xs.length ∧
      List.Forall₂ JournalEntry.Receives inputs (xs.take inputs.length) ∧
      m'.queue.values = xs.drop inputs.length ∧
      m'.output.toList = m.output.toList ++ entries.flatMap JournalEntry.emitted) ∧
    (∀ m₁ m₂ : Machine, (m₁.step = (.ok .awaitingInput, m₂) ∨ ∃ f, m₁.step = (.error f, m₂)) →
      m₂.queue = m₁.queue ∧ m₂.output = m₁.output) ∧
    ∀ left, { m with queue := left }.Returns ⟨xs⟩ r m' := by
  refine ⟨(returns_iff_ends.1 h).exists_journal, ?_, ?_, ?_⟩
  · intro entries hentries inputs
    obtain ⟨⟨values, hqueue, hreceives⟩, houtput⟩ := hentries.accounts
    have hxs : xs = values ++ m'.queue.values := by
      rw [← hqueue]
      simp [start, hm]
    have hlength : inputs.length = values.length := hreceives.length_eq
    rw [output_start] at houtput
    refine ⟨?_, ?_, ?_, houtput⟩
    · rw [hlength, hxs, List.length_append]
      exact Nat.le_add_right _ _
    · rw [hlength, hxs, List.take_left]
      exact hreceives
    · rw [hlength, hxs, List.drop_left]
  · rintro m₁ m₂ (hs | ⟨f, hs⟩)
    · obtain rfl := eq_of_step_eq_awaitingInput hs
      exact ⟨rfl, rfl⟩
    · obtain ⟨-, rfl⟩ := eq_of_step_eq_error hs
      exact ⟨rfl, rfl⟩
  · intro left
    have hstart : { m with queue := left }.start ⟨xs⟩ = m.start ⟨xs⟩ := by
      simp only [start, hm, if_false]
    rw [returns_iff_ends, hstart, ← returns_iff_ends]
    exact h

/-- A machine that puts out the value it reads, and then is to read one into a cell that it does not
have. -/
def relaying (pointer : Nat) (status : Status) (x : Cell) (queue : List Cell)
    (output : Array Cell) : Machine where
  memory := ⟨#[3, 7, 4, 7, 3, 100, 99, x]⟩
  pointer := pointer
  base := 0
  queue := ⟨queue⟩
  output := output
  status := status
  config := { capacity := 8 }

/-- The second of two values is not lost when the machine fails, and the one that was there before
them is. -/
theorem input_and_output_accounted_of_relaying :
    ∃ entries, Journal ((relaying 0 .running 0 [9] #[1]).start ⟨[5, 6]⟩) entries
        (.error ⟨.addressOutOfRange 100, 4, 3⟩) (relaying 4 .halted 5 [6] #[1, 5]) ∧
      (entries.filter JournalEntry.isInput).length = 1 ∧
      entries.flatMap JournalEntry.emitted = [5] := by
  have hrunning : (relaying 0 .running 0 [9] #[1]).status ≠ .halted := nofun
  have hreturns : (relaying 0 .running 0 [9] #[1]).Returns ⟨[5, 6]⟩
      (.error ⟨.addressOutOfRange 100, 4, 3⟩) (relaying 4 .halted 5 [6] #[1, 5]) :=
    ⟨9, by rfl, nofun⟩
  obtain ⟨⟨entries, hentries⟩, haccounts, -, -⟩ := input_and_output_accounted hrunning hreturns
  obtain ⟨hle, -, hqueue, houtput⟩ := haccounts entries hentries
  have htwo : (entries.filter JournalEntry.isInput).length ≤ 2 := hle
  have hleft : 1 = 2 - (entries.filter JournalEntry.isInput).length :=
    (congrArg List.length hqueue).trans List.length_drop
  exact ⟨entries, hentries, by omega, (List.cons.inj houtput).2.symm⟩

end Machine

end Intcode
