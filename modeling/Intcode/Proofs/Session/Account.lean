import Intcode.Proofs.Command.InputSource
import Intcode.Proofs.Session.Course
import Intcode.Proofs.Session.Messages

/-!
# The account of a session

What a session has done in its moves, taken from the machine and the lines before each of them: the
instructions that were executed, the values that were supplied, and how it broke off. From these
follow whether the session has closed with success, how much input its machine has left, and what
has been said about that.
-/

namespace Intcode

namespace Session

/-- The instruction that the machine executes in the next move, if it executes one. An input for
which it pauses is not executed. -/
def executed? (s : Session) : Option Fetched :=
  match s.phase, s.machine.fetch, s.machine.step.1 with
  | .executing, .ok i, .ok signal => if signal = .awaitingInput then none else some i
  | _, _, _ => none

/-- The values that are supplied in the next move: those of a line, if one is asked for. -/
def supplied (s : Session) (unread : List Line) : List Cell :=
  if s.phase = .prompting then unread.head?.elim [] Line.values else []

/-- In the next move the machine fails, or a line is asked for and there is none. -/
inductive Breaks (s : Session) (unread : List Line) : Prop
  | failure {f : Fault} {m : Machine} (phase : s.phase = .executing)
      (step : s.machine.step = (.error f, m))
  | hangUp (phase : s.phase = .prompting) (unread : unread = [])

/-- What is said of the input that is left, when the session has been closed with success. -/
def leftover (s : Session) : List Nat :=
  if s.phase = .closed true ∧ s.machine.queue.size ≠ 0 then [s.machine.queue.size] else []

end Session

namespace Move

/-- The instructions that are executed in the moves. -/
def executed (course : List Move) : List Fetched := course.filterMap fun x ↦ x.session.executed?

/-- The number of inputs among them. -/
def inputs (course : List Move) : Nat := (executed course).countP fun i ↦ i.opcode = .input

/-- The values that are supplied in the moves. -/
def supplied (course : List Move) : List Cell :=
  course.flatMap fun x ↦ x.session.supplied x.unread

variable {s : Session} {unread : List Line} {new : List Event} {course : List Move}

theorem executed_cons : executed (⟨s, unread, new⟩ :: course) =
    s.executed?.toList ++ executed course := by
  unfold executed
  cases hs : s.executed? with
  | none => exact List.filterMap_cons_none hs
  | some i => exact List.filterMap_cons_some hs

theorem inputs_cons : inputs (⟨s, unread, new⟩ :: course) =
    s.executed?.toList.countP (fun i ↦ i.opcode = .input) + inputs course := by
  rw [inputs, executed_cons, List.countP_append]
  rfl

theorem supplied_cons : supplied (⟨s, unread, new⟩ :: course) =
    s.supplied unread ++ supplied course := rfl

end Move

namespace Machine

variable {m m' : Machine} {i : Fetched} {signal : Signal}

theorem Executes.exists_fetch (h : m.Executes signal m') : ∃ i, m.fetch = .ok i := by
  cases h <;> exact ⟨_, fetch_eq_ok_iff.2 ‹_›⟩

/-- Only an input takes a value from the queue. -/
theorem Executes.queue_size (h : m.Executes signal m') (hi : m.fetch = .ok i)
    (hsignal : signal ≠ .awaitingInput) :
    m'.queue.size + (if i.opcode = .input then 1 else 0) = m.queue.size := by
  cases h with
  | await => exact absurd rfl hsignal
  | input hstands _ hqueue =>
      cases hi.symm.trans (fetch_eq_ok_iff.2 hstands)
      simp [Queue.size, hqueue, Instruction.opcode]
  | binary hstands | output hstands | jump hstands | pass hstands | adjustBase hstands
  | halt hstands =>
      cases hi.symm.trans (fetch_eq_ok_iff.2 hstands)
      simp [Queue.size, Instruction.opcode]

theorem Executes.halted_iff (h : m.Executes signal m') (hi : m.fetch = .ok i) :
    m'.status = .halted ↔ i = .halt := by
  cases h with
  | output hstands =>
      cases hi.symm.trans (fetch_eq_ok_iff.2 hstands)
      cases hpauses : m.config.pauseOnOutput <;> simp
  | binary hstands | input hstands | await hstands | jump hstands | pass hstands
  | adjustBase hstands | halt hstands =>
      cases hi.symm.trans (fetch_eq_ok_iff.2 hstands)
      simp

end Machine

namespace Session

variable {s s' : Session} {m : Machine} {signal : Signal} {unread unread' : List Line}
  {new : List Event} {course : List Move}

/-! ## One move -/

theorem executed?_of_step (hs : s.Coherent) (hphase : s.phase = .executing)
    (hstep : s.machine.step = (.ok signal, m)) (hstatus : m.status ≠ .paused .input) :
    ∃ i, s.executed? = some i ∧ (m.status = .halted ↔ i = .halt) ∧
      m.queue.size + (if i.opcode = .input then 1 else 0) = s.machine.queue.size := by
  have hx := (Machine.step_eq_ok_iff (hs.of_executing hphase)).1 hstep
  have hsignal := hx.ne_awaitingInput hstatus
  obtain ⟨i, hi⟩ := hx.exists_fetch
  exact ⟨i, by simp [executed?, hphase, hi, hstep, hsignal], hx.halted_iff hi,
    hx.queue_size hi hsignal⟩

theorem executed?_of_await (hs : s.Coherent) (hphase : s.phase = .executing)
    (hstep : s.machine.step = (.ok signal, m)) (hstatus : m.status = .paused .input) :
    s.executed? = none ∧ m.queue = s.machine.queue := by
  have hx := (Machine.step_eq_ok_iff (hs.of_executing hphase)).1 hstep
  obtain rfl := hx.paused_input_iff.1 hstatus
  obtain rfl := Machine.eq_of_step_eq_awaitingInput hstep
  obtain ⟨i, hi⟩ := hx.exists_fetch
  exact ⟨by simp [executed?, hphase, hi, hstep], rfl⟩

theorem executed?_of_fail {f : Fault} (hstep : s.machine.step = (.error f, m)) :
    s.executed? = none := by
  simp [executed?, hstep]

theorem executed?_of_prompting (hphase : s.phase = .prompting) : s.executed? = none := by
  simp [executed?, hphase]

theorem supplied_of_executing (hphase : s.phase = .executing) : s.supplied unread = [] := by
  simp [supplied, hphase]

/-- The values that are left are those that were there and those that are supplied, without one if
an input is executed. -/
theorem Moves.queue_size (h : s.Moves unread s' unread' new) (hs : s.Coherent) :
    s'.machine.queue.size + s.executed?.toList.countP (fun i ↦ i.opcode = .input) =
      s.machine.queue.size + (s.supplied unread).length := by
  cases h with
  | fail hphase hstep =>
      obtain ⟨-, rfl⟩ := Machine.eq_of_step_eq_error hstep
      simp [executed?_of_fail hstep, supplied_of_executing hphase]
  | go hphase hstep hstatus | halt hphase hstep hstatus =>
      obtain ⟨i, hi, -, hqueue⟩ := executed?_of_step hs hphase hstep (by simp [hstatus])
      simpa [hi, supplied_of_executing hphase, List.countP_singleton] using hqueue
  | @put _ _ m hphase hstep hstatus =>
      obtain ⟨i, hi, -, hqueue⟩ := executed?_of_step hs hphase hstep (by simp [hstatus])
      have hresumed : (m.takeQueue.2.start m.takeQueue.1).queue = m.queue :=
        Machine.queue_start (by simp [Machine.takeQueue, hstatus]) _
      simpa [hi, supplied_of_executing hphase, List.countP_singleton, hresumed] using hqueue
  | await hphase hstep hstatus =>
      obtain ⟨hnone, hqueue⟩ := executed?_of_await hs hphase hstep hstatus
      simp [hnone, supplied_of_executing hphase, hqueue]
  | hangUp hphase => simp [executed?_of_prompting hphase, supplied]
  | reject hphase hread =>
      simp [executed?_of_prompting hphase, supplied, Line.values_of_read_eq_error hread]
  | @accept _ _ values hphase hread =>
      have htaken : s.machine.takeQueue.2.status ≠ .halted := (hs.of_prompting hphase).1
      have hextended : (s.machine.takeQueue.2.start (s.machine.takeQueue.1.extend values)).queue =
          s.machine.queue.extend values := Machine.queue_start htaken _
      simp [executed?_of_prompting hphase, supplied, hphase, Line.values_of_read hread, hextended,
        Queue.size]

/-- The memory of the machine keeps its size. -/
theorem Moves.capacity_eq (h : s.Moves unread s' unread' new) :
    s'.machine.memory.capacity = s.machine.memory.capacity := by
  have hstepped {r : Except Fault Signal} {m : Machine} (hstep : s.machine.step = (r, m)) :
      m.memory.capacity = s.machine.memory.capacity := by
    rw [← s.machine.capacity_step, hstep]
  cases h with
  | fail _ hstep | go _ hstep | await _ hstep | halt _ hstep => exact hstepped hstep
  | @put _ _ m _ hstep =>
      have hresumed : (m.takeQueue.2.start m.takeQueue.1).memory = m.memory :=
        Machine.memory_start _
      exact (congrArg Memory.capacity hresumed).trans (hstepped hstep)
  | hangUp | reject => rfl
  | accept => exact congrArg Memory.capacity (Machine.memory_start _)

/-- A session is closed with success by a halt. -/
theorem Moves.success_iff (h : s.Moves unread s' unread' new) (hs : s.Coherent) :
    s'.phase = .closed true ↔ s.executed? = some .halt := by
  cases h with
  | fail hphase hstep => simp [executed?_of_fail hstep]
  | go hphase hstep hstatus | put hphase hstep hstatus | halt hphase hstep hstatus =>
      obtain ⟨i, hi, hhalt, -⟩ := executed?_of_step hs hphase hstep (by simp [hstatus])
      simp [hi, ← hhalt, hstatus, hphase]
  | await hphase hstep hstatus =>
      simp [(executed?_of_await hs hphase hstep hstatus).1]
  | hangUp hphase | reject hphase | accept hphase => simp [executed?_of_prompting hphase, hphase]

/-- A session is closed without success by a failure, or for want of a line. -/
theorem Moves.failure_iff (h : s.Moves unread s' unread' new) :
    s'.phase = .closed false ↔ s.Breaks unread := by
  cases h with
  | fail hphase hstep => exact ⟨fun _ ↦ .failure hphase hstep, fun _ ↦ rfl⟩
  | go hphase hstep | put hphase hstep | await hphase hstep | halt hphase hstep =>
      constructor
      · intro hclosed
        simp [hphase] at hclosed
      · rintro (⟨_, herror⟩ | ⟨hprompting, _⟩)
        · rw [hstep] at herror
          cases herror
        · rw [hphase] at hprompting
          cases hprompting
  | hangUp hphase => exact ⟨fun _ ↦ .hangUp hphase rfl, fun _ ↦ rfl⟩
  | reject hphase | accept hphase =>
      constructor
      · intro hclosed
        simp [hphase] at hclosed
      · rintro (⟨hexecuting, _⟩ | ⟨_, hnone⟩)
        · rw [hphase] at hexecuting
          cases hexecuting
        · cases hnone

theorem filterMap_leftover?_announce {traced : Bool} :
    (announce traced m).filterMap Event.leftover? = [] := by
  refine List.filterMap_eq_nil_iff.2 fun e he ↦ ?_
  obtain ⟨i, -, -, rfl⟩ := eq_of_mem_announce he
  rfl

theorem filterMap_leftover?_unprinted {printed : Nat} :
    (unprinted printed m).filterMap Event.leftover? = [] := by
  refine List.filterMap_eq_nil_iff.2 fun e he ↦ ?_
  obtain ⟨v, rfl⟩ := eq_of_mem_unprinted he
  rfl

/-- Of what is shown of a machine that has halted, only the first notice is about its input. -/
theorem filterMap_leftover?_summary {dump : Option Span} :
    (summary dump m).filterMap Event.leftover? =
      if m.queue.size ≠ 0 then [m.queue.size] else [] := by
  have hdumped (span : Span) : (dumpCells m.memory span).filterMap Event.leftover? = [] := by
    refine List.filterMap_eq_nil_iff.2 fun e he ↦ ?_
    obtain rfl | ⟨i, v, rfl⟩ := eq_of_mem_dumpCells he <;> rfl
  have hleft : (if m.queue.isEmpty then [] else [Event.notice (.leftover m.queue.size)]).filterMap
      Event.leftover? = if m.queue.size ≠ 0 then [m.queue.size] else [] := by
    cases hvalues : m.queue.values <;> simp [Queue.isEmpty, Queue.size, hvalues, Event.leftover?]
  cases dump with
  | none => simp only [summary, List.filterMap_append, hleft, List.filterMap_nil, List.append_nil,
      List.filterMap_cons, Event.leftover?]
  | some span => simp only [summary, List.filterMap_append, hleft, hdumped, List.append_nil,
      List.filterMap_cons, Event.leftover?, List.filterMap_nil]

theorem Moves.leftover_eq (h : s.Moves unread s' unread' new) :
    new.filterMap Event.leftover? = s'.leftover := by
  cases h with
  | halt =>
      simp [filterMap_leftover?_announce, filterMap_leftover?_unprinted,
        filterMap_leftover?_summary, leftover]
  | fail hphase | go hphase | put hphase | await hphase =>
      simp [filterMap_leftover?_announce, filterMap_leftover?_unprinted, Event.leftover?, leftover,
        hphase]
  | hangUp hphase | reject hphase | accept hphase => simp [Event.leftover?, leftover, hphase]

/-! ## The whole course -/

theorem Course.queue_size (h : s.Course unread course s') (hs : s.Coherent) :
    s'.machine.queue.size + Move.inputs course =
      s.machine.queue.size + (Move.supplied course).length := by
  induction h with
  | closed => rfl
  | move hm _ ih =>
      have hmove := hm.queue_size hs
      have hrest := ih (hs.moves hm)
      rw [Move.inputs_cons, Move.supplied_cons, List.length_append]
      omega

theorem Course.success_iff (h : s.Course unread course s') (hs : s.Coherent) :
    s'.phase = .closed true ↔ s.phase = .closed true ∨ .halt ∈ Move.executed course := by
  induction h with
  | closed => simp [Move.executed]
  | move hm _ ih =>
      rw [ih (hs.moves hm), hm.success_iff hs, Move.executed_cons, List.mem_append,
        Option.mem_toList]
      simp [hm.isOpen.not_closed]

theorem Course.failure_iff (h : s.Course unread course s') :
    s'.phase = .closed false ↔
      s.phase = .closed false ∨ ∃ x ∈ course, x.session.Breaks x.unread := by
  induction h with
  | closed => simp
  | move hm _ ih =>
      rw [ih, hm.failure_iff]
      simp [hm.isOpen.not_closed]

theorem Course.leftover_eq (h : s.Course unread course s') (hs : s.Open) :
    (Move.shown course).filterMap Event.leftover? = s'.leftover := by
  induction h with
  | closed hphase => exact absurd hphase hs.not_closed
  | @move s s₁ s' unread unread' new course hm hrest ih =>
      rw [Move.shown_cons, List.filterMap_append, hm.leftover_eq]
      obtain hopen | ⟨success, hclosed⟩ := s₁.open_or_closed
      · rw [ih hopen]
        simp [leftover, hopen.not_closed]
      · cases hrest with
        | closed => simp
        | move hm₁ => exact absurd hclosed hm₁.isOpen.not_closed

end Session

end Intcode
