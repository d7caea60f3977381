import Intcode.Proofs.Machine.Runs
import Intcode.Proofs.Session.Closing
import Intcode.Proofs.Session.Moves

/-!
# What a session has written

The events of a session go to two streams, and each stream is the text of its events one after the
other. On standard output stand the first values of the output log, as many as have been printed;
and when the session is closed, all of them, followed by the dump if it has been a success. Where
the session has paused makes no difference.
-/

namespace Intcode

namespace Event

/-- The texts of events, one after the other. -/
def gather (text : Event → String) (events : List Event) : String := .join (events.map text)

variable {text : Event → String} {events : List Event}

@[simp] theorem gather_nil : gather text [] = "" := String.join_nil

@[simp] theorem gather_cons (e : Event) :
    gather text (e :: events) = text e ++ gather text events := by
  rw [gather, List.map_cons, String.join_cons]
  rfl

@[simp] theorem gather_append (more : List Event) :
    gather text (events ++ more) = gather text events ++ gather text more := by
  rw [gather, List.map_append, String.join_append]
  rfl

/-- Events without text add none. -/
theorem gather_eq_empty (h : ∀ e ∈ events, text e = "") : gather text events = "" := by
  induction events with
  | nil => exact gather_nil
  | cons e events ih =>
      obtain ⟨he, hevents⟩ := List.forall_mem_cons.1 h
      rw [gather_cons, he, ih hevents, String.empty_append]

end Event

namespace Machine

variable {m : Machine}

/-- A step adds to the output log or leaves it as it is. -/
theorem output_step (m : Machine) : ∃ new, m.step.2.output.toList = m.output.toList ++ new := by
  by_cases hhalted : m.status = .halted
  · rw [step_of_halted hhalted]
    exact ⟨[], (List.append_nil _).symm⟩
  · cases hplan : m.plan with
    | error cause =>
        rw [step_of_plan_eq_error hhalted hplan]
        exact ⟨[], (List.append_nil _).symm⟩
    | ok e =>
        rw [step_of_plan_eq_ok hhalted hplan]
        rcases e with ⟨_ | _ | _ | v | _ | _ | _, _⟩
        case emit => exact ⟨[v], by simp [perform]⟩
        all_goals exact ⟨[], (List.append_nil _).symm⟩

end Machine

namespace Session

open Event

variable {s : Session} {m : Machine} {printed : Nat} {traced : Bool} {dump : Option Span}

theorem unprinted_eq_drop : unprinted printed m = (m.output.toList.drop printed).map .value := by
  have hextract :
      (m.output.extract printed m.output.size).toList = m.output.toList.drop printed := by
    simp [List.take_of_length_le]
  rw [unprinted, hextract]

/-- What is announced is the instruction that the machine has fetched, if it is to be traced. -/
theorem eq_of_mem_announce {e : Event} (he : e ∈ announce traced m) :
    ∃ i, traced = true ∧ m.fetch = .ok i ∧ e = .trace m.label m.pointer m.base i := by
  unfold announce at he
  split at he
  · rename_i htraced
    split at he
    · rename_i i hfetch
      exact ⟨i, htraced, hfetch, List.mem_singleton.1 he⟩
    · cases he
  · cases he

theorem eq_of_mem_unprinted {e : Event} (he : e ∈ unprinted printed m) : ∃ v, e = .value v := by
  obtain ⟨v, -, rfl⟩ := List.mem_map.1 he
  exact ⟨v, rfl⟩

/-- Traces are not written on standard output. -/
@[simp] theorem gather_stdout_announce : gather stdout (announce traced m) = "" := by
  refine gather_eq_empty fun e he ↦ ?_
  obtain ⟨i, -, -, rfl⟩ := eq_of_mem_announce he
  rfl

theorem eq_of_mem_dumpCells {memory : Memory} {span : Span} {e : Event}
    (he : e ∈ dumpCells memory span) :
    e = .notice (.dumpClipped memory.capacity) ∨ ∃ i v, e = .cell i v := by
  obtain he | he := List.mem_append.1 he
  · split at he
    · exact .inl (List.mem_singleton.1 he)
    · cases he
  · obtain ⟨i, hi, rfl⟩ := List.mem_mapIdx.1 he
    exact .inr ⟨_, _, rfl⟩

theorem eq_of_mem_summary {e : Event} (he : e ∈ summary dump m) :
    e = .notice (.leftover m.queue.size) ∨
      e = .notice (.halted m.label m.pointer m.output.size) ∨
      e = .notice (.dumpClipped m.memory.capacity) ∨ ∃ i v, e = .cell i v := by
  simp only [summary, List.mem_append] at he
  obtain (he | he) | he := he
  · split at he
    · cases he
    · exact .inl (List.mem_singleton.1 he)
  · exact .inr (.inl (List.mem_singleton.1 he))
  · split at he
    · exact .inr (.inr (eq_of_mem_dumpCells he))
    · cases he

/-- What a session has written on standard output: the values that have been printed, and after a
success what is shown of a machine that has halted. -/
def written (s : Session) : List Event :=
  (s.machine.output.toList.take s.printed).map .value ++
    if s.phase = .closed true then summary s.dump s.machine else []

/-- The texts that have been gathered are those of a session that opens with `opening`. Everything
has been printed, except while the machine is executing. -/
structure Tells (s : Session) (opening gathered : String) : Prop where
  gathered_eq : gathered = opening ++ gather stdout s.written
  printed_le : s.printed ≤ s.machine.output.size
  size_le : s.phase ≠ .executing → s.machine.output.size ≤ s.printed

variable {opening gathered : String}

/-- Of a session that is not closed, only values have been written. -/
theorem written_of_open (h : s.phase ≠ .closed true) :
    s.written = (s.machine.output.toList.take s.printed).map .value := by
  rw [written, if_neg h, List.append_nil]

theorem written_of_size_le (h : s.machine.output.size ≤ s.printed) :
    s.written = s.machine.output.toList.map .value ++
      if s.phase = .closed true then summary s.dump s.machine else [] := by
  have hall : s.machine.output.toList.take s.printed = s.machine.output.toList :=
    List.take_of_length_le h
  rw [written, hall]

theorem Tells.of_printed (hprinted : s.printed = s.machine.output.size)
    (hgathered : gathered = opening ++ gather stdout (s.machine.output.toList.map .value ++
      if s.phase = .closed true then summary s.dump s.machine else [])) :
    s.Tells opening gathered where
  gathered_eq := by rw [hgathered, written_of_size_le (Nat.le_of_eq hprinted.symm)]
  printed_le := Nat.le_of_eq hprinted
  size_le _ := Nat.le_of_eq hprinted.symm

/-- The values that have been printed and those that have not are the output log, also if it has
grown since. -/
theorem take_append_unprinted {m' : Machine} {new : List Cell}
    (hnew : m'.output.toList = m.output.toList ++ new) (hle : printed ≤ m.output.size) :
    (m.output.toList.take printed).map .value ++ unprinted printed m' =
      m'.output.toList.map .value := by
  have htake : m'.output.toList.take printed = m.output.toList.take printed := by
    rw [hnew, List.take_append_of_le_length (by simpa using hle)]
  rw [unprinted_eq_drop, ← htake, ← List.map_append, List.take_append_drop]

/-- A step keeps what has been told: it writes the values that it counts as printed. -/
theorem Tells.moves {s' : Session} {unread unread' : List Line} {new : List Event}
    (h : s.Tells opening gathered) (hs : s.Moves unread s' unread' new) :
    s'.Tells opening (gathered ++ gather stdout new) := by
  obtain ⟨hgathered, hle, hsize⟩ := h
  have hopen : s.phase ≠ .closed true := hs.isOpen.not_closed
  rw [written_of_open hopen] at hgathered
  -- After a step of the machine, what was printed and what is printed now are all of the output.
  have hall {m : Machine} (hm : s.machine.step.2 = m) :
      gathered ++ gather stdout (unprinted s.printed m) =
        opening ++ gather stdout (m.output.toList.map .value) := by
    obtain ⟨more, hmore⟩ := s.machine.output_step
    rw [hgathered, String.append_assoc, ← gather_append, ← hm, take_append_unprinted hmore hle]
  cases hs with
  | fail hphase hstep =>
      refine .of_printed rfl ?_
      simp [Event.stdout, hall (congrArg Prod.snd hstep)]
  | @go _ signal m hphase hstep hstatus =>
      obtain ⟨more, hmore⟩ := s.machine.output_step
      rw [hstep] at hmore
      have hsame : m.output.toList.take s.printed = s.machine.output.toList.take s.printed := by
        rw [hmore, List.take_append_of_le_length (by simpa using hle)]
      have hgrown : s.machine.output.size ≤ m.output.size := by
        have hlength := congrArg List.length hmore
        simp only [List.length_append, Array.length_toList] at hlength
        omega
      refine ⟨?_, Nat.le_trans hle hgrown, fun hne ↦ absurd hphase hne⟩
      rw [written_of_open (by exact hopen), gather_stdout_announce, String.append_empty, hsame]
      exact hgathered
  | @put _ signal m hphase hstep hstatus =>
      have houtput : (m.takeQueue.2.start m.takeQueue.1).output = m.output := Machine.output_start _
      refine .of_printed (congrArg Array.size houtput).symm ?_
      simp [hphase, houtput, hall (congrArg Prod.snd hstep)]
  | await hphase hstep hstatus =>
      refine .of_printed rfl ?_
      simp [Event.stdout, hall (congrArg Prod.snd hstep)]
  | halt hphase hstep hstatus =>
      refine .of_printed rfl ?_
      simp only [gather_append, gather_stdout_announce, String.empty_append, if_true,
        ← String.append_assoc, hall (congrArg Prod.snd hstep)]
  | hangUp hphase =>
      refine ⟨?_, hle, fun _ ↦ hsize (by simp [hphase])⟩
      rw [written_of_open (by simp)]
      simpa [Event.stdout] using hgathered
  | reject hphase hread =>
      refine ⟨?_, hle, hsize⟩
      rw [written_of_open hopen]
      simpa [Event.stdout] using hgathered
  | @accept line lines values hphase hread =>
      have houtput : (s.machine.takeQueue.2.start (s.machine.takeQueue.1.extend values)).output =
          s.machine.output := Machine.output_start _
      refine ⟨?_, ?_, fun hne ↦ absurd rfl hne⟩
      · rw [written_of_open (by simp), houtput]
        simpa using hgathered
      · rw [houtput]
        exact hle

/-- Of a machine that has halted, only the memory is written. -/
theorem gather_stdout_summary :
    gather stdout (summary dump m) = gather stdout (dump.elim [] (dumpCells m.memory)) := by
  simp only [summary, gather_append]
  cases dump <;> split <;> simp [Event.stdout]

/-- Sessions that have been closed alike have written the same, if their machines have put out the
same and have left the same memory. -/
theorem Tells.eq_of_closed {s' : Session} {gathered' : String} {success : Bool}
    (h : s.Tells opening gathered) (h' : s'.Tells opening gathered')
    (hphase : s.phase = .closed success) (hphase' : s'.phase = .closed success)
    (houtput : s.machine.output = s'.machine.output)
    (hmemory : s.machine.memory = s'.machine.memory) (hdump : s.dump = s'.dump) :
    gathered = gathered' := by
  rw [h.gathered_eq, h'.gathered_eq, written_of_size_le (h.size_le (by simp [hphase])),
    written_of_size_le (h'.size_le (by simp [hphase'])), hphase, hphase', houtput, hdump,
    gather_append, gather_append]
  split
  · rw [gather_stdout_summary, gather_stdout_summary, hmemory]
  · rfl

end Session

/-- The events of the transcript tell what its session has written, after `opening`. -/
def Transcript.Tells (t : Transcript) (opening : String) : Prop :=
  t.session.Tells opening (Event.gather Event.stdout t.events.toList)

namespace Transcript

variable {t t' : Transcript} {opening : String}

theorem Tells.advance (h : t.Tells opening) : t.advance.Tells opening := by
  obtain hopen | ⟨success, hclosed⟩ := t.session.open_or_closed
  · obtain ⟨new, hmoves, hevents⟩ := moves_advance hopen
    rw [Tells, hevents, Event.gather_append]
    exact Session.Tells.moves h hmoves
  · rw [advance_of_closed hclosed]
    exact h

theorem Tells.closes (hcloses : Closes t t') (h : t.Tells opening) : t'.Tells opening :=
  hcloses.invariant (P := (Tells · opening)) (fun _ ↦ Tells.advance) h

theorem Closes.dump_eq (h : Closes t t') : t'.session.dump = t.session.dump := by
  refine h.invariant (P := fun t' ↦ t'.session.dump = t.session.dump) (fun t₁ ht₁ ↦ ?_) rfl
  obtain hopen | ⟨success, hclosed⟩ := t₁.session.open_or_closed
  · obtain ⟨_, hmoves, -⟩ := moves_advance hopen
    exact hmoves.dump_eq.trans ht₁
  · rwa [advance_of_closed hclosed]

/-- A session at its start has written nothing. -/
theorem Tells.ofMachine {m : Machine} {inputs : List Cell} {traced : Bool} {dump : Option Span}
    {lines : List Line} {events : List Event} :
    Tells ⟨.ofMachine m inputs traced dump, lines, events.toArray⟩
      (Event.gather Event.stdout events) := by
  refine ⟨?_, Nat.zero_le _, fun hne ↦ absurd rfl hne⟩
  rw [Session.written_of_open (by simp [Session.ofMachine])]
  simp [Session.ofMachine]

end Transcript

end Intcode
