import Intcode.Proofs.Guarded.Machine
import Intcode.Proofs.Session.Moves
import Intcode.Proofs.Session.Written

/-!
# Guarded sessions

A session with guards. It looks into the output log of its machine from the place up to which the
log has been written, and this place is never past the end, because the log only grows. It looks
into memory only up to the end of memory, whatever span of addresses is to be dumped.
-/

namespace Intcode

/-- The machine of the session is one that can be reached and whose cells have addresses, and the
session has written no more values than the machine has put out. -/
structure Session.Sound (s : Session) : Prop where
  consistent : s.machine.Consistent
  capacity : s.machine.config.capacity < 2 ^ 63
  printed_le : s.printed ≤ s.machine.output.size

theorem Machine.size_output_le_step (m : Machine) : m.output.size ≤ m.step.2.output.size := by
  obtain ⟨new, hnew⟩ := m.output_step
  have hlength := congrArg List.length hnew
  rw [List.length_append, Array.length_toList, Array.length_toList] at hlength
  omega

namespace Session

variable {s s' : Session} {m : Machine} {unread unread' : List Line} {new : List Event}

theorem Sound.set_going (hm : m.Consistent) (hcapacity : m.config.capacity < 2 ^ 63)
    (hprinted : s.printed ≤ m.output.size) (queue : Queue) :
    Sound { s with machine := m.takeQueue.2.start queue } := by
  have htaken : m.takeQueue.2.Consistent := hm.serve .takeQueue
  refine ⟨htaken.start queue, ?_, ?_⟩
  · show (m.takeQueue.2.start queue).config.capacity < 2 ^ 63
    rwa [Machine.config_start]
  · show s.printed ≤ (m.takeQueue.2.start queue).output.size
    rwa [Machine.output_start]

theorem Moves.sound (h : s.Moves unread s' unread' new) (hs : s.Sound) : s'.Sound := by
  obtain ⟨hconsistent, hcapacity, hprinted⟩ := hs
  have hstep {r : Except Fault Signal} {m : Machine} (hm : s.machine.step = (r, m)) :
      m.Consistent ∧ m.config.capacity < 2 ^ 63 ∧ s.printed ≤ m.output.size := by
    have hnext := hconsistent.step
    have hsize := Nat.le_trans hprinted s.machine.size_output_le_step
    rw [hm] at hnext hsize
    exact ⟨hnext, Machine.config_of_step hm ▸ hcapacity, hsize⟩
  cases h with
  | fail _ hm | await _ hm | halt _ hm =>
      obtain ⟨hnext, hnextCapacity, -⟩ := hstep hm
      exact ⟨hnext, hnextCapacity, Nat.le_refl _⟩
  | go _ hm =>
      obtain ⟨hnext, hnextCapacity, hsize⟩ := hstep hm
      exact ⟨hnext, hnextCapacity, hsize⟩
  | @put _ _ m _ hm =>
      obtain ⟨hnext, hnextCapacity, -⟩ := hstep hm
      exact Sound.set_going (s := { s with printed := m.output.size }) hnext hnextCapacity
        (Nat.le_refl _) _
  | hangUp | reject => exact ⟨hconsistent, hcapacity, hprinted⟩
  | @accept _ _ values =>
      exact Sound.set_going (s := { s with phase := .executing }) hconsistent hcapacity hprinted _

end Session

namespace Guarded

variable {s : Session} {m : Machine} {printed : Nat} {t : Transcript}

/-! ## Events -/

/-- The outputs of a machine after the first `printed`. -/
def unprinted (printed : Nat) (m : Machine) : Guarded (List Event) := do
  return (← after m.output printed).toList.map .value

/-- As many cells as given, from an index on. -/
def cells (memory : Memory) (index : Nat) : Nat → Guarded (List Event)
  | 0 => return []
  | count + 1 => do
    let v ← found memory.cells[index]?
    return .cell index v :: (← cells memory (index + 1) count)

/-- The cells of a span, as far as memory reaches. -/
def dumpCells (memory : Memory) (span : Span) : Guarded (List Event) := do
  let stop := min span.stop memory.capacity
  let clipped := if stop < span.stop then [.notice (.dumpClipped memory.capacity)] else []
  return clipped ++ (← cells memory span.start (stop - span.start))

/-- What is shown of a machine that has halted. -/
def summary (dump : Option Span) (m : Machine) : Guarded (List Event) := do
  let leftover := if m.queue.isEmpty then [] else [.notice (.leftover m.queue.size)]
  let dumped ←
    match dump with
    | some span => dumpCells m.memory span
    | none => pure []
  return leftover ++ [.notice (.halted m.label m.pointer m.output.size)] ++ dumped

theorem unprinted_eq (h : printed ≤ m.output.size) :
    unprinted printed m = .ok (Session.unprinted printed m) := by
  rw [unprinted, after_eq h]
  rfl

theorem cells_eq (memory : Memory) {index count : Nat} (h : index + count ≤ memory.capacity) :
    cells memory index count = .ok ((memory.cells.extract index (index + count)).toList.mapIdx
      fun i v ↦ .cell (index + i) v) := by
  induction count generalizing index with
  | zero => simp [cells, pure, Except.pure]
  | succ count ih =>
      have hindex : index < memory.cells.size := by
        unfold Memory.capacity at h
        omega
      have hfound : found memory.cells[index]? = .ok memory.cells[index] := by
        rw [Array.getElem?_eq_getElem hindex]
        rfl
      have hfirst : (memory.cells.extract index (index + (count + 1))).toList =
          memory.cells[index] :: (memory.cells.extract (index + 1) (index + 1 + count)).toList := by
        have hdrop : memory.cells.toList.drop index =
            memory.cells[index] :: memory.cells.toList.drop (index + 1) :=
          List.drop_eq_getElem_cons (by simpa using hindex)
        have hcount : index + (count + 1) - index = count + 1 := by omega
        have hcount' : index + 1 + count - (index + 1) = count := by omega
        rw [Array.toList_extract, Array.toList_extract, List.extract_eq_take_drop,
          List.extract_eq_take_drop, hcount, hcount', hdrop, List.take_succ_cons]
      rw [cells, hfound, ok_bind, ih (by omega), ok_bind, hfirst, List.mapIdx_cons]
      simp only [Nat.add_zero, Nat.add_assoc, Nat.add_comm 1]
      rfl

theorem dumpCells_eq (memory : Memory) (span : Span) :
    dumpCells memory span = .ok (Session.dumpCells memory span) := by
  have hcells : cells memory span.start (min span.stop memory.capacity - span.start) =
      .ok ((memory.cells.extract span.start (min span.stop memory.capacity)).toList.mapIdx
        fun i v ↦ .cell (span.start + i) v) := by
    by_cases hle : span.start ≤ min span.stop memory.capacity
    · have hsum : span.start + (min span.stop memory.capacity - span.start) =
          min span.stop memory.capacity := Nat.add_sub_cancel' hle
      rw [cells_eq memory (by rw [hsum]; exact Nat.min_le_right _ _), hsum]
    · have hnone : min span.stop memory.capacity - span.start = 0 := by omega
      have hempty : memory.cells.extract span.start (min span.stop memory.capacity) = #[] :=
        Array.extract_empty_of_stop_le_start (by omega)
      rw [hnone, hempty]
      rfl
  rw [dumpCells, hcells]
  rfl

theorem summary_eq (dump : Option Span) (m : Machine) :
    summary dump m = .ok (Session.summary dump m) := by
  cases dump with
  | none => rfl
  | some span =>
      rw [summary, dumpCells_eq]
      rfl

/-! ## Steps -/

/-- Lets the machine of a session execute one instruction. -/
def proceed : Session → Guarded (Session × List Event)
  | ⟨m, printed, _, traced, dump⟩ => do
    let announced := Session.announce traced m
    match ← step m with
    | (.error fault, m) =>
      let events := announced ++ (← unprinted printed m) ++ [.notice (.failed m.label fault)]
      return (⟨m, m.output.size, .closed false, traced, dump⟩, events)
    | (.ok _, m) =>
      match m.status with
      | .running => return (⟨m, printed, .executing, traced, dump⟩, announced)
      | .paused .output =>
        let events := announced ++ (← unprinted printed m)
        let (queue, m') := m.takeQueue
        return (⟨m'.start queue, m.output.size, .executing, traced, dump⟩, events)
      | .paused .input =>
        let events := announced ++ (← unprinted printed m) ++ [.prompt m.label]
        return (⟨m, m.output.size, .prompting, traced, dump⟩, events)
      | .halted =>
        let events := announced ++ (← unprinted printed m) ++ (← summary dump m)
        return (⟨m, m.output.size, .closed true, traced, dump⟩, events)

/-- Moves a session by one step. -/
def advance : Transcript → Guarded Transcript
  | ⟨session, unread, events⟩ =>
    match session.phase with
    | .executing => do
      let (session, new) ← proceed session
      return ⟨session, unread, events ++ new⟩
    | .prompting =>
      let (session, new) := session.answer unread.head?
      return ⟨session, unread.tail, events ++ new⟩
    | .closed _ => return ⟨session, unread, events⟩

/-- Moves a session by at most `budget` steps. -/
def play : Nat → Transcript → Guarded Transcript
  | 0, t => return t
  | budget + 1, t =>
    match t.session.phase with
    | .closed _ => return t
    | .executing | .prompting => do play budget (← advance t)

theorem proceed_eq (hs : s.Sound) : proceed s = .ok s.execute := by
  obtain ⟨m, printed, phase, traced, dump⟩ := s
  obtain ⟨hconsistent, hcapacity, hprinted⟩ := hs
  have hsize : printed ≤ m.step.2.output.size :=
    Nat.le_trans hprinted m.size_output_le_step
  unfold proceed Session.execute
  simp only [step_eq (fits_of_consistent hconsistent hcapacity), ok_bind]
  rcases hstep : m.step with ⟨fault | signal, m'⟩
  · rw [hstep] at hsize
    simp only [unprinted_eq hsize]
    rfl
  · rw [hstep] at hsize
    simp only [unprinted_eq hsize, summary_eq]
    cases m'.status with
    | running => rfl
    | paused pause => cases pause <;> rfl
    | halted => rfl

theorem advance_eq (h : t.session.Sound) : advance t = .ok t.advance := by
  obtain ⟨s, unread, events⟩ := t
  have hs : s.Sound := h
  unfold advance Transcript.advance
  cases hphase : s.phase with
  | executing =>
      simp only [hphase, proceed_eq hs]
      rfl
  | prompting =>
      simp only [hphase]
      rfl
  | closed success =>
      simp only [hphase]
      rfl

theorem play_eq (h : t.session.Sound) (budget : Nat) :
    play budget t = .ok (Transcript.play budget t) := by
  induction budget generalizing t with
  | zero => rfl
  | succ budget ih =>
      unfold play Transcript.play
      obtain hopen | ⟨success, hclosed⟩ := t.session.open_or_closed
      · obtain ⟨new, hmoves, -⟩ := Transcript.moves_advance hopen
        have hrest := ih (hmoves.sound h)
        rcases hopen with hphase | hphase <;>
        · simp only [hphase, advance_eq h, ok_bind, hrest]
      · simp only [hclosed]
        rfl

end Guarded

end Intcode
