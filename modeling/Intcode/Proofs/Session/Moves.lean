import Intcode.Session.Transcript

/-!
# The moves of a session

What one step of a session does, with a row for each way in which it can go. A session that is
executing makes one step of its machine, and what becomes of it depends on how the machine stands
then; a session that is prompting takes a line, or closes if there is none.
-/

namespace Intcode

/-- The session is not closed. -/
def Session.Open (s : Session) : Prop := s.phase = .executing ∨ s.phase = .prompting

/-- The session `s` makes a step: the lines that are waiting before and after it, what becomes of
the session, and the events that the step causes. -/
inductive Session.Moves (s : Session) : List Line → Session → List Line → List Event → Prop
  /-- The machine fails. -/
  | fail {unread : List Line} {f : Fault} {m : Machine} (phase : s.phase = .executing)
      (step : s.machine.step = (.error f, m)) :
      Moves s unread
        { s with machine := m, printed := m.output.size, phase := .closed false } unread
        (announce s.traced s.machine ++ unprinted s.printed m ++ [.notice (.failed m.label f)])
  /-- The machine goes on. -/
  | go {unread : List Line} {signal : Signal} {m : Machine} (phase : s.phase = .executing)
      (step : s.machine.step = (.ok signal, m)) (status : m.status = .running) :
      Moves s unread { s with machine := m } unread (announce s.traced s.machine)
  /-- The machine pauses after an output, and is set going with the input it has left. -/
  | put {unread : List Line} {signal : Signal} {m : Machine} (phase : s.phase = .executing)
      (step : s.machine.step = (.ok signal, m)) (status : m.status = .paused .output) :
      Moves s unread
        { s with machine := m.takeQueue.2.start m.takeQueue.1, printed := m.output.size } unread
        (announce s.traced s.machine ++ unprinted s.printed m)
  /-- The machine pauses before an input. -/
  | await {unread : List Line} {signal : Signal} {m : Machine} (phase : s.phase = .executing)
      (step : s.machine.step = (.ok signal, m)) (status : m.status = .paused .input) :
      Moves s unread { s with machine := m, printed := m.output.size, phase := .prompting } unread
        (announce s.traced s.machine ++ unprinted s.printed m ++ [.prompt m.label])
  | halt {unread : List Line} {signal : Signal} {m : Machine} (phase : s.phase = .executing)
      (step : s.machine.step = (.ok signal, m)) (status : m.status = .halted) :
      Moves s unread { s with machine := m, printed := m.output.size, phase := .closed true } unread
        (announce s.traced s.machine ++ unprinted s.printed m ++ summary s.dump m)
  /-- There is no line to take. -/
  | hangUp (phase : s.phase = .prompting) :
      Moves s [] { s with phase := .closed false } [] [.notice (.inputClosed s.machine.label)]
  /-- The line holds no values. -/
  | reject {line : Line} {lines : List Line} {error : Line.Error} (phase : s.phase = .prompting)
      (read : line.read = .error error) :
      Moves s (line :: lines) s lines [.notice (.badLine error), .prompt s.machine.label]
  /-- The line holds values, and the machine is set going with them. -/
  | accept {line : Line} {lines : List Line} {values : List Cell} (phase : s.phase = .prompting)
      (read : line.read = .ok values) :
      Moves s (line :: lines)
        { s with
          machine := s.machine.takeQueue.2.start (s.machine.takeQueue.1.extend values)
          phase := .executing }
        lines []

namespace Session

variable {s s' : Session} {unread unread' : List Line} {new : List Event} {success : Bool}

theorem Open.not_closed (h : s.Open) : s.phase ≠ .closed success := by
  rcases h with h | h <;> simp [h]

theorem open_or_closed (s : Session) : s.Open ∨ ∃ success, s.phase = .closed success := by
  cases hphase : s.phase with
  | executing => exact .inl (.inl hphase)
  | prompting => exact .inl (.inr hphase)
  | closed success => exact .inr ⟨success, rfl⟩

/-- Only open sessions move. -/
theorem Moves.isOpen (hs : s.Moves unread s' unread' new) : s.Open := by
  cases hs with
  | fail h | go h | put h | await h | halt h => exact .inl h
  | hangUp h | reject h | accept h => exact .inr h

/-- What is to be dumped is settled before the session. -/
theorem Moves.dump_eq (hs : s.Moves unread s' unread' new) : s'.dump = s.dump := by
  cases hs <;> rfl

theorem moves_execute (h : s.phase = .executing) :
    s.Moves unread s.execute.1 unread s.execute.2 := by
  obtain ⟨m, printed, phase, traced, dump⟩ := s
  obtain rfl : phase = .executing := h
  cases hs : m.step with
  | mk r m' =>
      simp only [execute, hs]
      cases r with
      | error f => exact .fail rfl hs
      | ok signal =>
          cases hstatus : m'.status with
          | running =>
              simp only [hstatus]
              exact .go rfl hs hstatus
          | paused pause =>
              cases pause with
              | output =>
                  simp only [hstatus]
                  exact .put rfl hs hstatus
              | input =>
                  simp only [hstatus]
                  exact .await rfl hs hstatus
          | halted =>
              simp only [hstatus]
              exact .halt rfl hs hstatus

theorem moves_answer (h : s.phase = .prompting) :
    s.Moves unread (s.answer unread.head?).1 unread.tail (s.answer unread.head?).2 := by
  cases unread with
  | nil => exact .hangUp h
  | cons line lines =>
      simp only [List.head?_cons, List.tail_cons, answer]
      cases hread : line.read with
      | error error => exact .reject h hread
      | ok values => exact .accept h hread

end Session

/-- A transcript follows the moves of its session, until it is closed. -/
theorem Transcript.moves_advance {t : Transcript} (h : t.session.Open) :
    ∃ new, t.session.Moves t.unread t.advance.session t.advance.unread new ∧
      t.advance.events.toList = t.events.toList ++ new := by
  obtain ⟨s, unread, events⟩ := t
  rcases h with h | h
  · have hadvance : advance ⟨s, unread, events⟩ = ⟨s.execute.1, unread, events ++ s.execute.2⟩ := by
      have hphase : s.phase = .executing := h
      simp only [advance, hphase]
    rw [hadvance]
    exact ⟨_, Session.moves_execute h, by simp⟩
  · have hadvance : advance ⟨s, unread, events⟩ = ⟨(s.answer unread.head?).1, unread.tail,
        events ++ (s.answer unread.head?).2⟩ := by
      have hphase : s.phase = .prompting := h
      simp only [advance, hphase]
    rw [hadvance]
    exact ⟨_, Session.moves_answer h, by simp⟩

end Intcode
