import Intcode.Proofs.Session.Closing
import Intcode.Proofs.Session.Moves

/-!
# The course of a session

The course of a session lists its moves, in order, up to the one that closes it. What a session has
shown when it is closed is what its moves have shown, one after the other, so that a statement about
the events of a session is one about its moves.
-/

namespace Intcode

/-- A move that a session has made: the session and the lines that were waiting before it, and the
events that it has caused. -/
structure Move where
  session : Session
  unread : List Line
  events : List Event

/-- The session makes the moves of the list, and is closed then. -/
inductive Session.Course : Session → List Line → List Move → Session → Prop
  | closed {s : Session} {unread : List Line} {success : Bool} (phase : s.phase = .closed success) :
      Course s unread [] s
  | move {s s' s'' : Session} {unread unread' : List Line} {new : List Event} {course : List Move}
      (moves : s.Moves unread s' unread' new) (rest : Course s' unread' course s'') :
      Course s unread (⟨s, unread, new⟩ :: course) s''

/-- All that the moves have shown. -/
def Move.shown (course : List Move) : List Event := course.flatMap events

variable {s s' s'' : Session} {unread unread' : List Line} {new : List Event} {course : List Move}

@[simp] theorem Move.shown_nil : shown [] = [] := rfl

@[simp] theorem Move.shown_cons (x : Move) : shown (x :: course) = x.events ++ shown course := rfl

namespace Session

/-- What each move keeps, a session keeps along its course. -/
theorem Course.invariant {P : Session → Prop}
    (hmoves : ∀ {s s' unread unread' new}, s.Moves unread s' unread' new → P s → P s')
    (h : s.Course unread course s') (hs : P s) : P s' := by
  induction h with
  | closed => exact hs
  | move hm _ ih => exact ih (hmoves hm hs)

/-- There is one move that a session can make. -/
theorem Moves.advance_eq (h : s.Moves unread s' unread' new) (events : Array Event) :
    Transcript.advance ⟨s, unread, events⟩ = ⟨s', unread', events ++ new⟩ := by
  obtain ⟨m, printed, phase, traced, dump⟩ := s
  cases h with
  | fail hphase hstep | go hphase hstep hstatus | put hphase hstep hstatus
  | await hphase hstep hstatus | halt hphase hstep hstatus =>
      obtain rfl : phase = .executing := hphase
      have hstep : m.step = _ := hstep
      simp_all [Transcript.advance, execute]
  | hangUp hphase =>
      obtain rfl : phase = .prompting := hphase
      simp [Transcript.advance, answer]
  | reject hphase hread | accept hphase hread =>
      obtain rfl : phase = .prompting := hphase
      simp [Transcript.advance, answer, hread]

end Session

namespace Transcript

variable {t t' : Transcript}

theorem Closes.exists_course (h : Closes t t') :
    ∃ course, t.session.Course t.unread course t'.session ∧
      t'.events.toList = t.events.toList ++ Move.shown course := by
  induction h with
  | closed hphase => exact ⟨[], .closed hphase, (List.append_nil _).symm⟩
  | @next t t' hrest ih =>
      obtain hopen | ⟨success, hclosed⟩ := t.session.open_or_closed
      · obtain ⟨new, hmoves, hnew⟩ := moves_advance hopen
        obtain ⟨course, hcourse, hevents⟩ := ih
        refine ⟨⟨t.session, t.unread, new⟩ :: course, .move hmoves hcourse, ?_⟩
        rw [hevents, hnew, List.append_assoc, Move.shown_cons]
      · rw [advance_of_closed hclosed] at ih
        exact ih

theorem closes_of_course (h : s.Course unread course s') (events : Array Event) :
    ∃ t', Closes ⟨s, unread, events⟩ t' ∧ t'.session = s' ∧
      t'.events.toList = events.toList ++ Move.shown course := by
  induction h generalizing events with
  | closed hphase => exact ⟨_, .closed hphase, rfl, (List.append_nil _).symm⟩
  | @move s s' s'' unread unread' new course hmoves _ ih =>
      obtain ⟨t', hcloses, hsession, hevents⟩ := ih (events ++ new)
      rw [← hmoves.advance_eq] at hcloses
      refine ⟨t', .next hcloses, hsession, ?_⟩
      rw [hevents, Move.shown_cons, Array.toList_appendList, List.append_assoc]

end Transcript

end Intcode
