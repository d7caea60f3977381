import Intcode.Session.Basic

/-!
# Transcripts

A session together with the lines that are waiting on standard input and all that has been shown. A
transcript is played step by step; since a program may run for ever, the number of steps is given.
-/

namespace Intcode

/-- A session, its surroundings, and its past. -/
structure Transcript where
  session : Session
  /-- The lines that have not been read yet. -/
  unread : List Line
  /-- What has been shown so far. -/
  events : Array Event

namespace Transcript

/-- Moves the session by one step. A closed session stays as it is. -/
def advance : Transcript → Transcript
  | ⟨session, unread, events⟩ =>
    match session.phase with
    | .executing =>
      let (session, new) := session.execute
      ⟨session, unread, events ++ new⟩
    | .prompting =>
      let (session, new) := session.answer unread.head?
      ⟨session, unread.tail, events ++ new⟩
    | .closed _ => ⟨session, unread, events⟩

/-- Moves the session by at most `budget` steps, and stops when it is closed. -/
def play : Nat → Transcript → Transcript
  | 0, t => t
  | budget + 1, t =>
    match t.session.phase with
    | .closed _ => t
    | .executing | .prompting => play budget t.advance

theorem advance_of_closed {t : Transcript} {success : Bool} (h : t.session.phase = .closed success) :
    t.advance = t := by
  simp [advance, h]

theorem play_of_closed {t : Transcript} {success : Bool} (budget : Nat)
    (h : t.session.phase = .closed success) : play budget t = t := by
  cases budget <;> simp [play, h]

theorem play_succ (budget : Nat) (t : Transcript) : play (budget + 1) t = play budget t.advance := by
  cases h : t.session.phase with
  | executing => simp [play, h]
  | prompting => simp [play, h]
  | closed success => rw [advance_of_closed h, play_of_closed _ h, play_of_closed _ h]

/-- A transcript can be played in parts. -/
theorem play_add (a b : Nat) (t : Transcript) : play (a + b) t = play b (play a t) := by
  induction a generalizing t with
  | zero => simp [play]
  | succ a ih => rw [Nat.succ_add, play_succ, play_succ, ih]

end Transcript

end Intcode
