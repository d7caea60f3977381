import Intcode.Proofs.Session.Closing
import Intcode.Proofs.Session.Framing
import Intcode.Proofs.Session.Moves
import Intcode.Proofs.Session.Written

/-!
# Prompts and lines

Every prompt of a session is answered by one line, as long as there are lines. So the prompts can be
told from the lines that have been taken: there is one for each of them, and one more while the
session waits or after it has waited in vain.
-/

namespace Intcode

/-- The event is a request for a line. -/
def Event.isPrompt : Event → Bool
  | prompt _ => true
  | _ => false

/-- The number of requests for a line. -/
def Event.prompts (events : List Event) : Nat := events.countP isPrompt

/-- The prompts of a session that has been given `lines` lines, of which it has not taken `unread`.
A session that waits has asked once more than it has been answered, and so has one that was closed
for want of a line. -/
def Phase.Tallies (lines unread prompts : Nat) : Phase → Prop
  | .executing | .closed true => prompts + unread = lines
  | .prompting => prompts + unread = lines + 1
  | .closed false => prompts + unread = lines ∨ unread = 0 ∧ prompts = lines + 1

variable {events new : List Event} {lines unread prompts : Nat} {phase : Phase}

namespace Event

@[simp] theorem prompts_nil : Event.prompts [] = 0 := rfl

@[simp] theorem prompts_append :
    Event.prompts (events ++ new) = Event.prompts events + Event.prompts new :=
  List.countP_append

theorem prompts_prompt (machine : String) : Event.prompts [prompt machine] = 1 := rfl

theorem prompts_notice (n : Notice) : Event.prompts [notice n] = 0 := rfl

theorem prompts_eq_zero (h : ∀ e ∈ events, e.isPrompt = false) : Event.prompts events = 0 := by
  refine List.countP_eq_zero.2 fun e he ↦ ?_
  rw [h e he]
  exact Bool.false_ne_true

end Event

/-- A session prompts for all lines and once more at most. -/
theorem Phase.Tallies.le (h : phase.Tallies lines unread prompts) : prompts ≤ lines + 1 := by
  cases phase with
  | executing | prompting =>
      simp only [Tallies] at h
      omega
  | closed success =>
      cases success <;>
      · simp only [Tallies] at h
        omega

/-- Who has asked for more lines than there are has none left, and has not succeeded. -/
theorem Phase.Tallies.of_lt (h : phase.Tallies lines unread prompts) (hlt : lines < prompts) :
    unread = 0 ∧ (phase = .prompting ∨ phase = .closed false) := by
  cases phase with
  | executing =>
      simp only [Tallies] at h
      omega
  | prompting =>
      simp only [Tallies] at h
      exact ⟨by omega, .inl rfl⟩
  | closed success =>
      cases success with
      | true =>
          simp only [Tallies] at h
          omega
      | false =>
          simp only [Tallies] at h
          exact ⟨by omega, .inr rfl⟩

namespace Session

variable {s s' : Session} {queued left : List Line} {m : Machine}

theorem prompts_announce (traced : Bool) (m : Machine) :
    Event.prompts (announce traced m) = 0 := by
  refine Event.prompts_eq_zero fun e he ↦ ?_
  obtain ⟨i, -, -, rfl⟩ := eq_of_mem_announce he
  rfl

theorem prompts_unprinted (printed : Nat) (m : Machine) :
    Event.prompts (unprinted printed m) = 0 := by
  refine Event.prompts_eq_zero fun e he ↦ ?_
  obtain ⟨v, rfl⟩ := eq_of_mem_unprinted he
  rfl

theorem prompts_summary (dump : Option Span) (m : Machine) :
    Event.prompts (summary dump m) = 0 := by
  refine Event.prompts_eq_zero fun e he ↦ ?_
  obtain rfl | rfl | rfl | ⟨i, v, rfl⟩ := eq_of_mem_summary he <;> rfl

/-- A move that prompts leaves the session waiting, and a session that waits takes a line. -/
theorem Moves.tallies (h : s.Moves queued s' left new)
    (hs : s.phase.Tallies lines queued.length prompts) :
    s'.phase.Tallies lines left.length (prompts + Event.prompts new) := by
  cases h with
  | fail hphase =>
      rw [hphase] at hs
      simpa [Phase.Tallies, prompts_announce, prompts_unprinted, Event.prompts_notice] using .inl hs
  | go hphase =>
      rw [hphase] at hs
      simpa [hphase, Phase.Tallies, prompts_announce] using hs
  | put hphase =>
      rw [hphase] at hs
      simpa [hphase, Phase.Tallies, prompts_announce, prompts_unprinted] using hs
  | await hphase =>
      rw [hphase] at hs
      simp only [Phase.Tallies, Event.prompts_append, prompts_announce, prompts_unprinted,
        Event.prompts_prompt] at hs ⊢
      omega
  | halt hphase =>
      rw [hphase] at hs
      simpa [Phase.Tallies, prompts_announce, prompts_unprinted, prompts_summary] using hs
  | hangUp hphase =>
      rw [hphase] at hs
      exact .inr ⟨rfl, hs⟩
  | @reject line lines error hphase =>
      have hprompts : Event.prompts [.notice (.badLine error), .prompt s.machine.label] = 1 := rfl
      rw [hphase] at hs ⊢
      simp only [Phase.Tallies, hprompts, List.length_cons] at hs ⊢
      omega
  | accept hphase =>
      rw [hphase] at hs
      simp only [Phase.Tallies, Event.prompts_nil, List.length_cons] at hs ⊢
      omega

/-- A move takes one line or none. -/
theorem Moves.suffix (h : s.Moves queued s' left new) : left <:+ queued := by
  cases h with
  | fail | go | put | await | halt | hangUp => exact List.suffix_rfl
  | reject | accept => exact List.suffix_cons _ _

end Session

namespace Transcript

variable {t : Transcript} {ls : List Line}

/-- The transcript is one of a session that was given the lines and has taken some of them, one for
each of its prompts. -/
structure Answered (ls : List Line) (t : Transcript) : Prop where
  suffix : t.unread <:+ ls
  tallies : t.session.phase.Tallies ls.length t.unread.length (Event.prompts t.events.toList)

theorem Answered.advance (h : Answered ls t) : Answered ls t.advance := by
  obtain hopen | ⟨success, hclosed⟩ := t.session.open_or_closed
  · obtain ⟨new, hmoves, hnew⟩ := moves_advance hopen
    refine ⟨hmoves.suffix.trans h.suffix, ?_⟩
    rw [hnew, Event.prompts_append]
    exact hmoves.tallies h.tallies
  · rwa [advance_of_closed hclosed]

theorem Answered.play (h : Answered ls t) (budget : Nat) : Answered ls (play budget t) := by
  induction budget generalizing t with
  | zero => exact h
  | succ budget ih =>
      rw [play_succ]
      exact ih h.advance

/-- While a session waits, the lines left are those after one line for each earlier prompt. -/
theorem Answered.unread_eq (h : Answered ls t) (hphase : t.session.phase = .prompting) :
    t.unread = ls.drop (Event.prompts t.events.toList - 1) := by
  have htallies := h.tallies
  rw [hphase] at htallies
  simp only [Phase.Tallies] at htallies
  have htaken : Event.prompts t.events.toList - 1 = ls.length - t.unread.length := by omega
  rw [htaken]
  exact List.suffix_iff_eq_drop.1 h.suffix

/-- A session that waits in vain is closed without success. -/
theorem closes_of_unread_eq_nil (hphase : t.session.phase = .prompting) (hunread : t.unread = []) :
    t.advance.session.phase = .closed false := by
  obtain ⟨s, unread, events⟩ := t
  obtain rfl : unread = [] := hunread
  have hphase : s.phase = .prompting := hphase
  simp [advance, hphase, Session.answer]

end Transcript

end Intcode
