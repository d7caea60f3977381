import Intcode.Session.Transcript

/-!
# Closing a session

A session that closes does so after some number of steps. `Closes` says so without the number, one
step after the other, so that a proof about a whole session is an induction over its steps.
-/

namespace Intcode.Transcript

/-- The transcript is played until its session is closed, and then it is the one given. -/
inductive Closes : Transcript → Transcript → Prop
  | closed {t : Transcript} {success : Bool} (phase : t.session.phase = .closed success) :
      Closes t t
  | next {t t' : Transcript} (rest : Closes t.advance t') : Closes t t'

variable {t t' t'' : Transcript} {success : Bool}

theorem Closes.phase (h : Closes t t') : ∃ success, t'.session.phase = .closed success := by
  induction h with
  | closed hphase => exact ⟨_, hphase⟩
  | next _ ih => exact ih

/-- A session that is closed stays as it is. -/
theorem Closes.eq_of_closed (h : Closes t t') (hphase : t.session.phase = .closed success) :
    t' = t := by
  induction h with
  | closed => rfl
  | next _ ih =>
      rw [advance_of_closed hphase] at ih
      exact ih hphase

theorem Closes.advance (h : Closes t t') : Closes t.advance t' := by
  cases h with
  | closed hphase =>
      rw [advance_of_closed hphase]
      exact .closed hphase
  | next hrest => exact hrest

theorem Closes.deterministic (h : Closes t t') (h' : Closes t t'') : t' = t'' := by
  induction h with
  | closed hphase => exact (h'.eq_of_closed hphase).symm
  | next _ ih => exact ih h'.advance

theorem closes_iff_play : Closes t t' ↔
    ∃ budget success, play budget t = t' ∧ t'.session.phase = .closed success := by
  constructor
  · intro h
    induction h with
    | closed hphase => exact ⟨0, _, rfl, hphase⟩
    | next _ ih =>
        obtain ⟨budget, success, hplay, hphase⟩ := ih
        exact ⟨budget + 1, success, by rwa [play_succ], hphase⟩
  · rintro ⟨budget, success, hplay, hphase⟩
    induction budget generalizing t with
    | zero =>
        obtain rfl : t = t' := hplay
        exact .closed hphase
    | succ budget ih =>
        rw [play_succ] at hplay
        exact .next (ih hplay)

/-- What each step keeps, a session keeps until it is closed. -/
theorem Closes.invariant {P : Transcript → Prop} (hadvance : ∀ t, P t → P t.advance)
    (h : Closes t t') (ht : P t) : P t' := by
  induction h with
  | closed => exact ht
  | next _ ih => exact ih (hadvance _ ht)

end Intcode.Transcript
