import Intcode.Proofs.Command.Preparation
import Intcode.Proofs.Session.Closing
import Intcode.Proofs.Session.Course
import Intcode.Proofs.Session.Written

/-!
# Reports

An invocation that is given enough steps ends with a report. It has one report at most, and this is
the report of its preparation or of the session that the preparation leads to.
-/

namespace Intcode.Command

namespace Options

/-- The invocation ends, and the report is what it leaves. -/
def Reports (options : Options) (s : Surroundings) (report : Report) : Prop :=
  ∃ budget, options.run budget s = some report

variable {options : Options} {s : Surroundings} {report report' : Report} {success : Bool}
  {session : Session} {events : List Event}

/-- An invocation that is over before any session reports what has been shown until then. -/
theorem reports_iff_of_over
    (h : options.prepare s.traced (s.files.readText options.file) = (.over success, events)) :
    options.Reports s report ↔
      report = .ofEvents (exitCode success) (options.style s.painting) events := by
  simp only [Reports, run, h, exists_const, Option.some.injEq, eq_comm]

/-- An invocation that is lost has no report. -/
theorem not_reports_of_lost
    (h : options.prepare s.traced (s.files.readText options.file) = (.lost, events)) :
    ¬ options.Reports s report := by
  simp [Reports, run, h]

/-- An invocation that leads to a session reports the transcript of it, once it is closed. -/
theorem reports_iff_of_ready
    (h : options.prepare s.traced (s.files.readText options.file) = (.ready session, events)) :
    options.Reports s report ↔
      ∃ t success, Transcript.Closes ⟨session, Line.split s.stdin, events.toArray⟩ t ∧
        t.session.phase = .closed success ∧
        report = .ofEvents (exitCode success) (options.style s.painting) t.events.toList := by
  simp only [Reports, run, h, Transcript.closes_iff_play]
  constructor
  · rintro ⟨budget, hrun⟩
    split at hrun
    · rename_i success hphase
      cases hrun
      exact ⟨_, success, ⟨budget, success, rfl, hphase⟩, hphase, rfl⟩
    · cases hrun
    · cases hrun
  · rintro ⟨t, success, ⟨budget, _, rfl, -⟩, hphase, rfl⟩
    refine ⟨budget, ?_⟩
    split
    · rename_i hclosed
      rw [hphase] at hclosed
      cases hclosed
      rfl
    all_goals simp_all

/-- An invocation that leads to a session reports what has been shown before the session and in the
course of it. -/
theorem reports_iff_course
    (h : options.prepare s.traced (s.files.readText options.file) = (.ready session, events)) :
    options.Reports s report ↔
      ∃ course final success, session.Course (Line.split s.stdin) course final ∧
        final.phase = .closed success ∧
        report = .ofEvents (exitCode success) (options.style s.painting)
          (events ++ Move.shown course) := by
  rw [reports_iff_of_ready h]
  constructor
  · rintro ⟨t, success, hcloses, hphase, rfl⟩
    obtain ⟨course, hcourse, hevents⟩ := hcloses.exists_course
    exact ⟨course, t.session, success, hcourse, hphase, by rw [hevents]⟩
  · rintro ⟨course, final, success, hcourse, hphase, rfl⟩
    obtain ⟨t, hcloses, rfl, hevents⟩ := Transcript.closes_of_course hcourse events.toArray
    exact ⟨t, success, hcloses, hphase, by rw [hevents]⟩

/-- However many steps an invocation is given, it can only end with one report. -/
theorem Reports.deterministic (h : options.Reports s report) (h' : options.Reports s report') :
    report = report' := by
  rcases hprepare : options.prepare s.traced (s.files.readText options.file) with
    ⟨success | - | session, events⟩
  · rw [reports_iff_of_over hprepare] at h h'
    rw [h, h']
  · exact absurd h (not_reports_of_lost hprepare)
  · obtain ⟨t, success, hcloses, hphase, rfl⟩ := (reports_iff_of_ready hprepare).1 h
    obtain ⟨t', success', hcloses', hphase', rfl⟩ := (reports_iff_of_ready hprepare).1 h'
    obtain rfl := hcloses.deterministic hcloses'
    obtain rfl : success = success' := Phase.closed.inj (hphase.symm.trans hphase')
    rfl

end Options

/-- A report of events has the text that they have on each of the two streams. -/
theorem Report.ofEvents_eq (code : Nat) (style : Style) (events : List Event) :
    ofEvents code style events =
      ⟨code, Event.gather Event.stdout events, Event.gather (Event.stderr style) events⟩ := by
  simp only [Event.gather, String.join_eq_foldl, List.foldl_map]
  rfl

end Intcode.Command
