import Intcode.Proofs.Command.Reports

/-!
# Pauses after outputs

An invocation may ask the machine to pause after every output, so that each is written at once. In
what the invocation leaves behind this makes no difference. Two sessions of which one pauses and the
other does not keep in step: a pause is over within the step in which it begins, and the input that
is taken out then is given back. Between two steps they differ in nothing but what they have written
on standard output so far, and once they are closed, not in this either.
-/

namespace Intcode

namespace Machine

/-- The machine if it had never paused after an output. -/
def steady (m : Machine) : Machine :=
  { m with
    config := { m.config with pauseOnOutput := false }
    status := if m.status = .paused .output then .running else m.status }

variable {m : Machine}

@[simp] theorem label_steady : m.steady.label = m.label := rfl

theorem status_steady (h : m.status ≠ .paused .output) : m.steady.status = m.status := if_neg h

theorem status_steady_of_paused (h : m.status = .paused .output) : m.steady.status = .running :=
  if_pos h

theorem status_steady_eq_halted_iff : m.steady.status = .halted ↔ m.status = .halted := by
  by_cases hpaused : m.status = .paused .output
  · simp [status_steady_of_paused hpaused, hpaused]
  · rw [status_steady hpaused]

@[simp] theorem steady_steady (m : Machine) : m.steady.steady = m.steady := by
  have hstatus : m.steady.status ≠ .paused .output := by
    by_cases hpaused : m.status = .paused .output
    · simp [status_steady_of_paused hpaused]
    · rwa [status_steady hpaused]
  have hsteady := status_steady hstatus
  unfold steady at hsteady ⊢
  exact congrArg (fun status ↦ { m with config.pauseOnOutput := false, status }) hsteady

theorem steady_start (queue : Queue) : (m.start queue).steady = m.steady.start queue := by
  by_cases hhalted : m.status = .halted
  · have hsteady : m.steady.status = .halted := status_steady_eq_halted_iff.2 hhalted
    simp only [start, hhalted, hsteady, if_true]
  · have hsteady : m.steady.status ≠ .halted := hhalted ∘ status_steady_eq_halted_iff.1
    simp only [start, hhalted, hsteady, if_false]
    rfl

/-- A pause after an output is over when the machine goes on with the input it has left. -/
theorem steady_resume (h : m.status = .paused .output) :
    (m.takeQueue.2.start m.takeQueue.1).steady = m.steady := by
  simp [start, takeQueue, steady, h]

theorem plan_steady : m.steady.plan = m.plan := rfl

theorem steady_perform (e : Effect) :
    m.steady.perform e = ((m.perform e).1, (m.perform e).2.steady) := by
  obtain ⟨action, next⟩ := e
  cases action with
  | emit v => cases h : m.config.pauseOnOutput <;> simp [perform, steady, h]
  | _ => rfl

/-- A machine that does not pause after outputs makes the same steps. -/
theorem steady_step (m : Machine) : m.steady.step = (m.step.1, m.step.2.steady) := by
  by_cases hhalted : m.status = .halted
  · rw [step_of_halted hhalted, step_of_halted (status_steady_eq_halted_iff.2 hhalted)]
  · have hsteady : m.steady.status ≠ .halted := hhalted ∘ status_steady_eq_halted_iff.1
    cases hplan : m.plan with
    | ok e =>
        rw [step_of_plan_eq_ok hhalted hplan, step_of_plan_eq_ok hsteady (plan_steady.trans hplan),
          steady_perform]
    | error cause =>
        rw [step_of_plan_eq_error hhalted hplan,
          step_of_plan_eq_error hsteady (plan_steady.trans hplan)]
        rfl

end Machine

namespace Session

open Event

variable {style : Style}

/-- The session if its machine had never paused after an output, and nothing had been printed. -/
def steady (s : Session) : Session := { s with machine := s.machine.steady, printed := 0 }

@[simp] theorem announce_steady {traced : Bool} {m : Machine} :
    announce traced m.steady = announce traced m := rfl

@[simp] theorem summary_steady {dump : Option Span} {m : Machine} :
    summary dump m.steady = summary dump m := rfl

/-- Outputs are not written on standard error. -/
@[simp] theorem gather_stderr_unprinted {printed : Nat} {m : Machine} :
    gather (stderr style) (unprinted printed m) = "" := by
  refine gather_eq_empty fun e he ↦ ?_
  obtain ⟨v, -, rfl⟩ := List.mem_map.1 he
  rfl

/-- What becomes of a session in one step of its machine, and what it then says on standard error,
is the same with pauses after outputs and without them. -/
theorem steady_execute (s : Session) (style : Style) :
    s.steady.execute.1.steady = s.execute.1.steady ∧
      gather (stderr style) s.steady.execute.2 = gather (stderr style) s.execute.2 := by
  obtain ⟨m, printed, phase, traced, dump⟩ := s
  cases hs : m.step with
  | mk r m' =>
      have hsteady : m.steady.step = (r, m'.steady) := by rw [Machine.steady_step, hs]
      cases r with
      | error f => simp [execute, steady, hs, hsteady]
      | ok signal =>
          by_cases hpaused : m'.status = .paused .output
          · have hrunning := Machine.status_steady_of_paused hpaused
            simp [execute, steady, hs, hsteady, hpaused, hrunning, Machine.steady_resume hpaused]
          · have hstatus := Machine.status_steady hpaused
            simp only [execute, steady, hs, hsteady, hstatus]
            split <;> simp_all

/-- What becomes of a session that takes a line, and what it says, is the same with pauses after
outputs and without them. -/
theorem steady_answer (s : Session) (line : Option Line) :
    (s.steady.answer line).1.steady = (s.answer line).1.steady ∧
      (s.steady.answer line).2 = (s.answer line).2 := by
  cases line with
  | none => simp [answer, steady]
  | some line =>
      cases hread : line.read with
      | error error => simp [answer, steady, hread]
      | ok values =>
          have htaken : s.machine.steady.takeQueue =
              (s.machine.takeQueue.1, s.machine.takeQueue.2.steady) := rfl
          simp [answer, steady, hread, Machine.steady_start, htaken]

end Session

namespace Transcript

/-- The transcripts are alike, but for pauses after outputs and for standard output. -/
structure Alike (t t' : Transcript) : Prop where
  session : t.session.steady = t'.session.steady
  unread : t.unread = t'.unread
  stderr (style : Style) :
    Event.gather (Event.stderr style) t.events.toList =
      Event.gather (Event.stderr style) t'.events.toList

variable {t t' t₁ : Transcript}

theorem Alike.phase (h : t.Alike t') : t.session.phase = t'.session.phase := by
  have hphase := congrArg Session.phase h.session
  exact hphase

/-- Transcripts whose sessions are alike at the beginning are alike. -/
theorem Alike.of_session {s s' : Session} {unread : List Line} {events : Array Event}
    (h : s.steady = s'.steady) : Alike ⟨s, unread, events⟩ ⟨s', unread, events⟩ where
  session := h
  unread := rfl
  stderr _ := rfl

theorem Alike.advance (h : t.Alike t') : t.advance.Alike t'.advance := by
  have hphase := h.phase
  obtain ⟨s, unread, events⟩ := t
  obtain ⟨s', unread', events'⟩ := t'
  obtain ⟨hsession, hunread, hstderr⟩ := h
  obtain rfl : unread = unread' := hunread
  simp only at hphase hsession hstderr
  cases hs : s.phase with
  | executing =>
      have hs' : s'.phase = .executing := hphase ▸ hs
      simp only [Transcript.advance, hs, hs']
      refine ⟨?_, rfl, fun style ↦ ?_⟩
      · rw [← (s.steady_execute {}).1, hsession, (s'.steady_execute {}).1]
      · simp only [Array.toList_appendList, Event.gather_append, hstderr style]
        rw [← (s.steady_execute style).2, hsession, (s'.steady_execute style).2]
  | prompting =>
      have hs' : s'.phase = .prompting := hphase ▸ hs
      simp only [Transcript.advance, hs, hs']
      refine ⟨?_, rfl, fun style ↦ ?_⟩
      · rw [← (s.steady_answer unread.head?).1, hsession, (s'.steady_answer unread.head?).1]
      · simp only [Array.toList_appendList, Event.gather_append, hstderr style]
        rw [← (s.steady_answer unread.head?).2, hsession, (s'.steady_answer unread.head?).2]
  | closed success =>
      have hs' : s'.phase = .closed success := hphase ▸ hs
      simp only [Transcript.advance, hs, hs']
      exact ⟨hsession, rfl, hstderr⟩

theorem Alike.closes (h : t.Alike t') (hcloses : Closes t t₁) :
    ∃ t₁', Closes t' t₁' ∧ t₁.Alike t₁' := by
  induction hcloses generalizing t' with
  | closed hphase => exact ⟨t', .closed (h.phase.symm.trans hphase), h⟩
  | next _ ih =>
      obtain ⟨t₁', hcloses', halike⟩ := ih h.advance
      exact ⟨t₁', .next hcloses', halike⟩

/-- Once they are closed, alike transcripts that have opened alike have written the same on standard
output, too. -/
theorem Alike.stdout {opening : String} {success : Bool} (h : t.Alike t')
    (hphase : t.session.phase = .closed success) (ht : t.Tells opening) (ht' : t'.Tells opening) :
    Event.gather Event.stdout t.events.toList = Event.gather Event.stdout t'.events.toList := by
  have houtput := congrArg (Machine.output ∘ Session.machine) h.session
  have hmemory := congrArg (Machine.memory ∘ Session.machine) h.session
  have hdump := congrArg Session.dump h.session
  exact ht.eq_of_closed ht' hphase (h.phase ▸ hphase) houtput hmemory hdump

end Transcript

namespace Command.Options

variable {options : Options} {s : Surroundings} {report : Report}

theorem Reports.of_pauseOnOutput {pause pause' : Bool}
    (h : { options with pauseOnOutput := pause }.Reports s report) :
    { options with pauseOnOutput := pause' }.Reports s report := by
  obtain ⟨events, ⟨success, hprepare⟩ | hprepare | ⟨memory, hprepare⟩⟩ :=
    options.prepare_cases s.traced (s.files.readText options.file)
  · have hover := hprepare options.inputs options.interactive
    rw [reports_iff_of_over (hover pause)] at h
    rw [reports_iff_of_over (hover pause')]
    exact h
  · exact absurd h (not_reports_of_lost (hprepare options.inputs options.interactive pause))
  · have hready := hprepare options.inputs options.interactive
    rw [reports_iff_of_ready (hready pause)] at h
    rw [reports_iff_of_ready (hready pause')]
    obtain ⟨t, success, hcloses, hphase, rfl⟩ := h
    have hsteady : ({ options with pauseOnOutput := pause }.opened s.traced memory).steady =
        ({ options with pauseOnOutput := pause' }.opened s.traced memory).steady := rfl
    obtain ⟨t', hcloses', halike⟩ := Transcript.Alike.closes (.of_session hsteady) hcloses
    have hstdout := halike.stdout hphase (.closes hcloses .ofMachine) (.closes hcloses' .ofMachine)
    refine ⟨t', success, hcloses', halike.phase ▸ hphase, ?_⟩
    rw [Report.ofEvents_eq, Report.ofEvents_eq, hstdout, halike.stderr]
    rfl

/-- Whether the machine pauses after outputs makes no difference to the report of an invocation, nor
to there being one. -/
theorem pauseOnOutput_unobservable (options : Options) (s : Surroundings) (report : Report) :
    { options with pauseOnOutput := true }.Reports s report ↔
      { options with pauseOnOutput := false }.Reports s report :=
  ⟨.of_pauseOnOutput, .of_pauseOnOutput⟩

end Command.Options

end Intcode
