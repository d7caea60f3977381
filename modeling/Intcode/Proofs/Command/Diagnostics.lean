import Intcode.Proofs.Command.Reports
import Intcode.Proofs.Session.Messages

/-!
# Diagnostics

What is shown on standard error depends on three choices: whether information is left out, whether
instructions are traced, and whether levels are coloured. None of them has any influence on what the
program does. Each of them only changes the messages, and only in its own way: information is
removed, traces are inserted, colours are put on.

The sessions with and without traces move together. What differs is one flag of the session, and in
each move the trace of the instruction that its machine has fetched.
-/

namespace Intcode

namespace Event

def isTrace : Event → Bool
  | trace .. => true
  | _ => false

theorem isTrace_of_message? {e : Event} {x : Message} (h : e.message? = some x) :
    x.isTrace = e.isTrace := by
  cases e with
  | entry | value | cell => cases h
  | trace | prompt =>
      cases h
      rfl
  | notice n =>
      cases h
      unfold Message.ofNotice
      split <;> rfl

/-- Where no event is a trace, no message is one. -/
theorem filter_not_isTrace_messages {events : List Event} (h : ∀ e ∈ events, e.isTrace = false) :
    (events.filterMap message?).filter (fun x ↦ !x.isTrace) = events.filterMap message? := by
  refine List.filter_eq_self.2 fun x hx ↦ ?_
  obtain ⟨e, he, hmessage⟩ := List.mem_filterMap.1 hx
  rw [isTrace_of_message? hmessage, h e he]
  rfl

end Event

/-- What is told in the moves of a session that shows no traces, if they are left out and if they
are inserted. In front of all that is told in a move stands the trace of the instruction that the
machine fetches in it, if it fetches one, with the pointer and the base before its execution.
Whether the execution succeeds, fails, or waits for input makes no difference. -/
inductive Told (traced : Bool) : List Move → List Message → Prop
  | nil : Told traced [] []
  /-- The machine fetches an instruction and goes on to execute it. -/
  | fetched {x : Move} {i : Fetched} {course : List Move} {told : List Message}
      (phase : x.session.phase = .executing) (fetch : x.session.machine.fetch = .ok i)
      (rest : Told traced course told) :
      Told traced (x :: course)
        ((if traced then
            [.trace x.session.machine.label x.session.machine.pointer x.session.machine.base i]
          else []) ++ x.events.filterMap Event.message? ++ told)
  /-- The machine has no instruction to fetch. -/
  | unfetched {x : Move} {cause : Cause} {course : List Move} {told : List Message}
      (phase : x.session.phase = .executing) (fetch : x.session.machine.fetch = .error cause)
      (rest : Told traced course told) :
      Told traced (x :: course) (x.events.filterMap Event.message? ++ told)
  /-- The machine waits while a line is asked for. -/
  | waits {x : Move} {course : List Move} {told : List Message}
      (phase : x.session.phase = .prompting) (rest : Told traced course told) :
      Told traced (x :: course) (x.events.filterMap Event.message? ++ told)

namespace Told

variable {traced : Bool} {course : List Move} {told : List Message}

/-- Traces are all that is inserted. -/
theorem filter_not_isTrace (h : Told traced course told)
    (hcourse : ∀ x ∈ course, ∀ e ∈ x.events, e.isTrace = false) :
    told.filter (fun x ↦ !x.isTrace) = (Move.shown course).filterMap Event.message? := by
  induction h with
  | nil => rfl
  | @fetched x i _ _ _ _ _ ih =>
      obtain ⟨hx, hcourse⟩ := List.forall_mem_cons.1 hcourse
      have htrace : (if traced then [Message.trace x.session.machine.label
          x.session.machine.pointer x.session.machine.base i] else []).filter
          (fun x ↦ !x.isTrace) = [] := by
        cases traced <;> rfl
      rw [List.filter_append, List.filter_append, htrace, List.nil_append,
        Event.filter_not_isTrace_messages hx, ih hcourse, Move.shown_cons, List.filterMap_append]
  | unfetched _ _ _ ih | waits _ _ ih =>
      obtain ⟨hx, hcourse⟩ := List.forall_mem_cons.1 hcourse
      rw [List.filter_append, Event.filter_not_isTrace_messages hx, ih hcourse, Move.shown_cons,
        List.filterMap_append]

/-- Without traces, the moves tell what they show. -/
theorem eq_of_not_traced (h : Told false course told) :
    told = (Move.shown course).filterMap Event.message? := by
  induction h with
  | nil => rfl
  | fetched _ _ _ ih =>
      rw [ih, Move.shown_cons, List.filterMap_append]
      rfl
  | unfetched _ _ _ ih | waits _ _ ih => rw [ih, Move.shown_cons, List.filterMap_append]

end Told

namespace Session

/-- The session with or without traces. -/
def retraced (traced : Bool) (s : Session) : Session := { s with traced }

/-- What is announced before the next move. -/
def announced (traced : Bool) (s : Session) : List Event :=
  if s.phase = .executing then announce traced s.machine else []

end Session

/-- The move with traces, or as it is. -/
def Move.retraced (traced : Bool) (x : Move) : Move where
  session := x.session.retraced traced
  unread := x.unread
  events := x.session.announced traced ++ x.events

namespace Session

variable {s s' : Session} {unread unread' : List Line} {new : List Event} {course : List Move}

theorem announced_of_executing (hphase : s.phase = .executing) (traced : Bool) :
    s.announced traced = announce traced s.machine := if_pos hphase

theorem announced_of_prompting (hphase : s.phase = .prompting) (traced : Bool) :
    s.announced traced = [] := if_neg (by simp [hphase])

@[simp] theorem announced_false (s : Session) : s.announced false = [] := ite_self _

theorem Moves.traced_eq (h : s.Moves unread s' unread' new) : s'.traced = s.traced := by
  cases h <;> rfl

/-- A move with traces is one without, after the trace of the instruction. -/
theorem Moves.exists_retraced (h : s.Moves unread s' unread' new) :
    ∃ plain, ∀ traced, (s.retraced traced).Moves unread (s'.retraced traced) unread'
      (s.announced traced ++ plain) := by
  cases h with
  | @fail _ f m hphase hstep =>
      refine ⟨unprinted s.printed m ++ [.notice (.failed m.label f)], fun traced ↦ ?_⟩
      rw [announced_of_executing hphase, ← List.append_assoc]
      exact .fail (s := s.retraced traced) hphase hstep
  | go hphase hstep hstatus =>
      refine ⟨[], fun traced ↦ ?_⟩
      rw [announced_of_executing hphase, List.append_nil]
      exact .go (s := s.retraced traced) hphase hstep hstatus
  | @put _ _ m hphase hstep hstatus =>
      refine ⟨unprinted s.printed m, fun traced ↦ ?_⟩
      rw [announced_of_executing hphase]
      exact .put (s := s.retraced traced) hphase hstep hstatus
  | @await _ _ m hphase hstep hstatus =>
      refine ⟨unprinted s.printed m ++ [.prompt m.label], fun traced ↦ ?_⟩
      rw [announced_of_executing hphase, ← List.append_assoc]
      exact .await (s := s.retraced traced) hphase hstep hstatus
  | @halt _ _ m hphase hstep hstatus =>
      refine ⟨unprinted s.printed m ++ summary s.dump m, fun traced ↦ ?_⟩
      rw [announced_of_executing hphase, ← List.append_assoc]
      exact .halt (s := s.retraced traced) hphase hstep hstatus
  | hangUp hphase =>
      refine ⟨[.notice (.inputClosed s.machine.label)], fun traced ↦ ?_⟩
      rw [announced_of_prompting hphase]
      exact .hangUp (s := s.retraced traced) hphase
  | @reject _ _ error hphase hread =>
      refine ⟨[.notice (.badLine error), .prompt s.machine.label], fun traced ↦ ?_⟩
      rw [announced_of_prompting hphase]
      exact .reject (s := s.retraced traced) hphase hread
  | accept hphase hread =>
      refine ⟨[], fun traced ↦ ?_⟩
      rw [announced_of_prompting hphase]
      exact .accept (s := s.retraced traced) hphase hread

/-- The courses of a session with and without traces have the same moves. -/
theorem Course.exists_retraced (h : s.Course unread course s') :
    ∃ plain, (s.retraced false).Course unread plain (s'.retraced false) ∧
      ∀ traced, (s.retraced traced).Course unread (plain.map (Move.retraced traced))
        (s'.retraced traced) := by
  induction h with
  | closed hphase => exact ⟨[], .closed hphase, fun traced ↦ .closed hphase⟩
  | @move s s' s'' unread unread' new course hm _ ih =>
      obtain ⟨plain, huntraced, hplain⟩ := ih
      obtain ⟨new', hnew'⟩ := hm.exists_retraced
      exact ⟨⟨s.retraced false, unread, new'⟩ :: plain,
        .move (by simpa using hnew' false) huntraced,
        fun traced ↦ .move (hnew' traced) (hplain traced)⟩

/-- A session without traces shows none. -/
theorem Moves.isTrace_eq_false (h : s.Moves unread s' unread' new) (hs : s.traced = false) :
    ∀ e ∈ new, e.isTrace = false := by
  have hannounce : announce s.traced s.machine = [] := by simp [announce, hs]
  have hunprinted {m : Machine} (e : Event) (he : e ∈ unprinted s.printed m) :
      e.isTrace = false := by
    obtain ⟨v, rfl⟩ := eq_of_mem_unprinted he
    rfl
  have hsummary {m : Machine} (e : Event) (he : e ∈ summary s.dump m) : e.isTrace = false := by
    obtain rfl | rfl | rfl | ⟨i, v, rfl⟩ := eq_of_mem_summary he <;> rfl
  cases h with
  | fail | await =>
      simp only [hannounce, List.nil_append, List.forall_mem_append, List.forall_mem_singleton]
      exact ⟨hunprinted, rfl⟩
  | go => simp [hannounce]
  | put =>
      simp only [hannounce, List.nil_append]
      exact hunprinted
  | halt =>
      simp only [hannounce, List.nil_append, List.forall_mem_append]
      exact ⟨hunprinted, hsummary⟩
  | hangUp | reject | accept => simp [Event.isTrace]

theorem Course.isTrace_eq_false (h : s.Course unread course s') (hs : s.traced = false) :
    ∀ x ∈ course, ∀ e ∈ x.events, e.isTrace = false := by
  induction h with
  | closed => simp
  | move hm _ ih =>
      have hkept := hm.traced_eq.trans hs
      exact List.forall_mem_cons.2 ⟨hm.isTrace_eq_false hs, ih hkept⟩

/-- In the course of a session with traces, what is told is what is told without, and the traces. -/
theorem Course.told (h : s.Course unread course s') (traced : Bool) :
    Told traced course
      ((Move.shown (course.map (Move.retraced traced))).filterMap Event.message?) := by
  induction h with
  | closed => exact .nil
  | @move s s₁ s' unread unread' new course hm _ ih =>
      rw [List.map_cons, Move.shown_cons, List.filterMap_append, Move.retraced,
        List.filterMap_append]
      rcases hm.isOpen with hphase | hphase
      · rw [announced_of_executing hphase]
        cases hfetch : s.machine.fetch with
        | ok i =>
            have hannounce : (announce traced s.machine).filterMap Event.message? =
                if traced then [.trace s.machine.label s.machine.pointer s.machine.base i]
                else [] := by
              cases traced <;> simp [announce, hfetch, Event.message?]
            rw [hannounce]
            exact .fetched hphase hfetch ih
        | error cause =>
            have hannounce : announce traced s.machine = [] := by
              simp [announce, hfetch]
            rw [hannounce]
            exact .unfetched hphase hfetch ih
      · rw [announced_of_prompting hphase]
        exact .waits hphase ih

/-- Traces write nothing on standard output. -/
theorem gather_stdout_announced (traced : Bool) (s : Session) :
    Event.gather Event.stdout (s.announced traced) = "" := by
  unfold announced
  split
  · exact gather_stdout_announce
  · rfl

end Session

theorem Move.gather_stdout_retraced (traced : Bool) (course : List Move) :
    Event.gather Event.stdout (shown (course.map (retraced traced))) =
      Event.gather Event.stdout (shown course) := by
  induction course with
  | nil => rfl
  | cons x course ih =>
      rw [List.map_cons, shown_cons, shown_cons, Event.gather_append, Event.gather_append, ih,
        retraced, Event.gather_append, Session.gather_stdout_announced, String.empty_append]

namespace Command

/-- The preparation of a session with or without traces. -/
def Opening.retraced (traced : Bool) : Opening → Opening
  | .over success => .over success
  | .lost => .lost
  | .ready session => .ready (session.retraced traced)

namespace Options

variable {options : Options} {s : Surroundings} {report : Report} {opening : List Event}
  {course : List Move}

/-- What an invocation shows before its session, and the moves of the session if there is one. -/
inductive Shows (options : Options) (s : Surroundings) : List Event → List Move → Prop
  | settled {success : Bool} {opening : List Event}
      (prepare : options.prepare s.traced (s.files.readText options.file) =
        (.over success, opening)) : Shows options s opening []
  | held {session final : Session} {opening : List Event} {course : List Move}
      (prepare : options.prepare s.traced (s.files.readText options.file) =
        (.ready session, opening))
      (holds : session.Course (Line.split s.stdin) course final) : Shows options s opening course

theorem prepare_retraced (options : Options) (quiet traced traced' : Bool)
    (source : Except FileError String) :
    { options with quiet }.prepare traced' source =
      ((options.prepare traced source).1.retraced traced', (options.prepare traced source).2) := by
  obtain ⟨opening, events, h⟩ := exists_prepared options traced source
  rw [h.prepare_eq]
  cases h with
  | unreadable => exact prepare_eq_iff.2 .unreadable
  | malformed hparse => exact prepare_eq_iff.2 (.malformed hparse)
  | listed hparse hnone => exact prepare_eq_iff.2 (.listed hparse hnone)
  | lost hparse hexec hlimit => exact prepare_eq_iff.2 (.lost hparse hexec hlimit)
  | unloadable hparse hexec hlimit hplace =>
      exact prepare_eq_iff.2 (.unloadable hparse hexec hlimit hplace)
  | ready hparse hexec hlimit hplace => exact prepare_eq_iff.2 (.ready hparse hexec hlimit hplace)

/-- No instruction is traced before the session. -/
theorem isTrace_of_mem_prepare {traced : Bool} {source : Except FileError String} {o : Opening}
    (h : options.prepare traced source = (o, opening)) : ∀ e ∈ opening, e.isTrace = false := by
  intro e he
  obtain ⟨n, rfl⟩ | ⟨entry, rfl⟩ := eq_of_mem_prepare h he <;> rfl

/-- An invocation without traces shows none. -/
theorem Shows.isTrace_eq_false (h : options.Shows s opening course) (hs : s.traced = false) :
    (∀ e ∈ opening, e.isTrace = false) ∧ ∀ x ∈ course, ∀ e ∈ x.events, e.isTrace = false := by
  cases h with
  | settled hprepare => exact ⟨isTrace_of_mem_prepare hprepare, by simp⟩
  | held hprepare hcourse =>
      refine ⟨isTrace_of_mem_prepare hprepare, hcourse.isTrace_eq_false ?_⟩
      obtain ⟨_, _, _, rfl, _⟩ := exists_place_of_prepare hprepare
      exact hs

/-- What is told with or without traces, given what is shown without. -/
def said (opening : List Event) (course : List Move) (traced : Bool) : List Message :=
  (opening ++ Move.shown (course.map (Move.retraced traced))).filterMap Event.message?

theorem Shows.told (h : options.Shows s opening course) (traced : Bool) :
    Told traced course
      ((Move.shown (course.map (Move.retraced traced))).filterMap Event.message?) := by
  cases h with
  | settled => exact .nil
  | held _ hcourse => exact hcourse.told traced

/-- Whatever is chosen, an invocation has the same moves, and differs only in their traces. -/
theorem Reports.exists_shows (h : options.Reports s report) :
    ∃ code out opening, ∃ course : List Move,
      options.Shows { s with traced := false } opening course ∧
      ∀ quiet traced colour paint,
        { options with quiet }.Reports { s with traced, colour, paint }
          ⟨code, out, Event.gather (Event.stderr ⟨quiet, if colour then paint else Level.plain⟩)
            (opening ++ Move.shown (course.map (Move.retraced traced)))⟩ := by
  rcases hprepare : options.prepare s.traced (s.files.readText options.file) with
    ⟨success | - | session, opening⟩
  · have hover (quiet traced : Bool) : { options with quiet }.prepare traced
        (s.files.readText options.file) = (.over success, opening) := by
      rw [options.prepare_retraced quiet s.traced, hprepare]
      rfl
    refine ⟨exitCode success, Event.gather Event.stdout opening, opening, [],
      .settled (hover options.quiet false), fun quiet traced colour paint ↦ ?_⟩
    refine (reports_iff_of_over (hover quiet traced)).2 ?_
    rw [Report.ofEvents_eq]
    simp [style, Surroundings.painting]
  · exact absurd h (not_reports_of_lost hprepare)
  · have hready (quiet traced : Bool) : { options with quiet }.prepare traced
        (s.files.readText options.file) = (.ready (session.retraced traced), opening) := by
      rw [options.prepare_retraced quiet s.traced, hprepare]
      rfl
    obtain ⟨_, final, success, hcourse, hphase, -⟩ := (reports_iff_course hprepare).1 h
    obtain ⟨course, huntraced, hretraced⟩ := hcourse.exists_retraced
    refine ⟨exitCode success, Event.gather Event.stdout (opening ++ Move.shown course), opening,
      course, .held (hready options.quiet false) huntraced, fun quiet traced colour paint ↦ ?_⟩
    refine (reports_iff_course (hready quiet traced)).2
      ⟨_, _, success, hretraced traced, hphase, ?_⟩
    have hstdout : Event.gather Event.stdout (opening ++ Move.shown course) =
        Event.gather Event.stdout (opening ++ Move.shown (course.map (Move.retraced traced))) := by
      rw [Event.gather_append, Event.gather_append, Move.gather_stdout_retraced]
    rw [Report.ofEvents_eq, hstdout]
    rfl

/-- Neither the exit code nor standard output depends on how an invocation is diagnosed. What is
told is told in messages: those of the moves that are made without traces, and with traces one more
for each instruction that is fetched, right before what else is told of it. With `quiet` those that
give information are not heard, and colours are put on when the rest is written. -/
theorem diagnostics_unobservable (h : options.Reports s report) :
    ∃ code out opening, ∃ course : List Move, ∃ said : Bool → List Message,
      options.Shows { s with traced := false } opening course ∧
      (∀ traced, ∃ told, Told traced course told ∧
        said traced = opening.filterMap Event.message? ++ told) ∧
      said false = (said true).filter (fun x ↦ !x.isTrace) ∧
      ∀ quiet traced colour paint,
        { options with quiet }.Reports { s with traced, colour, paint }
          ⟨code, out, Message.written (if colour then paint else Level.plain)
            (if quiet then (said traced).filter (fun x ↦ !x.isInfo) else said traced)⟩ := by
  obtain ⟨code, out, opening, course, hshows, hreports⟩ := h.exists_shows
  obtain ⟨hopening, hcourse⟩ := hshows.isTrace_eq_false rfl
  refine ⟨code, out, opening, course, said opening course, hshows, fun traced ↦ ?_, ?_,
    fun quiet traced colour paint ↦ ?_⟩
  · exact ⟨_, hshows.told traced, List.filterMap_append⟩
  · rw [said, said, List.filterMap_append, List.filterMap_append, List.filter_append,
      Event.filter_not_isTrace_messages hopening, (hshows.told true).filter_not_isTrace hcourse,
      (hshows.told false).eq_of_not_traced]
  · have hreport := hreports quiet traced colour paint
    rwa [Event.gather_stderr] at hreport

/-- A program that puts a value out and halts. -/
def telling : Options where
  file := "tell"
  capacity := 4

/-- A disk with the text `104,7,99` in a file. -/
def tellingDisk : Surroundings where
  files := .ofList [("tell", [49, 48, 52, 44, 55, 44, 57, 57])]
  stdin := []

/-- Whatever is chosen, the exit code is zero and the value is on standard output. With `quiet` and
with traces, the two instructions are all that is on standard error. -/
theorem diagnostics_unobservable_of_telling :
    ∃ said : Bool → List Message, said false = (said true).filter (fun x ↦ !x.isTrace) ∧
      (∀ quiet traced colour paint,
        { telling with quiet }.Reports { tellingDisk with traced, colour, paint }
          ⟨0, "7\n", Message.written (if colour then paint else Level.plain)
            (if quiet then (said traced).filter (fun x ↦ !x.isInfo) else said traced)⟩) ∧
      Message.written Level.plain ((said true).filter fun x ↦ !x.isInfo) =
        "<IC(tell)>:     0 rb=0     out 7\n" ++ "<IC(tell)>:     2 rb=0     halt\n" := by
  have hread : tellingDisk.files.readText telling.file = .ok "104,7,99" := rfl
  have hparse : ProgramText.parse telling.delimiter "104,7,99" = .ok [104, 7, 99] := rfl
  have hplace : Machine.place (.blank telling.capacity) #[104, 7, 99] =
      .ok ⟨#[104, 7, 99, 0]⟩ := rfl
  have hprepare : { telling with quiet := true }.prepare true
      (tellingDisk.files.readText telling.file) =
      (.ready (telling.opened true ⟨#[104, 7, 99, 0]⟩), telling.preface [104, 7, 99]) := by
    rw [hread]
    exact prepare_eq_iff.2 (.ready hparse rfl (by decide) hplace)
  have hcloses : Transcript.Closes ⟨telling.opened true ⟨#[104, 7, 99, 0]⟩, [],
      (telling.preface [104, 7, 99]).toArray⟩ _ :=
    Transcript.closes_iff_play.2 ⟨9, true, rfl, by decide +kernel⟩
  have hreports : { telling with quiet := true }.Reports { tellingDisk with traced := true }
      ⟨0, "7\n", "<IC(tell)>:     0 rb=0     out 7\n" ++ "<IC(tell)>:     2 rb=0     halt\n"⟩ :=
    (reports_iff_of_ready hprepare).2 ⟨_, true, hcloses, by decide +kernel, by decide +kernel⟩
  obtain ⟨code, out, _, _, said, -, -, htraces, hall⟩ := diagnostics_unobservable hreports
  have hsame := (hall true true false Level.plain).deterministic hreports
  obtain ⟨rfl, rfl, hwritten⟩ := Report.mk.inj hsame
  exact ⟨said, htraces, hall, hwritten⟩

end Options

end Command

end Intcode
