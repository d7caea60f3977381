import Intcode.Proofs.Command.Reports
import Intcode.Proofs.Machine.Schedule

/-!
# Where input comes from

A program can be given its input on the command line, or line by line when it asks for it, or a part
of it in each way. If it halts, then it halts in all of these ways, and writes the same.

As with schedules, the machine of a session is followed by the one that runs through, with the
values of all the lines that are waiting in its queue from the beginning. A move of the session is a
step of the follower, or nothing to it: then the session has just asked for a line, or has taken
one. Since a line that has been taken is gone, the session cannot go on for ever without the
follower.
-/

namespace Intcode

namespace Line

/-- The values that a line holds. A line that is no text, or no program text with commas, holds
none. -/
def values (l : Line) : List Cell :=
  match (decode l).map (ProgramText.parse ',') with
  | some (.ok values) => values
  | some (.error _) | none => []

variable {l : Line} {vs : List Cell} {error : Error}

theorem values_of_read (h : l.read = .ok vs) : l.values = vs := by
  cases hdecode : decode l with
  | none => simp [read, hdecode] at h
  | some text =>
      cases hparse : ProgramText.parse ',' text with
      | error error => simp [read, hdecode, hparse] at h
      | ok values =>
          obtain rfl : values = vs := by simpa [read, hdecode, hparse] using h
          simp [Line.values, hdecode, hparse]

theorem values_of_read_eq_error (h : l.read = .error error) : l.values = [] := by
  cases hdecode : decode l with
  | none => simp [values, hdecode]
  | some text =>
      cases hparse : ProgramText.parse ',' text with
      | error error => simp [values, hdecode, hparse]
      | ok values => simp [read, hdecode, hparse] at h

end Line

namespace Machine

variable {m m' : Machine} {signal : Signal}

/-- A machine pauses before an input if there is nothing to read and it may wait. Without later
input, it would fail if it did not. -/
theorem Executes.of_paused_input (h : m.Executes signal m') (hstatus : m'.status = .paused .input) :
    signal = .awaitingInput ∧ m.config.pauseOnInput = true ∧
      (m'.uninterrupted []).Refuses .inputExhausted := by
  obtain rfl := h.paused_input_iff.1 hstatus
  cases h with
  | await hi hd hq hp =>
      have hqueue : m.queue.values ++ [] = [] := by rw [hq, List.append_nil]
      exact ⟨rfl, hp, .exhausted hi hd hqueue rfl⟩

end Machine

namespace Session

/-- The machine stands as the phase of the session has it. -/
structure Coherent (s : Session) : Prop where
  of_executing : s.phase = .executing → s.machine.status ≠ .halted
  of_prompting : s.phase = .prompting → s.machine.status ≠ .halted ∧
    s.machine.config.pauseOnInput = true ∧ (s.machine.uninterrupted []).Refuses .inputExhausted
  of_closed : s.phase = .closed true → s.machine.status = .halted

variable {s s' : Session} {unread unread' : List Line} {new : List Event}

theorem Coherent.of_not_halted (hphase : s.phase = .executing) (h : s.machine.status ≠ .halted) :
    s.Coherent :=
  ⟨fun _ ↦ h, fun hp ↦ by simp [hphase] at hp, fun hp ↦ by simp [hphase] at hp⟩

theorem Coherent.moves (h : s.Coherent) (hs : s.Moves unread s' unread' new) :
    s'.Coherent := by
  cases hs with
  | fail => exact ⟨nofun, nofun, nofun⟩
  | go hphase hstep hstatus => exact .of_not_halted hphase (by simp [hstatus])
  | @put _ signal m hphase hstep hstatus =>
      have htaken : m.takeQueue.2.status ≠ .halted := by simp [Machine.takeQueue, hstatus]
      exact .of_not_halted hphase (by simp [Machine.status_start htaken])
  | @await _ signal m hphase hstep hstatus =>
      have hx := (Machine.step_eq_ok_iff (h.of_executing hphase)).1 hstep
      obtain ⟨-, hwaits, hrefuses⟩ := hx.of_paused_input hstatus
      have hconfig := Machine.config_of_step hstep
      exact ⟨nofun, fun _ ↦ ⟨by simp [hstatus], by rw [hconfig]; exact hwaits, hrefuses⟩, nofun⟩
  | halt hphase hstep hstatus => exact ⟨nofun, nofun, fun _ ↦ hstatus⟩
  | hangUp => exact ⟨nofun, nofun, nofun⟩
  | reject => exact h
  | accept hphase =>
      have htaken : s.machine.takeQueue.2.status ≠ .halted := (h.of_prompting hphase).1
      exact .of_not_halted rfl (by simp [Machine.status_start htaken])

/-- The machine of the session if it runs through, with all that it could still be given. -/
def through (s : Session) (unread : List Line) : Machine :=
  s.machine.uninterrupted
    (if s.machine.config.pauseOnInput then unread.flatMap Line.values else [])

/-- For how many moves, at most, a session can go on without its machine. -/
def patience (s : Session) (unread : List Line) : Nat :=
  2 * unread.length + if s.phase = .executing then 1 else 0

/-- What a move of a session is for the machine that runs through. -/
inductive Follows (s : Session) (unread : List Line) (s' : Session) (unread' : List Line) : Prop
  /-- It makes a step. -/
  | step {signal : Signal} (phase : s'.phase ≠ .closed false)
      (step : (s.through unread).step = (.ok signal, s'.through unread')) :
      Follows s unread s' unread'
  /-- It stays as it is. -/
  | wait (phase : s'.phase ≠ .closed false) (same : s'.through unread' = s.through unread)
      (impatient : s'.patience unread' < s.patience unread) : Follows s unread s' unread'
  /-- It fails, and the session is closed. -/
  | fail {f : Fault} {m : Machine} (phase : s'.phase = .closed false)
      (step : (s.through unread).step = (.error f, m)) : Follows s unread s' unread'

theorem Coherent.status_through (h : s.Coherent) (hopen : s.Open) (unread : List Line) :
    (s.through unread).status = .running := by
  rcases hopen with hphase | hphase
  · exact Machine.status_uninterrupted (h.of_executing hphase)
  · exact Machine.status_uninterrupted (h.of_prompting hphase).1

theorem Coherent.status_through_of_closed (h : s.Coherent) (hphase : s.phase = .closed true)
    (unread : List Line) : (s.through unread).status = .halted :=
  if_pos (h.of_closed hphase)

/-- Unless it has failed, a session is open while the machine that runs through is running, and is
closed once that machine has halted. -/
theorem Coherent.open_or_closed (h : s.Coherent) (hphase : s.phase ≠ .closed false)
    (unread : List Line) :
    s.Open ∧ (s.through unread).status = .running ∨
      s.phase = .closed true ∧ (s.through unread).status = .halted := by
  match hs : s.phase with
  | .executing => exact .inl ⟨.inl hs, h.status_through (.inl hs) unread⟩
  | .prompting => exact .inl ⟨.inr hs, h.status_through (.inr hs) unread⟩
  | .closed true => exact .inr ⟨rfl, h.status_through_of_closed hs unread⟩
  | .closed false => exact absurd hs hphase

theorem through_of_waiting (h : s.machine.config.pauseOnInput = true) :
    s.through unread = s.machine.uninterrupted (unread.flatMap Line.values) := by
  simp [through, h]

theorem step_through {signal : Signal} {m : Machine} (h : s.machine.status ≠ .halted)
    (hstep : s.machine.step = (.ok signal, m)) (hstatus : m.status ≠ .paused .input)
    (unread : List Line) :
    (s.through unread).step = (.ok signal, { s with machine := m }.through unread) := by
  unfold through
  rw [Machine.config_of_step hstep]
  exact Machine.step_uninterrupted h hstep
    (((Machine.step_eq_ok_iff h).1 hstep).ne_awaitingInput hstatus)

theorem Moves.follows (hs : s.Moves unread s' unread' new) (h : s.Coherent) :
    Follows s unread s' unread' := by
  cases hs with
  | fail hphase hstep =>
      -- A machine that may wait for input does not fail for want of it.
      exact .fail rfl (Machine.step_uninterrupted_of_error hstep fun hwaits ↦ by simp [hwaits])
  | go hphase hstep hstatus =>
      have hgone := step_through (h.of_executing hphase) hstep (by simp [hstatus]) unread
      exact .step (by simp [hphase]) hgone
  | @put _ signal m hphase hstep hstatus =>
      have hput := step_through (h.of_executing hphase) hstep (by simp [hstatus]) unread
      have hresumed : { s with machine := m.takeQueue.2.start m.takeQueue.1 }.through unread =
          { s with machine := m }.through unread := by
        unfold through
        rw [Machine.config_start, Machine.uninterrupted_resume (by simp [hstatus])]
        rfl
      rw [← hresumed] at hput
      exact .step (by simp [hphase]) hput
  | @await _ signal m hphase hstep hstatus =>
      have hrunning := h.of_executing hphase
      have hx := (Machine.step_eq_ok_iff hrunning).1 hstep
      obtain ⟨rfl, -, -⟩ := hx.of_paused_input hstatus
      refine .wait nofun ?_ (by simp [patience, hphase])
      unfold through
      rw [Machine.config_of_step hstep]
      exact Machine.uninterrupted_of_awaitingInput hx hrunning _
  | halt hphase hstep hstatus =>
      have hhalted := step_through (h.of_executing hphase) hstep (by simp [hstatus]) unread
      exact .step nofun hhalted
  | hangUp hphase =>
      -- No line is left, so the machine that runs through has nothing to read either.
      obtain ⟨hrunning, hwaits, hrefuses⟩ := h.of_prompting hphase
      have hfollower : (s.machine.uninterrupted []).status ≠ .halted := by
        simp [Machine.status_uninterrupted hrunning]
      have hstep := Machine.step_of_plan_eq_error hfollower (Machine.plan_eq_error_iff.2 hrefuses)
      rw [← List.flatMap_nil (f := Line.values), ← through_of_waiting hwaits] at hstep
      exact .fail rfl hstep
  | reject hphase hread =>
      obtain ⟨hrunning, hwaits, -⟩ := h.of_prompting hphase
      refine .wait (by simp [hphase]) ?_ (by simp [patience, hphase])
      rw [through_of_waiting hwaits, through_of_waiting hwaits, List.flatMap_cons,
        Line.values_of_read_eq_error hread, List.nil_append]
  | @accept line _ values hphase hread =>
      obtain ⟨hrunning, hwaits, -⟩ := h.of_prompting hphase
      have hpatience : 2 * unread'.length + 1 < 2 * (unread'.length + 1) := by omega
      refine .wait nofun ?_ (by simpa [patience, hphase] using hpatience)
      have hstarted : (s.machine.takeQueue.2.start
          (s.machine.takeQueue.1.extend values)).config.pauseOnInput = true := by
        rw [Machine.config_start]
        exact hwaits
      rw [through_of_waiting hwaits, through_of_waiting hstarted, List.flatMap_cons,
        Line.values_of_read hread]
      exact Machine.start_takeQueue hrunning values

end Session

namespace Transcript

variable {t t' : Transcript} {m : Machine}

theorem coherent_advance (ht : t.session.Coherent) (hopen : t.session.Open) :
    t.advance.session.Coherent := by
  obtain ⟨_, hmoves, -⟩ := moves_advance hopen
  exact ht.moves hmoves

theorem follows_advance (ht : t.session.Coherent) (hopen : t.session.Open) :
    Session.Follows t.session t.unread t.advance.session t.advance.unread := by
  obtain ⟨_, hmoves, -⟩ := moves_advance hopen
  exact hmoves.follows ht

/-- A session that closes with success does so with a machine that halts in running through. -/
theorem Closes.ends (h : Closes t t') (hphase : t'.session.phase = .closed true)
    (ht : t.session.Coherent) :
    (t.session.through t.unread).Ends (.ok .halted) (t'.session.through t'.unread) := by
  induction h with
  | @closed t =>
      have hstatus := ht.status_through_of_closed hphase t.unread
      exact hstatus ▸ .stop (by simp [hstatus])
  | @next t t' hrest ih =>
      obtain hopen | ⟨success, hclosed⟩ := t.session.open_or_closed
      · have hadvance := coherent_advance ht hopen
        cases follows_advance ht hopen with
        | step _ hstep => exact .next (ht.status_through hopen t.unread) hstep (ih hphase hadvance)
        | wait _ hsame =>
            rw [← hsame]
            exact ih hphase hadvance
        | fail hfailed =>
            rw [hrest.eq_of_closed hfailed, hfailed] at hphase
            cases hphase
      · rw [advance_of_closed hclosed] at ih
        exact ih hphase ht

/-- A session comes to make the next step of the machine that runs through, if that machine does not
fail. -/
theorem exists_step {t : Transcript} {signal : Signal}
    (hrunning : (t.session.through t.unread).status = .running)
    (hstep : (t.session.through t.unread).step = (.ok signal, m)) (ht : t.session.Coherent)
    (hphase : t.session.phase ≠ .closed false) :
    ∃ t₁, (∀ t', Closes t₁ t' → Closes t t') ∧ t₁.session.Coherent ∧
      t₁.session.phase ≠ .closed false ∧ t₁.session.through t₁.unread = m := by
  obtain ⟨hopen, -⟩ | ⟨-, hhalted⟩ := ht.open_or_closed hphase t.unread
  · have hadvance := coherent_advance ht hopen
    cases follows_advance ht hopen with
    | step hphase' hstep' =>
        cases hstep.symm.trans hstep'
        exact ⟨t.advance, fun _ ↦ .next, hadvance, hphase', rfl⟩
    | wait hphase' hsame himpatient =>
        -- The machine that runs through has not moved, so the step is still to be made.
        rw [← hsame] at hstep hrunning
        obtain ⟨t₁, hcloses, hrest⟩ := exists_step hrunning hstep hadvance hphase'
        exact ⟨t₁, fun t' h ↦ .next (hcloses t' h), hrest⟩
    | fail _ hstep' => cases hstep.symm.trans hstep'
  · rw [hhalted] at hrunning
    cases hrunning
termination_by t.session.patience t.unread

/-- If the machine that runs through halts, the session closes with success, and leaves the same
machine. -/
theorem closes_of_ends (h : (t.session.through t.unread).Ends (.ok .halted) m)
    (ht : t.session.Coherent) (hphase : t.session.phase ≠ .closed false) :
    ∃ t', Closes t t' ∧ t'.session.phase = .closed true ∧ t'.session.through t'.unread = m := by
  generalize hthrough : t.session.through t.unread = m₀ at h
  generalize hr : (.ok .halted : Except Fault Status) = r at h
  -- The induction is on the steps of the machine that runs through, and the session may make several
  -- moves for each.
  induction h generalizing t with
  | stop hstopped =>
      obtain ⟨-, hrunning⟩ | ⟨hclosed, -⟩ := ht.open_or_closed hphase t.unread
      · exact absurd (hthrough ▸ hrunning) hstopped
      · exact ⟨t, .closed hclosed, hclosed, hthrough⟩
  | fail => cases hr
  | next hrunning hstep _ ih =>
      subst hthrough
      obtain ⟨t₁, hcloses, ht₁, hphase₁, hthrough₁⟩ := exists_step hrunning hstep ht hphase
      obtain ⟨t', hcloses', hrest⟩ := ih ht₁ hphase₁ hthrough₁ hr
      exact ⟨t', hcloses t' hcloses', hrest⟩

/-- Of two sessions whose machines are the same in running through, one closes with success if the
other does, and both have written the same then, if they have opened alike. -/
theorem Closes.of_through {opening : String} {t₁ : Transcript} (h : Closes t t')
    (hphase : t'.session.phase = .closed true) (ht : t.session.Coherent)
    (ht₁ : t₁.session.Coherent) (hphase₁ : t₁.session.phase ≠ .closed false)
    (hthrough : t.session.through t.unread = t₁.session.through t₁.unread)
    (hdump : t.session.dump = t₁.session.dump) (htells : t.Tells opening)
    (htells₁ : t₁.Tells opening) :
    ∃ t₁', Closes t₁ t₁' ∧ t₁'.session.phase = .closed true ∧
      Event.gather Event.stdout t₁'.events.toList = Event.gather Event.stdout t'.events.toList := by
  have hends := h.ends hphase ht
  rw [hthrough] at hends
  obtain ⟨t₁', h₁, hphase₁', hthrough'⟩ := closes_of_ends hends ht₁ hphase₁
  have houtput := congrArg Machine.output hthrough'
  have hmemory := congrArg Machine.memory hthrough'
  have hdump' : t₁'.session.dump = t'.session.dump := by rw [h₁.dump_eq, h.dump_eq, hdump]
  exact ⟨t₁', h₁, hphase₁', (htells₁.closes h₁).eq_of_closed (htells.closes h) hphase₁' hphase
    houtput hmemory hdump'⟩

end Transcript

namespace Command.Options

variable {options : Options} {s : Surroundings} {out : String}

/-- The invocation ends with success, and `out` is all that it has written on standard output. -/
def Succeeds (options : Options) (s : Surroundings) (out : String) : Prop :=
  ∃ stderr, options.Reports s ⟨0, out, stderr⟩

theorem succeeds_iff_of_ready {session : Session} {events : List Event}
    (h : options.prepare s.traced (s.files.readText options.file) = (.ready session, events)) :
    options.Succeeds s out ↔
      ∃ t, Transcript.Closes ⟨session, Line.split s.stdin, events.toArray⟩ t ∧
        t.session.phase = .closed true ∧ Event.gather Event.stdout t.events.toList = out := by
  simp only [Succeeds, reports_iff_of_ready h, Report.ofEvents_eq, Report.mk.injEq]
  constructor
  · rintro ⟨stderr, t, success, hcloses, hphase, hcode, rfl, rfl⟩
    cases success with
    | true => exact ⟨t, hcloses, hphase, rfl⟩
    | false => cases hcode
  · rintro ⟨t, hcloses, hphase, rfl⟩
    exact ⟨_, t, true, hcloses, hphase, rfl, rfl, rfl⟩

theorem coherent_opened (options : Options) (traced : Bool) (memory : Memory) :
    (options.opened traced memory).Coherent :=
  .of_not_halted rfl (by simp [opened, Session.ofMachine, Machine.start, Machine.fresh])

/-- All the input is in the queue, wherever it comes from. -/
theorem through_opened (options : Options) (traced : Bool) (memory : Memory) (xs : List Cell)
    (unread unread' : List Line) :
    ({ options with
      inputs := xs ++ unread.flatMap Line.values
      interactive := false }.opened traced memory).through unread' =
    ({ options with inputs := xs, interactive := true }.opened traced memory).through unread := by
  have hqueue : (Queue.ofList (xs ++ unread.flatMap Line.values)).extend [] =
      (Queue.ofList xs).extend (unread.flatMap Line.values) :=
    Queue.extend_nil _
  simp only [opened, config, Session.through, Session.ofMachine, Machine.start, Machine.fresh,
    Machine.uninterrupted, Machine.unpaused, reduceCtorEq, if_false, if_true, Bool.false_eq_true,
    hqueue]

/-- Where the input comes from makes no difference to an invocation that ends with success: the
values of the lines on standard input could just as well stand at the end of the command line.
Either invocation ends with success if the other does, and they write the same on standard
output. -/
theorem inputSource_irrelevant (options : Options) (s : Surroundings) (xs : List Cell)
    (stdin : List UInt8) (out : String) :
    { options with
      inputs := xs ++ (Line.split stdin).flatMap Line.values
      interactive := false }.Succeeds s out ↔
    { options with inputs := xs, interactive := true }.Succeeds { s with stdin } out := by
  obtain ⟨events, ⟨success, hprepare⟩ | hprepare | ⟨memory, hprepare⟩⟩ :=
    options.prepare_cases s.traced (s.files.readText options.file)
  · have hgiven :=
      hprepare (xs ++ (Line.split stdin).flatMap Line.values) false options.pauseOnOutput
    have hasked := hprepare xs true options.pauseOnOutput
    exact exists_congr fun stderr ↦
      (reports_iff_of_over hgiven).trans (reports_iff_of_over (s := { s with stdin }) hasked).symm
  · have hgiven :=
      hprepare (xs ++ (Line.split stdin).flatMap Line.values) false options.pauseOnOutput
    have hasked := hprepare xs true options.pauseOnOutput
    exact exists_congr fun stderr ↦ iff_of_false (not_reports_of_lost hgiven)
      (not_reports_of_lost (s := { s with stdin }) hasked)
  · have hgiven :=
      hprepare (xs ++ (Line.split stdin).flatMap Line.values) false options.pauseOnOutput
    have hasked := hprepare xs true options.pauseOnOutput
    rw [succeeds_iff_of_ready hgiven, succeeds_iff_of_ready (s := { s with stdin }) hasked]
    have hthrough :=
      through_opened options s.traced memory xs (Line.split stdin) (Line.split s.stdin)
    constructor
    · rintro ⟨t, hcloses, hphase, rfl⟩
      exact hcloses.of_through hphase (coherent_opened ..) (coherent_opened ..) nofun hthrough
        rfl .ofMachine .ofMachine
    · rintro ⟨t, hcloses, hphase, rfl⟩
      exact hcloses.of_through hphase (coherent_opened ..) (coherent_opened ..) nofun
        hthrough.symm rfl .ofMachine .ofMachine

end Command.Options

end Intcode
