import Intcode.Proofs.Command.Reports
import Intcode.Proofs.Session.Prompts

/-!
# Prompts on standard input

An invocation that reads from standard input reads it line by line, and asks for each line. Whatever
the bytes are, the session cannot ask more often than there are lines, except once; and if it asks
when there is none, the invocation fails.
-/

namespace Intcode.Command

namespace Options

variable {options : Options} {s : Surroundings} {session : Session} {events : List Event}
  {traced : Bool} {source : Except FileError String} {opening : Opening}

/-! ## Preparation -/

theorem prompts_prepare (h : options.prepare traced source = (opening, events)) :
    Event.prompts events = 0 := by
  refine Event.prompts_eq_zero fun e he ↦ ?_
  obtain ⟨n, rfl⟩ | ⟨entry, rfl⟩ := eq_of_mem_prepare h he <;> rfl

/-- A session that is held is executing at first. -/
theorem phase_of_prepare (h : options.prepare traced source = (.ready session, events)) :
    session.phase = .executing := by
  obtain ⟨_, _, _, rfl, _⟩ := exists_place_of_prepare h
  rfl

/-! ## The session -/

/-- The transcript of an invocation after some steps of its session. -/
def transcript (s : Surroundings) (session : Session) (events : List Event) (budget : Nat) :
    Transcript :=
  .play budget ⟨session, Line.split s.stdin, events.toArray⟩

theorem answered_transcript
    (h : options.prepare s.traced (s.files.readText options.file) = (.ready session, events))
    (budget : Nat) :
    Transcript.Answered (Line.split s.stdin) (transcript s session events budget) := by
  have hstart : Transcript.Answered (Line.split s.stdin)
      ⟨session, Line.split s.stdin, events.toArray⟩ := by
    refine ⟨List.suffix_rfl, ?_⟩
    simp [phase_of_prepare h, prompts_prepare h, Phase.Tallies]
  exact hstart.play budget

theorem transcript_succ (s : Surroundings) (session : Session) (events : List Event)
    (budget : Nat) :
    transcript s session events (budget + 1) = (transcript s session events budget).advance := by
  rw [transcript, Transcript.play_add, Transcript.play_succ]
  rfl

theorem run_of_closed {success : Bool}
    (h : options.prepare s.traced (s.files.readText options.file) = (.ready session, events))
    {budget : Nat}
    (hclosed : (transcript s session events budget).session.phase = .closed success) :
    ∃ report, options.run budget s = some report ∧ report.code = exitCode success := by
  refine ⟨.ofEvents (exitCode success) (options.style s.painting)
    (transcript s session events budget).events.toList, ?_, rfl⟩
  unfold transcript at hclosed ⊢
  simp only [run, h, hclosed]

/-- What the prompts of a session tell after some steps of it. -/
structure Prompted (options : Options) (s : Surroundings) (budget : Nat) (t : Transcript) :
    Prop where
  /-- There is one prompt more than there are lines at most. -/
  le : Event.prompts t.events.toList ≤ (Line.split s.stdin).length + 1
  /-- The prompt that waits will be answered from the bytes that the prompts before it have left. -/
  unread_eq : t.session.phase = .prompting →
    t.unread = Line.split (Line.left (Event.prompts t.events.toList - 1) s.stdin)
  /-- With no line left, a session that prompts is over in one step, and has failed. -/
  hangs_up : t.session.phase = .prompting → t.unread = [] →
    ∃ report, options.run (budget + 1) s = some report ∧ report.code = 1
  /-- A session that has prompted more often than there are lines fails. -/
  fails : (Line.split s.stdin).length < Event.prompts t.events.toList →
    ∃ report, options.Reports s report ∧ report.code = 1

theorem prompted_transcript
    (h : options.prepare s.traced (s.files.readText options.file) = (.ready session, events))
    (budget : Nat) : options.Prompted s budget (transcript s session events budget) := by
  have hanswered := answered_transcript h budget
  have hhangs_up (hphase : (transcript s session events budget).session.phase = .prompting)
      (hunread : (transcript s session events budget).unread = []) :
      ∃ report, options.run (budget + 1) s = some report ∧ report.code = 1 := by
    have hclosed := Transcript.closes_of_unread_eq_nil hphase hunread
    rw [← transcript_succ] at hclosed
    exact run_of_closed h hclosed
  refine ⟨hanswered.tallies.le, fun hphase ↦ ?_, hhangs_up, fun hlt ↦ ?_⟩
  · rw [Line.split_left]
    exact hanswered.unread_eq hphase
  · obtain ⟨hnone, hphase | hclosed⟩ := hanswered.tallies.of_lt hlt
    · obtain ⟨report, hrun, hcode⟩ := hhangs_up hphase (List.eq_nil_of_length_eq_zero hnone)
      exact ⟨report, ⟨_, hrun⟩, hcode⟩
    · obtain ⟨report, hrun, hcode⟩ := run_of_closed h hclosed
      exact ⟨report, ⟨_, hrun⟩, hcode⟩

/-- Bytes are cut into lines in one way, and the questions for input are answered by the lines in
their order, each by its own bytes, until there are no more: a line that is no good is taken like
any other, and nothing after it. Each line is judged as program text with commas, if it is text.
So what is written line by line is read line by line, and a session asks for each line and at most
once in vain, in which case it fails. -/
theorem lines_answer_prompts (bytes : List UInt8) :
    (∀ ls, Line.Framed bytes ls ↔ ls = Line.split bytes) ∧
    (∀ k, (Line.ask (Line.left k bytes)).1 = (Line.split bytes)[k]?.map Line.read ∧
      Line.left k bytes = ((Line.split bytes).drop k).flatten) ∧
    (∀ l : Line,
      (∀ vs, l.read = .ok vs ↔
        ∃ text, Line.encode text = l ∧ ProgramText.parse ',' text = .ok vs) ∧
      (∀ e, l.read = .error (.malformed e) ↔
        ∃ text, Line.encode text = l ∧ ProgramText.parse ',' text = .error e) ∧
      (l.read = .error .notText ↔ ∀ text, Line.encode text ≠ l)) ∧
    (∀ vss k, (Line.ask (Line.left k (vss.flatMap Line.written))).1 = vss[k]?.map .ok ∧
      ∀ vs ≠ [],
        (Line.ask (Line.left k (vss.flatMap Line.written ++ Line.encode (Line.joined vs)))).1 =
          (vss ++ [vs])[k]?.map .ok) ∧
    ∀ (options : Options) (s : Surroundings) (session : Session) (events : List Event),
      s.stdin = bytes →
      options.prepare s.traced (s.files.readText options.file) = (.ready session, events) →
      ∀ budget, options.Prompted s budget (transcript s session events budget) := by
  refine ⟨fun _ ↦ Line.framed_iff, fun k ↦ ⟨Line.ask_left k bytes, Line.left_eq k bytes⟩,
    fun _ ↦ ⟨fun _ ↦ Line.read_eq_ok_iff, fun _ ↦ Line.read_eq_malformed_iff,
      Line.read_eq_notText_iff⟩,
    fun vss k ↦ ⟨?_, fun vs hvs ↦ ?_⟩, fun _ _ _ _ _ h ↦ prompted_transcript h⟩
  · have hread := Line.map_read_split_written vss []
    rw [Line.split_nil, List.map_nil, List.append_nil, List.append_nil] at hread
    rw [Line.ask_left, ← List.getElem?_map, hread, List.getElem?_map]
  · have hread := Line.map_read_split_written vss (Line.encode (Line.joined vs))
    rw [Line.split_joined hvs, List.map_singleton, Line.read_joined, ← List.map_singleton,
      ← List.map_append] at hread
    rw [Line.ask_left, ← List.getElem?_map, hread, List.getElem?_map]

/-- A program that reads a value and halts, on a line that holds none. -/
def asking : Options where
  file := "ask"
  capacity := 4
  interactive := true

/-- A disk with the text `3,0,99` in a file, and a line with one letter to read. -/
def askingDisk : Surroundings where
  files := .ofList [("ask", [51, 44, 48, 44, 57, 57])]
  stdin := [120, 10]

/-- The session prompts for the line, and prompts again when the line is no good. Of two lines of
values, the second is answered though its newline is missing. -/
theorem lines_answer_prompts_of_asking :
    (Line.ask (Line.left 1 (Line.written [1] ++ Line.encode (Line.joined [-2, 3])))).1 =
        some (.ok [-2, 3]) ∧
    ∃ session events, asking.prepare askingDisk.traced (askingDisk.files.readText asking.file) =
        (.ready session, events) ∧
      Event.prompts (transcript askingDisk session events 2).events.toList = 2 ∧
      ∃ report, asking.run 3 askingDisk = some report ∧ report.code = 1 := by
  have hread : askingDisk.files.readText asking.file = .ok "3,0,99" := rfl
  have hparse : ProgramText.parse asking.delimiter "3,0,99" = .ok [3, 0, 99] := rfl
  have hprepare : asking.prepare askingDisk.traced (askingDisk.files.readText asking.file) =
      (.ready (asking.opened false ⟨#[3, 0, 99, 0]⟩), [.notice (.loaded 3 "ask")]) := by
    rw [hread]
    simp only [prepare, hparse]
    rfl
  obtain ⟨-, -, -, hwritten, hsessions⟩ := lines_answer_prompts [120, 10]
  have hsecond := (hwritten [[1]] 1).2 [-2, 3] (by decide)
  have hprompted := hsessions asking askingDisk _ _ rfl hprepare 2
  exact ⟨hsecond, _, _, hprepare, by decide +kernel,
    hprompted.hangs_up (by decide +kernel) (by decide +kernel)⟩

end Options

end Intcode.Command
