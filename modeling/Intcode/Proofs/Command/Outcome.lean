import Intcode.Proofs.Listing
import Intcode.Proofs.Machine.Reload
import Intcode.Proofs.Session.Account

/-!
# Outcomes

What an invocation that executes its program leaves behind: the lines on standard output, the exit
code, and the messages on standard error, one of which is about the input that was not read. All of
it is read off the course of the session, that is, off the machine and the lines before each move.
-/

namespace Intcode

open Text

/-- The lines for the cells of a span, as far as memory reaches. -/
def Memory.dumpLines (memory : Memory) (span : Span) : List String :=
  (List.range' span.start (min span.stop memory.capacity - span.start)).map fun i ↦
    Column.right 6 (Decimal.ofNat i) ++ ": " ++ (memory.cells[i]?.getD 0).text

theorem Event.gather_stdout_values (values : List Cell) :
    gather stdout (values.map .value) = unlines (values.map Cell.text) := by
  simp only [gather, unlines, List.map_map]
  rfl

namespace Session

open Event

variable {memory : Memory} {span : Span}

/-- The cells of a span are numbered by their indices. -/
theorem mapIdx_extract_eq {γ : Type} (f : Nat → Cell → γ) {cells : Array Cell} (start : Nat)
    {stop : Nat} (hstop : stop ≤ cells.size) :
    (cells.extract start stop).toList.mapIdx (fun i v ↦ f (start + i) v) =
      (List.range' start (stop - start)).map fun i ↦ f i (cells[i]?.getD 0) := by
  have hlength : min (stop - start) (cells.size - start) = stop - start := by omega
  refine List.ext_getElem (by simpa using hlength) fun i hi hi' ↦ ?_
  have hi : i < stop - start := by simpa using hi'
  have hcell : cells[start + i]? = some cells[start + i] := Array.getElem?_eq_getElem (by omega)
  simp [hcell]

theorem gather_stdout_dumpCells :
    gather stdout (dumpCells memory span) = unlines (memory.dumpLines span) := by
  have hstop : min span.stop memory.capacity ≤ memory.cells.size := Nat.min_le_right _ _
  have hcells := mapIdx_extract_eq Event.cell span.start hstop
  have hclipped : gather stdout (if min span.stop memory.capacity < span.stop then
      [.notice (.dumpClipped memory.capacity)] else []) = "" := by
    split <;> rfl
  rw [dumpCells, gather_append, hclipped, hcells, String.empty_append]
  simp only [gather, unlines, Memory.dumpLines, List.map_map]
  rfl

/-- What a session has written when it is closed. -/
theorem gather_stdout_written {s : Session} {success : Bool}
    (hsize : s.machine.output.size ≤ s.printed) (hphase : s.phase = .closed success) :
    gather stdout s.written = unlines (s.machine.output.toList.map Cell.text ++
      if success then s.dump.elim [] s.machine.memory.dumpLines else []) := by
  have hsummary : gather stdout (summary s.dump s.machine) =
      unlines (s.dump.elim [] s.machine.memory.dumpLines) := by
    rw [gather_stdout_summary]
    cases s.dump with
    | none => rfl
    | some span => exact gather_stdout_dumpCells
  rw [written_of_size_le hsize, gather_append, gather_stdout_values, unlines_append, hphase]
  cases success with
  | true => simp [hsummary]
  | false => simp

section Course

variable {s s' : Session} {unread : List Line} {course : List Move} {m : Machine}
  {inputs : List Cell} {traced success : Bool} {dump : Option Span}

/-- What has been written is told move by move. -/
theorem Course.tells {opening gathered : String} (h : s.Course unread course s')
    (hs : s.Tells opening gathered) :
    s'.Tells opening (gathered ++ gather stdout (Move.shown course)) := by
  induction h generalizing gathered with
  | closed => simpa using hs
  | move hm _ ih =>
      have hrest := ih (hs.moves hm)
      rwa [String.append_assoc, ← gather_append] at hrest

/-- What is written in the course of a session. -/
theorem Course.gather_stdout_shown (h : (ofMachine m inputs traced dump).Course unread course s')
    (hphase : s'.phase = .closed success) :
    gather stdout (Move.shown course) = unlines (s'.machine.output.toList.map Cell.text ++
      if success then dump.elim [] s'.machine.memory.dumpLines else []) := by
  have hstart : (ofMachine m inputs traced dump).Tells "" "" :=
    (Transcript.Tells.ofMachine : Transcript.Tells ⟨_, unread, List.toArray []⟩ _)
  obtain ⟨hgathered, -, hsize⟩ := h.tells hstart
  have hdump : s'.dump = dump :=
    h.invariant (P := fun s ↦ s.dump = dump) (fun hm hs ↦ hm.dump_eq.trans hs) rfl
  rw [String.empty_append, String.empty_append] at hgathered
  rw [hgathered, gather_stdout_written (hsize (by simp [hphase])) hphase, hdump]

/-- What is said, in the course of a session, of the values that were supplied and not read. -/
theorem Course.filterMap_leftover? (h : (ofMachine m inputs traced dump).Course unread course s')
    (hs : (ofMachine m inputs traced dump).Coherent) (hphase : s'.phase = .closed true) :
    (Move.shown course).filterMap Event.leftover? =
      if Move.inputs course < inputs.length + (Move.supplied course).length then
        [inputs.length + (Move.supplied course).length - Move.inputs course]
      else [] := by
  have hrunning : m.status ≠ .halted := by
    intro hhalted
    have hstarted : (m.start (.ofList inputs)).status ≠ .halted := hs.of_executing rfl
    simp [Machine.start, hhalted] at hstarted
  have hstarted : (ofMachine m inputs traced dump).machine.queue = .ofList inputs :=
    Machine.queue_start hrunning _
  have hsize := h.queue_size hs
  rw [hstarted, Queue.size, Queue.size, Queue.values_ofList] at hsize
  rw [h.leftover_eq (.inl rfl), leftover, Queue.size]
  have hleft : s'.machine.queue.values.length =
      inputs.length + (Move.supplied course).length - Move.inputs course := by omega
  simp only [hphase, true_and, hleft]
  congr 1
  rw [eq_iff_iff]
  omega

end Course

end Session

namespace Command

theorem exitCode_eq_zero_iff {success : Bool} : exitCode success = 0 ↔ success = true := by
  cases success <;> decide

theorem exitCode_eq_one_iff {success : Bool} : exitCode success = 1 ↔ success = false := by
  cases success <;> decide

namespace Options

variable {options : Options} {s : Surroundings} {report : Report} {text : String}
  {program : List Cell}

/-- All that is told of an invocation that executes its program. -/
def messages (options : Options) (program : List Cell) (course : List Move) : List Message :=
  (options.preface program ++ Move.shown course).filterMap Event.message?

/-- The report of an invocation that has executed its program in the course of a session. -/
structure Outcome (options : Options) (paint : Level → String → String) (program : List Cell)
    (course : List Move) (final : Session) (report : Report) : Prop where
  /-- The listing, the values put out, and after a halt the cells to dump. -/
  stdout : report.stdout = unlines
    ((if options.disassemble then (listing program.toArray 0).map Entry.text else []) ++
      final.machine.output.toList.map Cell.text ++
      if report.code = 0 then options.dump.elim [] final.machine.memory.dumpLines else [])
  capacity : final.machine.memory.capacity = options.capacity
  code : report.code = 0 ∨ report.code = 1
  success : report.code = 0 ↔ .halt ∈ Move.executed course
  failure : report.code = 1 ↔ ∃ x ∈ course, x.session.Breaks x.unread
  stderr : report.stderr =
    Message.written paint (Message.heard options.quiet (options.messages program course))
  /-- The warning about the values that were supplied and not read. -/
  leftover : report.code = 0 → ∃ before after, options.messages program course = before ++
    (if Move.inputs course < options.inputs.length + (Move.supplied course).length then
      [.leftover (options.inputs.length + (Move.supplied course).length - Move.inputs course)]
    else []) ++ after ∧ ∀ count, .leftover count ∉ before ++ after

theorem gather_stdout_preface : Event.gather Event.stdout (options.preface program) =
    unlines (if options.disassemble then (listing program.toArray 0).map Entry.text else []) := by
  rw [preface, Event.gather_cons]
  split
  · rw [Event.gather_stdout_entries]
    exact String.empty_append
  · rfl

theorem filterMap_leftover?_preface :
    (options.preface program).filterMap Event.leftover? = [] := by
  refine List.filterMap_eq_nil_iff.2 fun e he ↦ ?_
  obtain rfl | ⟨entry, rfl⟩ := eq_of_mem_preface he <;> rfl

/-- What an invocation leaves that executes its program and comes to an end. There is a machine to
execute it whenever the program fits. -/
theorem reports_outcome (hread : s.files.readText options.file = .ok text)
    (hparse : ProgramText.parse options.delimiter text = .ok program)
    (hfits : program.length ≤ options.capacity) (hexec : options.noExec = false)
    (h : options.Reports s report) :
    ∃ m course final, Machine.load program.toArray options.config = .ok m ∧
      (Session.ofMachine m options.inputs s.traced options.dump).Course (Line.split s.stdin) course
        final ∧
      options.Outcome s.painting program course final report := by
  obtain ⟨m, hload⟩ : ∃ m, Machine.load program.toArray options.config = .ok m :=
    ⟨_, Machine.load_of_le hfits⟩
  obtain ⟨memory, hplace, rfl⟩ := Machine.load_eq_ok_iff.1 hload
  have hprepare : options.prepare s.traced (s.files.readText options.file) =
      (.ready (options.opened s.traced memory), options.preface program) := by
    rw [hread]
    obtain hlimit | hlimit := Nat.lt_or_ge options.capacity Memory.limit
    · exact prepare_eq_iff.2 (.ready hparse hexec hlimit hplace)
    · -- For want of memory there would be no report.
      have hlost : options.prepare s.traced (s.files.readText options.file) =
          (.lost, options.preface program) := by
        rw [hread]
        exact prepare_eq_iff.2 (.lost hparse hexec hlimit)
      exact absurd h (not_reports_of_lost hlost)
  obtain ⟨course, final, success, hcourse, hphase, rfl⟩ := (reports_iff_course hprepare).1 h
  have hcoherent := coherent_opened options s.traced memory
  have hcapacity : final.machine.memory.capacity = options.capacity := by
    have hloaded := Memory.capacity_load? (Machine.place_eq_ok_iff.1 hplace)
    rw [Memory.capacity_blank] at hloaded
    exact hcourse.invariant (P := fun s ↦ s.machine.memory.capacity = options.capacity)
      (fun hm hcapacity ↦ hm.capacity_eq.trans hcapacity) hloaded
  refine ⟨_, course, final, hload, hcourse, ?_⟩
  rw [Report.ofEvents_eq]
  constructor
  case stdout =>
    simp only [exitCode_eq_zero_iff, Event.gather_append, gather_stdout_preface,
      hcourse.gather_stdout_shown hphase, ← unlines_append, List.append_assoc]
  case capacity => exact hcapacity
  case code => cases success <;> simp [exitCode]
  case success =>
    have hsuccess := hcourse.success_iff hcoherent
    rw [hphase] at hsuccess
    simpa [exitCode_eq_zero_iff, opened, Session.ofMachine] using hsuccess
  case failure =>
    have hfailure := hcourse.failure_iff
    rw [hphase] at hfailure
    simpa [exitCode_eq_one_iff, opened, Session.ofMachine] using hfailure
  case stderr => exact Event.gather_stderr _ _
  case leftover =>
    intro hcode
    rw [exitCode_eq_zero_iff.1 hcode] at hphase
    have hleftover : (options.preface program ++ Move.shown course).filterMap Event.leftover? =
        if Move.inputs course < options.inputs.length + (Move.supplied course).length then
          [options.inputs.length + (Move.supplied course).length - Move.inputs course]
        else [] := by
      rw [List.filterMap_append, filterMap_leftover?_preface, List.nil_append,
        hcourse.filterMap_leftover? hcoherent hphase]
    obtain ⟨before, after, hmessages, hnone⟩ :=
      Event.exists_messages_eq hleftover (by split <;> simp)
    refine ⟨before, after, ?_, hnone⟩
    rw [messages, hmessages]
    split <;> rfl

/-- A program that reads a value and puts it out, with two values to read. -/
def echoing : Options where
  file := "echo"
  inputs := [7, 8]
  capacity := 8
  dump := some ⟨4, 6, by decide⟩

/-- A disk with the text `3,5,4,5,99` in a file, and nothing on standard input. -/
def disk : Surroundings where
  files := .ofList [("echo", [51, 44, 53, 44, 52, 44, 53, 44, 57, 57])]
  stdin := []

/-- The program halts, so the exit code is zero, and one of the two values is left. -/
theorem reports_outcome_of_echoing :
    ∃ report course final, echoing.Reports disk report ∧ report.code = 0 ∧
      report.stderr = "info: loaded 5 cells from echo\n" ++
        "warning: 1 input value(s) left unconsumed\n" ++
        "info: <IC(echo)> halted at 5 with 1 output value(s)\n" ∧
      echoing.Outcome Level.plain [3, 5, 4, 5, 99] course final report ∧
      .halt ∈ Move.executed course := by
  have hread : disk.files.readText echoing.file = .ok "3,5,4,5,99" := rfl
  have hparse : ProgramText.parse echoing.delimiter "3,5,4,5,99" = .ok [3, 5, 4, 5, 99] := rfl
  have hplace : Machine.place (.blank echoing.capacity) #[3, 5, 4, 5, 99] =
      .ok ⟨#[3, 5, 4, 5, 99, 0, 0, 0]⟩ := rfl
  have hprepare : echoing.prepare disk.traced (disk.files.readText echoing.file) =
      (.ready (echoing.opened false ⟨#[3, 5, 4, 5, 99, 0, 0, 0]⟩),
        echoing.preface [3, 5, 4, 5, 99]) := by
    rw [hread]
    exact prepare_eq_iff.2 (.ready hparse rfl (by decide) hplace)
  have hcloses : Transcript.Closes ⟨echoing.opened false ⟨#[3, 5, 4, 5, 99, 0, 0, 0]⟩, [],
      (echoing.preface [3, 5, 4, 5, 99]).toArray⟩ _ :=
    Transcript.closes_iff_play.2 ⟨9, true, rfl, by decide +kernel⟩
  have hreports := (reports_iff_of_ready hprepare).2 ⟨_, true, hcloses, rfl, rfl⟩
  obtain ⟨_, course, final, -, -, houtcome⟩ :=
    reports_outcome hread hparse (by decide) rfl hreports
  exact ⟨_, course, final, hreports, rfl, by decide +kernel, houtcome, houtcome.success.1 rfl⟩

end Options

end Command

end Intcode
