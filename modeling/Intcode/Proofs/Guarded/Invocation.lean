import Intcode.Proofs.Command.Reports
import Intcode.Proofs.Guarded.Session

/-!
# Invocations without mishaps

All that is done with guards comes to the same as without them: a program is decoded, listed and
loaded, a machine is asked whatever one likes, and a session is held, and no guard ever finds
anything wrong. The programs and memories are those that there can be: a program has a size, and the
cells of memory have addresses.
-/

namespace Intcode

namespace Command.Options

variable {options : Options} {traced : Bool} {source : Except FileError String}
  {session : Session} {events : List Event}

/-- A session that is held has addresses for the cells of its machine. -/
theorem sound_of_prepare (h : options.prepare traced source = (.ready session, events)) :
    session.Sound := by
  obtain ⟨program, memory, hplace, rfl, hlimit⟩ := exists_place_of_prepare h
  have hload : Machine.load program options.config = .ok (.fresh options.config memory) :=
    Machine.load_eq_ok_iff.2 ⟨memory, hplace, rfl⟩
  obtain ⟨-, hconsistent⟩ := Machine.consistent_after hload []
  refine ⟨hconsistent.start _, ?_, Nat.zero_le _⟩
  show ((Machine.fresh options.config memory).start _).config.capacity < 2 ^ 63
  rw [Machine.config_start]
  exact Nat.lt_trans hlimit (by decide)

end Command.Options

namespace Guarded

/-- A new machine with a program. -/
def loadMachine (program : Array Cell) (config : Config) : Guarded (Except Fault Machine) := do
  return (← place (.blank config.capacity) program).map (.fresh config)

theorem loadMachine_eq (program : Array Cell) (config : Config) :
    loadMachine program config = .ok (Machine.load program config) := by
  rw [loadMachine, place_eq]
  rfl

/-- Nothing goes wrong where something could. Every cell is decoded, and every program of some size
is fetched from anywhere, swept from anywhere, and listed; every memory is read, written and loaded,
whatever the address and the program are; every machine with addresses for its cells answers all
that is asked of it, in whatever order; and every session that is held goes on to its end. The
results are the same as without guards. -/
theorem no_mishaps :
    (∀ cell, (decode cell).run =
      .ok ((Shape.decode cell).map fun s ↦ (s.opcode, Laid.places .position s.modes))) ∧
    (∀ cells : Array Cell, cells.size < UInt64.size →
      (∀ pointer, (fetch cells pointer).run =
        .ok ((Fetched.fetch cells pointer).map Laid.ofFetched)) ∧
      (∀ start, sweep cells start =
        .ok ((listing cells start).map fun e ↦ (e.address, e.content.map Laid.ofFetched))) ∧
      lines cells = .ok ((listing cells 0).map Entry.text)) ∧
    (∀ (memory : Memory) (address value : Cell) (program : Array Cell),
      read memory address = .ok (memory.read? address) ∧
      write memory address value = .ok (memory.write? address value) ∧
      load memory program = .ok (memory.load? program)) ∧
    (∀ (program : Array Cell) (config : Config), config.capacity < 2 ^ 63 →
      loadMachine program config = .ok (Machine.load program config) ∧
      ∀ m, Machine.load program config = .ok m → ∀ requests,
        history m requests = .ok (m.replies requests, m.after requests)) ∧
    ∀ (options : Command.Options) (s : Command.Surroundings) (session : Session)
      (events : List Event),
      options.prepare s.traced (s.files.readText options.file) = (.ready session, events) →
      ∀ budget, play budget ⟨session, Line.split s.stdin, events.toArray⟩ =
        .ok (Transcript.play budget ⟨session, Line.split s.stdin, events.toArray⟩) := by
  refine ⟨decode_eq, fun cells hsize ↦ ?_, fun memory address value program ↦ ?_,
    fun program config hcapacity ↦ ?_, fun options s session events hprepare budget ↦ ?_⟩
  · exact ⟨fetch_eq hsize, sweep_eq hsize, lines_eq hsize⟩
  · exact ⟨read_eq memory address, write_eq memory address value, load_eq memory program⟩
  · refine ⟨loadMachine_eq program config, fun m hload requests ↦ ?_⟩
    obtain ⟨hconfig, hconsistent⟩ := Machine.consistent_after hload []
    have hconfig : m.config = config := hconfig
    exact history_eq hconsistent (hconfig ▸ hcapacity) requests
  · exact play_eq (Command.Options.sound_of_prepare hprepare) budget

/-- A program that halts at once, and a span that begins in memory and ends past it. -/
def dumping : Command.Options where
  file := "halt"
  capacity := 2
  dump := some ⟨1, 9, by decide⟩

/-- A disk with the text `99` in a file. -/
def dumpingDisk : Command.Surroundings where
  files := .ofList [("halt", [57, 57])]
  stdin := []

/-- An instruction that is cut off, a pointer at the end of all sizes, a machine without any memory,
and a dump past the end. -/
theorem no_mishaps_of_dumping :
    (fetch #[1101, 4] 0).run = .ok (.error (.addressOutOfRange 2)) ∧
    (fetch #[1101, 4] (UInt64.size - 1)).run = .ok (.error (.addressOutOfRange (-1))) ∧
    (∃ m replies m', Machine.load #[] { capacity := 0 } = .ok m ∧
      history m [.step, .run 3 .empty, .reload #[99]] = .ok (replies, m') ∧
      m'.status = .halted) ∧
    ∃ session events t,
      dumping.prepare dumpingDisk.traced (dumpingDisk.files.readText dumping.file) =
        (.ready session, events) ∧
      play 1 ⟨session, Line.split dumpingDisk.stdin, events.toArray⟩ = .ok t ∧
      t.session.phase = .closed true := by
  obtain ⟨-, hcells, -, hmachines, hsessions⟩ := no_mishaps
  obtain ⟨hfetch, -⟩ := hcells #[1101, 4] (by decide)
  obtain ⟨-, hhistory⟩ := hmachines #[] { capacity := 0 } (by decide)
  have hload : Machine.load #[] { capacity := 0 } = .ok (.fresh { capacity := 0 } ⟨#[]⟩) := rfl
  have hread : dumpingDisk.files.readText dumping.file = .ok "99" := rfl
  have hparse : ProgramText.parse dumping.delimiter "99" = .ok [99] := rfl
  have hprepare : dumping.prepare dumpingDisk.traced (dumpingDisk.files.readText dumping.file) =
      (.ready (dumping.opened false ⟨#[99, 0]⟩), [.notice (.loaded 1 "halt")]) := by
    rw [hread]
    simp only [Command.Options.prepare, hparse]
    rfl
  have hplay := hsessions dumping dumpingDisk _ _ hprepare 1
  have hanswered := hhistory _ hload [.step, .run 3 .empty, .reload #[99]]
  exact ⟨hfetch 0, hfetch (UInt64.size - 1), ⟨_, _, _, hload, hanswered, rfl⟩,
    _, _, _, hprepare, hplay, by decide +kernel⟩

end Guarded

end Intcode
