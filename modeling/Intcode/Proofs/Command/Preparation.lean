import Intcode.Command.Invocation

/-!
# Preparations

Before any session a program is read, listed and loaded. `Prepared` has a row for each way in which
this can end, with what has been shown by then. Neither where the input comes from nor where the
machine may pause has any influence on which row it is.
-/

namespace Intcode.Command.Options

/-- What is shown of a program before it is executed. -/
def preface (options : Options) (program : List Cell) : List Event :=
  .notice (.loaded program.length options.file) ::
    if options.disassemble then (listing program.toArray 0).map .entry else []

/-- The session that an invocation holds, once its program is in memory. -/
def opened (options : Options) (traced : Bool) (memory : Memory) : Session :=
  .ofMachine (.fresh options.config memory) options.inputs traced options.dump

/-- How an invocation goes on when the text of its program has been looked up, and what has been
shown by then. -/
inductive Prepared (options : Options) (traced : Bool) :
    Except FileError String → Opening → List Event → Prop
  | unreadable {error : FileError} :
      Prepared options traced (.error error) (.over false)
        [.notice (.unreadable options.file error)]
  | malformed {text : String} {error : ProgramText.Error}
      (parse : ProgramText.parse options.delimiter text = .error error) :
      Prepared options traced (.ok text) (.over false) [.notice (.malformed options.file error)]
  /-- Nothing is to be executed. -/
  | listed {text : String} {program : List Cell}
      (parse : ProgramText.parse options.delimiter text = .ok program)
      (noExec : options.noExec = true) :
      Prepared options traced (.ok text) (.over true) (options.preface program)
  /-- There cannot be so much memory. -/
  | lost {text : String} {program : List Cell}
      (parse : ProgramText.parse options.delimiter text = .ok program)
      (exec : options.noExec = false) (limit : Memory.limit ≤ options.capacity) :
      Prepared options traced (.ok text) .lost (options.preface program)
  | unloadable {text : String} {program : List Cell} {fault : Fault}
      (parse : ProgramText.parse options.delimiter text = .ok program)
      (exec : options.noExec = false) (limit : options.capacity < Memory.limit)
      (place : Machine.place (.blank options.capacity) program.toArray = .error fault) :
      Prepared options traced (.ok text) (.over false)
        (options.preface program ++ [.notice (.unloadable fault)])
  | ready {text : String} {program : List Cell} {memory : Memory}
      (parse : ProgramText.parse options.delimiter text = .ok program)
      (exec : options.noExec = false) (limit : options.capacity < Memory.limit)
      (place : Machine.place (.blank options.capacity) program.toArray = .ok memory) :
      Prepared options traced (.ok text) (.ready (options.opened traced memory))
        (options.preface program)

variable {options : Options} {traced : Bool} {source : Except FileError String}
  {opening : Opening} {events : List Event} {session : Session}

theorem Prepared.prepare_eq (h : options.Prepared traced source opening events) :
    options.prepare traced source = (opening, events) := by
  cases h with
  | unreadable => rfl
  | malformed hparse => simp only [prepare, hparse]
  | listed hparse hnone => simp [prepare, hparse, hnone, preface]
  | lost hparse hexec hlimit => simp [prepare, hparse, hexec, hlimit, preface]
  | unloadable hparse hexec hlimit hplace | ready hparse hexec hlimit hplace =>
      simp [prepare, hparse, hexec, Nat.not_le.2 hlimit, preface, opened, Machine.load, config,
        hplace, Except.map]

theorem exists_prepared (options : Options) (traced : Bool) (source : Except FileError String) :
    ∃ opening events, options.Prepared traced source opening events := by
  cases source with
  | error error => exact ⟨_, _, .unreadable⟩
  | ok text =>
      cases hparse : ProgramText.parse options.delimiter text with
      | error error => exact ⟨_, _, .malformed hparse⟩
      | ok program =>
          cases hnone : options.noExec with
          | true => exact ⟨_, _, .listed hparse hnone⟩
          | false =>
              obtain hlimit | hlimit := Nat.lt_or_ge options.capacity Memory.limit
              · cases hplace : Machine.place (.blank options.capacity) program.toArray with
                | error fault => exact ⟨_, _, .unloadable hparse hnone hlimit hplace⟩
                | ok memory => exact ⟨_, _, .ready hparse hnone hlimit hplace⟩
              · exact ⟨_, _, .lost hparse hnone hlimit⟩

theorem prepare_eq_iff :
    options.prepare traced source = (opening, events) ↔
      options.Prepared traced source opening events := by
  constructor
  · intro h
    obtain ⟨opening', events', hprepared⟩ := exists_prepared options traced source
    cases h.symm.trans hprepared.prepare_eq
    exact hprepared
  · exact Prepared.prepare_eq

/-- What is to be shown and run does not depend on how the machine will get its input and where it
may pause. -/
theorem prepare_cases (options : Options) (traced : Bool) (source : Except FileError String) :
    ∃ events,
      (∃ success, ∀ inputs interactive pauseOnOutput,
        { options with inputs, interactive, pauseOnOutput }.prepare traced source =
          (.over success, events)) ∨
      (∀ inputs interactive pauseOnOutput,
        { options with inputs, interactive, pauseOnOutput }.prepare traced source =
          (.lost, events)) ∨
      (∃ memory, ∀ inputs interactive pauseOnOutput,
        { options with inputs, interactive, pauseOnOutput }.prepare traced source =
          (.ready ({ options with inputs, interactive, pauseOnOutput }.opened traced memory),
            events)) := by
  obtain ⟨opening, events, h⟩ := exists_prepared options traced source
  refine ⟨events, ?_⟩
  cases h with
  | unreadable => exact .inl ⟨false, fun _ _ _ ↦ prepare_eq_iff.2 .unreadable⟩
  | malformed hparse => exact .inl ⟨false, fun _ _ _ ↦ prepare_eq_iff.2 (.malformed hparse)⟩
  | listed hparse hnone => exact .inl ⟨true, fun _ _ _ ↦ prepare_eq_iff.2 (.listed hparse hnone)⟩
  | lost hparse hexec hlimit =>
      exact .inr (.inl fun _ _ _ ↦ prepare_eq_iff.2 (.lost hparse hexec hlimit))
  | unloadable hparse hexec hlimit hplace =>
      exact .inl ⟨false, fun _ _ _ ↦ prepare_eq_iff.2 (.unloadable hparse hexec hlimit hplace)⟩
  | ready hparse hexec hlimit hplace =>
      exact .inr (.inr ⟨_, fun _ _ _ ↦ prepare_eq_iff.2 (.ready hparse hexec hlimit hplace)⟩)

/-- A session is held with a machine that has been loaded, and there can be its memory. -/
theorem exists_place_of_prepare (h : options.prepare traced source = (.ready session, events)) :
    ∃ program memory, Machine.place (.blank options.capacity) program = .ok memory ∧
      session = options.opened traced memory ∧ options.capacity < Memory.limit := by
  cases prepare_eq_iff.1 h with
  | ready _ _ hlimit hplace => exact ⟨_, _, hplace, rfl, hlimit⟩

theorem eq_of_mem_preface {program : List Cell} {e : Event} (he : e ∈ options.preface program) :
    e = .notice (.loaded program.length options.file) ∨ ∃ entry, e = .entry entry := by
  obtain rfl | he := List.mem_cons.1 he
  · exact .inl rfl
  · split at he
    · obtain ⟨entry, -, rfl⟩ := List.mem_map.1 he
      exact .inr ⟨entry, rfl⟩
    · cases he

/-- All that is shown before a session are notices and the listing. -/
theorem eq_of_mem_prepare {e : Event} (h : options.prepare traced source = (opening, events))
    (he : e ∈ events) : (∃ n, e = .notice n) ∨ ∃ entry, e = .entry entry := by
  have hpreface {program : List Cell} (he : e ∈ options.preface program) :
      (∃ n, e = .notice n) ∨ ∃ entry, e = .entry entry :=
    (eq_of_mem_preface he).imp_left fun he ↦ ⟨_, he⟩
  cases prepare_eq_iff.1 h with
  | unreadable | malformed => exact .inl ⟨_, List.mem_singleton.1 he⟩
  | listed | lost | ready => exact hpreface he
  | unloadable =>
      obtain he | he := List.mem_append.1 he
      · exact hpreface he
      · exact .inl ⟨_, List.mem_singleton.1 he⟩

end Intcode.Command.Options
