import Intcode.Command.Arguments
import Intcode.Command.FileTree
import Intcode.Session.Transcript

/-!
# Invocations

What happens from the command line to the exit code: the options are read, then the program file,
and then the program is run in a session. An invocation that asks for memory of which there cannot
be so much is lost, and comes to no report.
-/

namespace Intcode.Command

/-- How an invocation goes on once its program has been read. -/
inductive Opening where
  /-- It is over. -/
  | over (success : Bool)
  /-- The memory that is asked for cannot be had. -/
  | lost
  /-- A session is to be held. -/
  | ready (session : Session)

/-- The machine that runs the program of a file. -/
def Options.config (options : Options) : Config where
  capacity := options.capacity
  pauseOnOutput := options.pauseOnOutput
  pauseOnInput := options.interactive
  name := some (FilePath.stem options.file)

/-- How standard error is written, given what is made of the words of levels. -/
def Options.style (options : Options) (paint : Level → String → String) : Style where
  quiet := options.quiet
  paint := paint

/-- Everything before the session: reading the program, listing it, and loading it. -/
def Options.prepare (options : Options) (traced : Bool) (source : Except FileError String) :
    Opening × List Event :=
  match source with
  | .error error => (.over false, [.notice (.unreadable options.file error)])
  | .ok text =>
    match ProgramText.parse options.delimiter text with
    | .error error => (.over false, [.notice (.malformed options.file error)])
    | .ok program =>
      let cells := program.toArray
      let loaded := Event.notice (.loaded cells.size options.file)
      let listed := if options.disassemble then (listing cells 0).map Event.entry else []
      let events := loaded :: listed
      if options.noExec then (.over true, events)
      else if Memory.limit ≤ options.capacity then (.lost, events)
      else
        match Machine.load cells options.config with
        | .error fault => (.over false, events ++ [.notice (.unloadable fault)])
        | .ok m => (.ready (.ofMachine m options.inputs traced options.dump), events)

/-- The exit code of an invocation that could be carried out. -/
def exitCode (success : Bool) : Nat := if success then 0 else 1

/-- What can be seen of an invocation from outside. -/
structure Report where
  code : Nat
  stdout : String
  stderr : String
deriving DecidableEq, Repr

namespace Report

/-- The report of events that were shown. -/
def ofEvents (code : Nat) (style : Style) (events : List Event) : Report where
  code := code
  stdout := events.foldl (fun out e ↦ out ++ e.stdout) ""
  stderr := events.foldl (fun out e ↦ out ++ e.stderr style) ""

/-- The report of a command line that is not carried out. -/
def ofRefusal : Refusal → Report
  | .help => ⟨0, helpText, ""⟩
  | .version => ⟨0, versionLine ++ "\n", ""⟩
  | .error error => ⟨2, "", error.text⟩

end Report

/-- The surroundings of an invocation. -/
structure Surroundings where
  files : Files
  stdin : List UInt8
  /-- Whether every instruction is shown before its execution. -/
  traced : Bool := false
  /-- Whether standard error can show colours. -/
  colour : Bool := false
  /-- How the word of a level is coloured. -/
  paint : Level → String → String := Level.highlight

/-- What is made of the word of a level: it is coloured where colours can be shown. -/
def Surroundings.painting (s : Surroundings) : Level → String → String :=
  if s.colour then s.paint else Level.plain

/-- Carries options out. There is no report if the session is not over after `budget` steps, or if
there is none for want of memory. -/
def Options.run (budget : Nat) (s : Surroundings) (options : Options) : Option Report :=
  let style := options.style s.painting
  match options.prepare s.traced (s.files.readText options.file) with
  | (.over success, events) => some (.ofEvents (exitCode success) style events)
  | (.lost, _) => none
  | (.ready session, events) =>
    let t := Transcript.play budget ⟨session, Line.split s.stdin, events.toArray⟩
    match t.session.phase with
    | .closed success => some (.ofEvents (exitCode success) style t.events.toList)
    | .executing | .prompting => none

/-- Carries a command line out. -/
def invoke (budget : Nat) (s : Surroundings) (arguments : List String) : Option Report :=
  match Options.parse arguments with
  | .error refusal => some (.ofRefusal refusal)
  | .ok options => options.run budget s

end Intcode.Command
