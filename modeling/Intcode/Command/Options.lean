import Intcode.Cell
import Intcode.Machine.Basic
import Intcode.Span

/-!
# Options

What a command line can ask for.
-/

namespace Intcode.Command

/-- A command line, understood. -/
structure Options where
  /-- The program file. -/
  file : String
  /-- Input for the program, before any from standard input. -/
  inputs : List Cell := []
  /-- What separates the cells of the program file. -/
  delimiter : Char := ','
  /-- The size of memory. -/
  capacity : Nat := ({} : Config).capacity
  /-- Ask for more input when the program runs out of it. -/
  interactive : Bool := false
  /-- Write every output at once. -/
  pauseOnOutput : Bool := false
  /-- Write the listing of the program. -/
  disassemble : Bool := false
  /-- Do not execute the program. -/
  noExec : Bool := false
  /-- The cells to write after execution. -/
  dump : Option Span := none
  /-- Write no information. -/
  quiet : Bool := false
deriving DecidableEq, Repr

/-- The parameters of the command line that take a value. -/
inductive Setting where
  | input
  | delimiter
  | capacity
  | dump
deriving DecidableEq, Repr

/-- The parameters of the command line that stand alone. -/
inductive Flag where
  | interactive
  | pauseOnOutput
  | disassemble
  | noExec
  | quiet
deriving DecidableEq, Repr

/-- All that can be given by a name. -/
inductive Switch where
  | setting (setting : Setting)
  | flag (flag : Flag)
  | help
  | version
deriving DecidableEq, Repr

namespace Switch

/-- All switches, in the order of the help text. -/
def all : List Switch :=
  [setting .input, setting .delimiter, setting .capacity, flag .interactive, flag .pauseOnOutput,
    flag .disassemble, flag .noExec, setting .dump, flag .quiet, help, version]

/-- The name after two dashes. -/
def long : Switch → String
  | setting .input => "input"
  | setting .delimiter => "delimiter"
  | setting .capacity => "capacity"
  | setting .dump => "dump"
  | flag .interactive => "interactive"
  | flag .pauseOnOutput => "pause-on-output"
  | flag .disassemble => "disassemble"
  | flag .noExec => "no-exec"
  | flag .quiet => "quiet"
  | help => "help"
  | version => "version"

/-- The letter after one dash, for those that have one. -/
def short? : Switch → Option Char
  | setting .input => some 'i'
  | setting .delimiter => some 'd'
  | setting .capacity => some 'c'
  | flag .noExec => some 'n'
  | flag .quiet => some 'q'
  | help => some 'h'
  | version => some 'V'
  | setting .dump | flag .interactive | flag .pauseOnOutput | flag .disassemble => none

/-- What stands for the value of a switch. -/
def placeholder? : Switch → Option String
  | setting .input => some "INPUT"
  | setting .delimiter => some "DELIMITER"
  | setting .capacity => some "CAPACITY"
  | setting .dump => some "START..END"
  | flag _ | help | version => none

/-- How a switch is called in messages. -/
def label (s : Switch) : String :=
  match s.placeholder? with
  | some placeholder => s!"--{s.long} <{placeholder}>"
  | none => s!"--{s.long}"

/-- The switch with a long name. Names may not be shortened. -/
def ofLong? (name : List Char) : Option Switch := all.find? fun s ↦ s.long.toList = name

/-- The switch with a letter. -/
def ofShort? (letter : Char) : Option Switch := all.find? fun s ↦ s.short? = some letter

end Switch

end Intcode.Command
