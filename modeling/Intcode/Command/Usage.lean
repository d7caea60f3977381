import Intcode.Command.Options
import Intcode.Text.Column
import Intcode.Text.Plain

/-!
# Usage

The help text, and what is said about a command line that makes no sense.
-/

namespace Intcode.Command

/-- What is wrong with a command line. -/
inductive UsageError where
  | noArguments
  | missingFile
  | emptyFile
  /-- There is no such parameter. -/
  | unexpected (argument : String)
  /-- The command line ends, or goes on with a switch, where a value should be. -/
  | missingValue (setting : Setting)
  | invalidValue (value : String) (setting : Setting) (reason : String)
  /-- A value is attached to a switch that takes none. -/
  | needlessValue (value : String) (switch : Switch)
  /-- A switch that may be given once is given twice. -/
  | repeated (switch : Switch)
deriving DecidableEq, Repr

/-- Why a command line is not carried out. -/
inductive Refusal where
  | help
  | version
  | error (error : UsageError)
deriving DecidableEq, Repr

/-- What the program is, in one line. -/
def about : String := "Command-line runner for Intcode programs"

/-- How the program is called, in one line. -/
def usageLine : String := "Usage: intcodec [OPTIONS] <FILE>"

/-- The name and the version of the program. -/
def versionLine : String := "intcodec 0.1.0"

/-- What a switch does. -/
def Switch.description : Switch → String
  | setting .input => "Input values, comma separated. Can be repeated"
  | setting .delimiter => "Cell delimiter of the program file [default: ,]"
  | setting .capacity => "Memory size in cells [default: 1000000]"
  | setting .dump => "Print memory cells START..END after execution"
  | flag .interactive => "Read more input from stdin whenever the program runs out of it"
  | flag .pauseOnOutput => "Print every output value as soon as it is produced"
  | flag .disassemble => "Print disassembly of the program"
  | flag .noExec => "Do not execute file"
  | flag .quiet => "Print warnings and errors only"
  | help => "Print help"
  | version => "Print version"

/-- The line of a switch in the help text. -/
def Switch.helpLine (s : Switch) : String :=
  let letter :=
    match s.short? with
    | some c => "-" ++ c.toString ++ ", "
    | none => "    "
  "  " ++ letter ++ Column.left 25 s.label ++ s.description

/-- The help text. -/
def helpText : String :=
  String.intercalate "\n"
    ([about, "", usageLine, "", "Arguments:", "  <FILE>  Program file to execute", "", "Options:"] ++
      Switch.all.map Switch.helpLine) ++ "\n"

/-- How a complaint quotes a text: plain, whatever was typed. -/
def quoted (s : String) : String := String.ofList (Text.plain s.toList)

/-- The complaint itself, without the advice that follows it. -/
def UsageError.message : UsageError → String
  | noArguments => about
  | missingFile => "error: the following required arguments were not provided:"
  | emptyFile => "error: a value is required for '<FILE>' but none was supplied"
  | unexpected argument => s!"error: unexpected argument '{quoted argument}' found"
  | missingValue setting =>
      s!"error: a value is required for '{(Switch.setting setting).label}' but none was supplied"
  | invalidValue value setting reason =>
      s!"error: invalid value '{quoted value}' for '{(Switch.setting setting).label}': {reason}"
  | needlessValue value switch =>
      s!"error: unexpected value '{quoted value}' for '{switch.label}' found; no more were expected"
  | repeated switch => s!"error: the argument '{switch.label}' cannot be used multiple times"

/-- The whole of a complaint. Without any argument it is the help text. -/
def UsageError.text : UsageError → String
  | noArguments => helpText
  | missingFile =>
      s!"{UsageError.missingFile.message}\n  <FILE>\n\n{usageLine}\n\n{hint}\n"
  | e => s!"{e.message}\n\n{hint}\n"
where
  /-- Where to find help. -/
  hint : String := "For more information, try '--help'."

end Intcode.Command
