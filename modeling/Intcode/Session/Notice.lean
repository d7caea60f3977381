import Intcode.Machine.Basic
import Intcode.ProgramText
import Intcode.Session.Line

/-!
# Notices

What an invocation has to say on standard error, apart from prompts and traces: facts with a level
each. Their wording is fixed here, and in one place.
-/

namespace Intcode

/-- How much a notice matters. -/
inductive Level where
  | info
  | warning
  | error
deriving DecidableEq, Repr

namespace Level

/-- The number of a level. -/
def rank : Level → Nat
  | info => 1
  | warning => 2
  | error => 3

/-- The word in front of a notice. -/
def name : Level → String
  | info => "info"
  | warning => "warning"
  | error => "error"

/-- All levels, by ascending rank. -/
def all : List Level := [info, warning, error]

/-- Whether notices of a level are shown. Only information can be silenced. -/
def shown (quiet : Bool) (level : Level) : Bool := info.rank < level.rank || !quiet

end Level

/-- Why a file could not be read. -/
inductive FileError where
  | notFound
  | notDirectory
  | isDirectory
  | nameTooLong
  /-- The bytes are not UTF-8. -/
  | notText
  /-- Any other reason, in the words of the system. -/
  | other (reason : String)
deriving DecidableEq, Repr

/-- The wording of a file error. -/
def FileError.message : FileError → String
  | notFound => "No such file or directory (os error 2)"
  | notDirectory => "Not a directory (os error 20)"
  | isDirectory => "Is a directory (os error 21)"
  | nameTooLong => "File name too long (os error 36)"
  | notText => "stream did not contain valid UTF-8"
  | other reason => reason

/-- Something to tell about an invocation. Machines are given by their labels. -/
inductive Notice where
  | unreadable (path : String) (error : FileError)
  | malformed (path : String) (error : ProgramText.Error)
  | loaded (count : Nat) (path : String)
  | unloadable (fault : Fault)
  | failed (machine : String) (fault : Fault)
  | badLine (error : Line.Error)
  | inputClosed (machine : String)
  | leftover (count : Nat)
  | halted (machine : String) (pointer outputs : Nat)
  | dumpClipped (capacity : Nat)
deriving DecidableEq, Repr

namespace Notice

/-- The level of a notice. -/
def level : Notice → Level
  | loaded .. | halted .. => .info
  | badLine _ | leftover _ | dumpClipped _ => .warning
  | unreadable .. | malformed .. | unloadable _ | failed .. | inputClosed _ => .error

/-- The wording of a notice. -/
def message : Notice → String
  | unreadable path error => s!"failed to read {path}: {error.message}"
  | malformed path error => s!"{path}: {error.message}"
  | loaded count path => s!"loaded {Decimal.ofNat count} cells from {path}"
  | unloadable fault => s!"vm-error: {fault.message}"
  | failed machine fault => s!"runtime-error: {machine}: {fault.message}"
  | badLine error => error.message
  | inputClosed machine => s!"{machine}: input required but stdin is closed"
  | leftover count => s!"{Decimal.ofNat count} input value(s) left unconsumed"
  | halted machine pointer outputs =>
      s!"{machine} halted at {Decimal.ofNat pointer} with " ++
        s!"{Decimal.ofNat outputs} output value(s)"
  | dumpClipped capacity => s!"dump range clipped to memory size {Decimal.ofNat capacity}"

end Notice

end Intcode
