import Intcode.Listing
import Intcode.Session.Notice

/-!
# Events

All that an invocation shows, in the order in which it shows it. An event is either for standard
output or for standard error; what it looks like there is decided only when it is written.
-/

namespace Intcode

/-- Something that an invocation shows. -/
inductive Event where
  /-- An entry of the listing. -/
  | entry (entry : Entry)
  /-- A value put out by the program. -/
  | value (value : Cell)
  /-- A cell of the memory dump. -/
  | cell (address : Nat) (value : Cell)
  /-- An instruction about to be executed, with the pointer and the base before it. -/
  | trace (machine : String) (pointer : Nat) (base : Cell) (instruction : Fetched)
  /-- A request for a line of input. -/
  | prompt (machine : String)
  | notice (notice : Notice)

namespace Level

/-- The word of a level as it is. -/
def plain (_ : Level) (word : String) : String := word

/-- The word of a level in the colours that most terminals understand. -/
def highlight (level : Level) (word : String) : String := reset ++ colour level ++ word ++ reset
where
  /-- Ends any colour. -/
  reset : String := "\x1b[0m"
  /-- Cyan for information, bold yellow for warnings and bold red for errors. -/
  colour : Level → String
    | info => "\x1b[36m"
    | warning => "\x1b[1m\x1b[33m"
    | error => "\x1b[1m\x1b[31m"

end Level

/-- How standard error is written. -/
structure Style where
  /-- Leave information out. -/
  quiet : Bool := false
  /-- What is made of the word in front of a notice, by its level. -/
  paint : Level → String → String := Level.plain

namespace Event

/-- What an event writes on standard output. -/
def stdout : Event → String
  | entry e => e.text ++ "\n"
  | value v => v.text ++ "\n"
  | cell address v => Column.right 6 (Decimal.ofNat address) ++ ": " ++ v.text ++ "\n"
  | trace .. | prompt _ | notice _ => ""

/-- What an event writes on standard error. -/
def stderr (style : Style) : Event → String
  | entry _ | value _ | cell .. => ""
  | trace machine pointer base instruction =>
      s!"{machine}: {Column.right 5 (Decimal.ofNat pointer)} " ++
        s!"rb={Column.left 5 base.text} {instruction.text}\n"
  | prompt machine => s!"{machine} input> "
  | notice n =>
      if n.level.shown style.quiet then s!"{style.paint n.level n.level.name}: {n.message}\n" else ""

end Event

end Intcode
