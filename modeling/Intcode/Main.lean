import Intcode.Command.Invocation

/-!
# The program

The command line as a program: files are read from disk, lines from standard input as they are asked
for, and events are written as they come.
-/

namespace Intcode.Main

open Command

/-- The reason for which a file could not be read. -/
def fileError : IO.Error → FileError
  | .noFileOrDirectory .. => .notFound
  | .inappropriateType .. => .isDirectory
  | e => .other e.toString

/-- The text of a file on disk. -/
def readSource (path : String) : IO (Except FileError String) := do
  try
    let bytes ← IO.FS.readBinFile path
    return match String.fromUTF8? bytes with
      | some text => .ok text
      | none => .error .notText
  catch e => return .error (fileError e)

/-- The next line of standard input. -/
partial def readLine (stdin : IO.FS.Stream) (line : Line) : IO (Option Line) := do
  let bytes ← stdin.read 1
  match bytes.data.toList with
  | [] => return if line.isEmpty then none else some line.reverse
  | b :: _ => if b = Line.newline then return some (b :: line).reverse else readLine stdin (b :: line)

/-- Writes events to where they belong. -/
def present (style : Style) (events : List Event) : IO Unit := do
  let stdout ← IO.getStdout
  let stderr ← IO.getStderr
  for e in events do
    stdout.putStr e.stdout
    stderr.putStr (e.stderr style)
  stdout.flush

/-- Holds a session to its end, and tells whether it ended well. -/
partial def hold (style : Style) (stdin : IO.FS.Stream) (session : Session) : IO Bool := do
  match session.phase with
  | .closed success => return success
  | .executing =>
    let (session, events) := session.execute
    unless events.isEmpty do present style events
    hold style stdin session
  | .prompting =>
    let (session, events) := session.answer (← readLine stdin [])
    present style events
    hold style stdin session

/-- Whether standard error is to be coloured: the terminal can, and nobody asked not to. -/
def wantsColour : IO Bool := do
  match ← IO.getEnv "TERM" with
  | none | some "dumb" => return false
  | some _ => return (← IO.getEnv "NO_COLOR").isNone

/-- Carries a command line out, and gives its exit code. -/
def run (arguments : List String) : IO UInt32 := do
  match Options.parse arguments with
  | .error refusal =>
    let report := Report.ofRefusal refusal
    (← IO.getStdout).putStr report.stdout
    (← IO.getStderr).putStr report.stderr
    return report.code.toUInt32
  | .ok options =>
    let style := options.style (if ← wantsColour then Level.highlight else Level.plain)
    let (opening, events) := options.prepare false (← readSource options.file)
    present style events
    match opening with
    | .over success => return (exitCode success).toUInt32
    | .lost =>
      (← IO.getStderr).putStr "capacity overflow\n"
      return 101
    | .ready session => return (exitCode (← hold style (← IO.getStdin) session)).toUInt32

end Intcode.Main

/-- The program. -/
def main (arguments : List String) : IO UInt32 := Intcode.Main.run arguments
