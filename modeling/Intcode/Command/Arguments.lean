import Intcode.Command.Usage

/-!
# Arguments

The reading of a command line, from left to right. A switch is given by its name after two dashes
or by its letter after one; letters may be bundled; a value follows its switch in the same argument
or in the next one; two dashes alone end the switches.

A value that is an argument of its own is not judged at once. It waits until the next known switch
or the program file, or until the end. An argument that is not understood is thus reported before a
bad value in front of it.
-/

namespace Intcode.Command

/-- What the latest argument has left open. -/
inductive Pending where
  | nothing
  /-- A setting without its value yet. -/
  | unfilled (setting : Setting)
  /-- A setting with a value that has not been judged yet. -/
  | value (setting : Setting) (text : String)
  /-- A program file that has not been judged yet. -/
  | file (path : String)
deriving DecidableEq, Repr

/-- A command line that has been read in part. -/
structure Reading where
  options : Options := { file := "" }
  /-- The switches given so far. -/
  given : List Switch := []
  /-- Whether there is a program file. -/
  hasFile : Bool := false
  pending : Pending := .nothing
  /-- Whether the switches have ended. -/
  escaped : Bool := false
deriving DecidableEq, Repr

/-! ## Values -/

/-- Reads the pieces of an input value, and tells the first bad one. -/
def readInputs : List (List Char) → Except (List Char × Decimal.Error) (List Cell)
  | [] => .ok []
  | piece :: pieces =>
    match Cell.read piece with
    | .error error => .error (piece, error)
    | .ok v => (readInputs pieces).map (v :: ·)

/-- Puts the value of a setting into the options. -/
def Options.set (options : Options) (setting : Setting) (text : String) :
    Except UsageError Options :=
  let invalid (value reason : String) := Except.error (.invalidValue value setting reason)
  match setting with
  | .input =>
    match readInputs (text.toList.splitOn ',') with
    | .ok values => .ok { options with inputs := options.inputs ++ values }
    | .error (piece, error) => invalid (String.ofList piece) error.message
  | .delimiter =>
    match text.toList with
    | [c] => .ok { options with delimiter := c }
    | [] => invalid text "cannot parse char from empty string"
    | _ => invalid text "too many characters in string"
  | .capacity =>
    match Decimal.readSize text.toList with
    | .ok capacity => .ok { options with capacity := capacity }
    | .error error => invalid text error.message
  | .dump =>
    match Span.parse text.toList with
    | .ok span => .ok { options with dump := some span }
    | .error error => invalid text error.message

/-- Puts a flag into the options. -/
def Options.raise (options : Options) : Flag → Options
  | .interactive => { options with interactive := true }
  | .pauseOnOutput => { options with pauseOnOutput := true }
  | .disassemble => { options with disassemble := true }
  | .noExec => { options with noExec := true }
  | .quiet => { options with quiet := true }

/-- Whether what follows a dash is a number: digits, with a point that is not first and an exponent
mark that is neither first nor last, the point before the mark. -/
def isNumber (cs : List Char) : Bool :=
  let (mantissa, exponent) := cs.span fun c ↦ c ≠ 'e' && c ≠ 'E'
  let (whole, fraction) := mantissa.span (· ≠ '.')
  let digits (ds : List Char) := ds.all Char.isDigit
  digits whole && digits (fraction.drop 1) && (fraction.isEmpty || !whole.isEmpty) &&
    (exponent.isEmpty || !mantissa.isEmpty && digits (exponent.drop 1) && 1 < exponent.length)

namespace Reading

/-! ## Switches -/

/-- Takes note of a switch that may be given only once. -/
def once (r : Reading) (s : Switch) : Except UsageError Reading :=
  if s ∈ r.given then .error (.repeated s) else .ok { r with given := s :: r.given }

/-- Takes the value of a setting. -/
def assign (r : Reading) (setting : Setting) (text : String) : Except UsageError Reading := do
  let r ← if setting = .input then .ok { r with given := .setting .input :: r.given }
    else r.once (.setting setting)
  return { r with options := ← r.options.set setting text }

/-- Judges what the latest argument has left open. -/
def settle (r : Reading) : Except UsageError Reading :=
  let rest := { r with pending := .nothing }
  match r.pending with
  | .nothing => .ok rest
  | .unfilled setting => .error (.missingValue setting)
  | .value setting text => rest.assign setting text
  | .file path =>
    if path.isEmpty then .error .emptyFile
    else .ok { rest with options := { rest.options with file := path } }

/-- Takes a switch, with what is attached to it. -/
def take (r : Reading) (s : Switch) (attached : Option String) : Except Refusal Reading :=
  match s, attached with
  | .setting setting, some text => do
      let r ← r.settle.mapError .error
      (r.assign setting text).mapError .error
  | .setting setting, none => do
      let r ← r.settle.mapError .error
      return { r with pending := .unfilled setting }
  | s, some text => .error (.error (.needlessValue text s))
  | .flag flag, none => do
      let r ← r.settle.mapError .error
      let r ← (r.once (.flag flag)).mapError .error
      return { r with options := r.options.raise flag }
  | .help, none => do
      let _ ← r.settle.mapError .error
      throw .help
  | .version, none => do
      let _ ← r.settle.mapError .error
      throw .version

/-- Takes what follows two dashes. -/
def takeLong (r : Reading) (cs : List Char) : Except Refusal Reading :=
  let (name, rest) := cs.span (· ≠ '=')
  match Switch.ofLong? name with
  | none => .error (.error (.unexpected ("--" ++ String.ofList name)))
  | some s => r.take s (if rest.isEmpty then none else some (String.ofList (rest.drop 1)))

/-- Takes the letters after one dash. What follows the letter of a setting is its value, after an
equals sign if there is one. -/
def takeShort (r : Reading) : List Char → Except Refusal Reading
  | [] => .ok r
  | c :: cs =>
    match Switch.ofShort? c with
    | none => .error (.error (.unexpected ("-" ++ c.toString)))
    | some (.setting setting) =>
      let attached :=
        match cs with
        | [] => none
        | '=' :: value => some (String.ofList value)
        | value => some (String.ofList value)
      r.take (.setting setting) attached
    | some s => do
        let r ← r.take s none
        r.takeShort cs

/-! ## Arguments -/

/-- Takes an argument that is no switch and no value: the program file, of which there is one. -/
def takeFile (r : Reading) (argument : String) : Except Refusal Reading :=
  if r.hasFile then .error (.error (.unexpected argument))
  else do
    let r ← r.settle.mapError .error
    return { r with hasFile := true, pending := .file argument }

/-- Takes an argument that is no switch. -/
def takeWord (r : Reading) (argument : String) : Except Refusal Reading :=
  match r.pending with
  | .unfilled setting => .ok { r with pending := .value setting argument }
  | _ => r.takeFile argument

/-- Takes an argument. A negative number after the input setting is its value. -/
def accept (r : Reading) (argument : String) : Except Refusal Reading :=
  if r.escaped then r.takeFile argument
  else
    match argument.toList with
    | ['-', '-'] => .ok { r with escaped := true }
    | '-' :: '-' :: cs => r.takeLong cs
    | ['-'] => r.takeWord argument
    | '-' :: cs =>
      if r.pending = .unfilled .input && isNumber cs then r.takeWord argument else r.takeShort cs
    | _ => r.takeWord argument

/-- The options of a command line that has been read to its end. -/
def finish (r : Reading) : Except Refusal Options := do
  let r ← r.settle.mapError .error
  if r.hasFile then return r.options
  else if r.given.isEmpty then throw (.error .noArguments)
  else throw (.error .missingFile)

end Reading

/-- Reads a command line. -/
def Options.parse (arguments : List String) : Except Refusal Options := do
  let r ← arguments.foldlM Reading.accept {}
  r.finish

end Intcode.Command
