import Intcode.ProgramText

/-!
# Lines of input

Standard input is a sequence of bytes. A line ends with its newline byte, and the last line may do
without one. Each line holds values in the form of program text with commas, and is judged by its
own bytes alone.
-/

namespace Intcode

/-- The bytes of one line, its newline included. -/
abbrev Line := List UInt8

namespace Line

/-- Why a line holds no values. -/
inductive Error where
  | malformed (error : ProgramText.Error)
  /-- The bytes are not UTF-8. -/
  | notText
deriving DecidableEq, Repr

/-- The wording of an error. -/
def Error.message : Error → String
  | malformed error => s!"bad input: {error.message}"
  | notText => "failed to read stdin: stream did not contain valid UTF-8"

/-- The byte that ends a line. -/
def newline : UInt8 := 10

/-- Puts a byte in front of the first line. -/
def consHead (b : UInt8) : List Line → List Line
  | [] => [[b]]
  | l :: ls => (b :: l) :: ls

/-- Cuts bytes into lines, after each newline. -/
def split : List UInt8 → List Line
  | [] => []
  | b :: bs => if b = newline then [b] :: split bs else consHead b (split bs)

/-- The text that bytes encode. -/
def decode (bytes : List UInt8) : Option String := String.fromUTF8? ⟨bytes.toArray⟩

/-- The values of a line. -/
def read (l : Line) : Except Error (List Cell) :=
  match decode l with
  | none => .error .notText
  | some text =>
    match ProgramText.parse ',' text with
    | .ok values => .ok values
    | .error error => .error (.malformed error)

@[simp] theorem flatten_consHead (b : UInt8) (ls : List Line) :
    (consHead b ls).flatten = b :: ls.flatten := by
  cases ls <;> simp [consHead]

/-- No byte is lost by cutting. -/
@[simp] theorem flatten_split (bytes : List UInt8) : (split bytes).flatten = bytes := by
  induction bytes with
  | nil => rfl
  | cons b bs ih =>
      simp only [split]
      split
      · simp [ih]
      · simp [ih]

end Line

end Intcode
