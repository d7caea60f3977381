import Intcode.Cell
import Intcode.Text.Fragment

/-!
# Program text

A program is written as integers with a delimiter between them. Blanks around the integers, one
delimiter after the last and blanks at the end are allowed, and a blank text is an empty program.
If the delimiter is itself a blank, any run of blanks separates two integers.
-/

namespace Intcode.ProgramText

open Text

/-- What is wrong with a piece of program text. -/
inductive Cause where
  /-- There is nothing between two delimiters. -/
  | emptyCell
  /-- The piece is no integer, or not one of 64 bits. -/
  | invalidNumber (token : List Char)
deriving DecidableEq, Repr

/-- Why a text is no program: the first bad cell, its number from zero, and its byte offset. -/
structure Error where
  cause : Cause
  index : Nat
  offset : Nat
deriving DecidableEq, Repr

/-- The wording of a cause. -/
def Cause.message : Cause → String
  | emptyCell => "empty cell"
  | invalidNumber token => "invalid number \x60" ++ String.ofList token ++ "\x60"

/-- The wording of an error: its cause, and then its place. -/
def Error.message (e : Error) : String :=
  s!"{e.cause.message} in cell {Decimal.ofNat e.index} @ {Decimal.ofNat e.offset}"

/-- A text without its last character, if that is the delimiter. -/
def dropDelimiter (delimiter : Char) (cs : List Char) : List Char :=
  if cs.getLast? = some delimiter then cs.dropLast else cs

/-- The part of a text that holds the cells. -/
def body (delimiter : Char) (cs : List Char) : List Char :=
  dropDelimiter delimiter (trimEnd cs)

/-- The cells of a text, still as text. -/
def fragments (delimiter : Char) (cs : List Char) : List Fragment :=
  let body := body delimiter cs
  if body.all isBlank then []
  else if isBlank delimiter then Fragment.words 0 body
  else (Fragment.split (· = delimiter) 0 body).map Fragment.trim

/-- Reads one cell. -/
def readCell (f : Fragment) : Except Cause Cell :=
  if f.chars.isEmpty then .error .emptyCell
  else match Cell.read f.chars with
    | .ok c => .ok c
    | .error _ => .error (.invalidNumber f.chars)

/-- Reads cells in order, the first of them having number `index`, up to the first bad one. -/
def readCells (index : Nat) : List Fragment → Except Error (List Cell)
  | [] => .ok []
  | f :: fs =>
    match readCell f with
    | .error cause => .error ⟨cause, index, f.offset⟩
    | .ok c => (readCells (index + 1) fs).map (c :: ·)

/-- Reads a program from its text. -/
def parse (delimiter : Char) (text : String) : Except Error (List Cell) :=
  readCells 0 (fragments delimiter text.toList)

example : parse ',' "104, -7 ,99,\n" = .ok [104, -7, 99] := by cbv
example : parse ',' "1,,99" = .error ⟨.emptyCell, 1, 2⟩ := by cbv

end Intcode.ProgramText
