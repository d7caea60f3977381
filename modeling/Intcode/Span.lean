import Intcode.Text.Blank
import Intcode.Text.Decimal

/-!
# Spans

A span of addresses is written `START..END`, with blanks allowed around both numbers. It holds the
addresses from `START` up to `END`, which is not one of them, and may not run backwards.
-/

namespace Intcode

/-- The addresses from `start` up to, but not including, `stop`. -/
structure Span where
  start : Nat
  stop : Nat
  start_le_stop : start ≤ stop
deriving DecidableEq, Repr

namespace Span

/-- Why a text is no span. -/
inductive Error where
  /-- The two dots are missing. -/
  | noDots
  | badStart (error : Decimal.Error)
  | badStop (error : Decimal.Error)
  /-- The span runs backwards. -/
  | reversed (start stop : Nat)
deriving DecidableEq, Repr

/-- The wording of an error. -/
def Error.message : Error → String
  | noDots => "expected START..END"
  | badStart error => s!"bad start: {error.message}"
  | badStop error => s!"bad end: {error.message}"
  | reversed start stop => s!"start {Decimal.ofNat start} is past end {Decimal.ofNat stop}"

/-- What stands before and after the first two dots of a text. -/
def splitDots : List Char → Option (List Char × List Char)
  | '.' :: '.' :: cs => some ([], cs)
  | c :: cs => (splitDots cs).map fun (before, after) ↦ (c :: before, after)
  | [] => none

/-- The span from `start` to `stop`, unless it would run backwards. -/
def between (start stop : Nat) : Except Error Span :=
  if h : start ≤ stop then .ok ⟨start, stop, h⟩ else .error (.reversed start stop)

/-- Reads a span. -/
def parse (cs : List Char) : Except Error Span :=
  match splitDots cs with
  | none => .error .noDots
  | some (before, after) =>
    match Decimal.readSize (Text.trim before) with
    | .error error => .error (.badStart error)
    | .ok start =>
      match Decimal.readSize (Text.trim after) with
      | .error error => .error (.badStop error)
      | .ok stop => between start stop

theorem splitDots_eq_append {cs before after : List Char}
    (h : splitDots cs = some (before, after)) : cs = before ++ '.' :: '.' :: after := by
  fun_induction splitDots cs generalizing before with
  | case1 cs =>
      cases h
      rfl
  | case2 c cs _ ih =>
      obtain ⟨⟨before', after'⟩, h', he⟩ := Option.map_eq_some_iff.1 h
      cases he
      rw [ih h']
      rfl
  | case3 => cases h

example : parse " 0 .. 0 ".toList = .ok ⟨0, 0, by decide⟩ := by cbv
example : parse "10..2".toList = .error (.reversed 10 2) := by cbv

end Span

end Intcode
