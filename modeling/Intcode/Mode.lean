/-!
# Parameter modes

A parameter that is read may be a value or stand for a cell of memory; a parameter that is written
always stands for a cell. So the ways to address a cell are a type of their own, and a mode is
either one of them or the immediate one.
-/

namespace Intcode

/-- How a parameter names a cell of memory. -/
inductive Addressing where
  /-- The parameter is the address. -/
  | position
  /-- The parameter is the distance of the address from the base. -/
  | relative
deriving DecidableEq, Repr

/-- What a parameter that is read stands for. -/
inductive Mode where
  /-- The parameter is the value itself. -/
  | immediate
  /-- The value is in a cell of memory. -/
  | memory (addressing : Addressing)
deriving DecidableEq, Repr

namespace Addressing

/-- The digit that selects a way of addressing. -/
def digit : Addressing → Nat
  | position => 0
  | relative => 2

/-- The way of addressing that a digit selects. -/
def ofDigit? (n : Int) : Option Addressing :=
  if n = 0 then some position else if n = 2 then some relative else none

@[simp] theorem ofDigit?_digit (a : Addressing) : ofDigit? a.digit = some a := by cases a <;> rfl

theorem ofDigit?_eq_some_iff {n : Int} {a : Addressing} : ofDigit? n = some a ↔ n = a.digit := by
  constructor
  · intro h
    simp only [ofDigit?] at h
    split at h
    · cases h; assumption
    · split at h
      · cases h; assumption
      · cases h
  · rintro rfl
    exact ofDigit?_digit a

end Addressing

namespace Mode

/-- The parameter is an address. -/
@[match_pattern] abbrev position : Mode := memory .position

/-- The parameter is the distance of an address from the base. -/
@[match_pattern] abbrev relative : Mode := memory .relative

/-- The digit that selects a mode. -/
def digit : Mode → Nat
  | immediate => 1
  | memory addressing => addressing.digit

/-- The mode that a digit selects. -/
def ofDigit? (n : Int) : Option Mode :=
  if n = 1 then some immediate else (Addressing.ofDigit? n).map memory

@[simp] theorem ofDigit?_digit (m : Mode) : ofDigit? m.digit = some m := by
  cases m with
  | immediate => rfl
  | memory a => cases a <;> rfl

theorem ofDigit?_eq_some_iff {n : Int} {m : Mode} : ofDigit? n = some m ↔ n = m.digit := by
  constructor
  · intro h
    simp only [ofDigit?] at h
    split at h
    · cases h; assumption
    · obtain ⟨a, ha, rfl⟩ := Option.map_eq_some_iff.1 h
      exact Addressing.ofDigit?_eq_some_iff.1 ha
  · rintro rfl
    exact ofDigit?_digit m

end Mode

end Intcode
