import Intcode.Cell

/-!
# Queues

The input values that a machine has not read yet, in the order in which it will read them.
-/

namespace Intcode

/-- Values waiting to be read, the next one first. -/
structure Queue where
  values : List Cell
deriving DecidableEq, Repr

namespace Queue

/-- No values. -/
def empty : Queue := ⟨[]⟩

/-- The values of a list, in its order. -/
def ofList (values : List Cell) : Queue := ⟨values⟩

/-- One value. -/
def ofCell (value : Cell) : Queue := ⟨[value]⟩

/-- One value, or none. -/
def ofOption (value : Option Cell) : Queue := ⟨value.toList⟩

/-- The next value, and the queue without it. -/
def pop? (q : Queue) : Option (Cell × Queue) :=
  match q.values with
  | [] => none
  | v :: vs => some (v, ⟨vs⟩)

/-- Puts values at the end. -/
def extend (q : Queue) (values : List Cell) : Queue := ⟨q.values ++ values⟩

/-- The number of values. -/
def size (q : Queue) : Nat := q.values.length

/-- Whether there is no value. -/
def isEmpty (q : Queue) : Bool := q.values.isEmpty

@[simp] theorem values_ofList (vs : List Cell) : (ofList vs).values = vs := rfl
@[simp] theorem values_extend (q : Queue) (vs : List Cell) :
    (q.extend vs).values = q.values ++ vs := rfl

theorem extend_nil (q : Queue) : q.extend [] = q := congrArg mk (List.append_nil _)

theorem pop?_eq_some_iff {q rest : Queue} {v : Cell} :
    q.pop? = some (v, rest) ↔ q.values = v :: rest.values := by
  cases q with
  | mk values => cases values <;> cases rest <;> simp [pop?]

theorem pop?_eq_none_iff {q : Queue} : q.pop? = none ↔ q.values = [] := by
  cases q with
  | mk values => cases values <;> simp [pop?]

end Queue

end Intcode
