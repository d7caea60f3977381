import Intcode.Instruction.Assembly
import Intcode.Instruction.Decode
import Intcode.Text.Column

/-!
# Listings

A listing goes through a program from one address to its end. A cell that starts an instruction is
listed with the whole instruction; one that starts none is listed alone, with the reason, so data
among the code does not end the listing.
-/

namespace Intcode

/-- One entry of a listing: an address, its cell, and the instruction that starts there. -/
structure Entry where
  address : Nat
  cell : Cell
  content : Except Cause Fetched

namespace Entry

/-- The entry of a program at an address inside of it. -/
def ofAddress (cells : Array Cell) (address : Nat) (h : address < cells.size) : Entry :=
  ⟨address, cells[address], Fetched.fetch cells address⟩

/-- The number of cells that an entry covers. -/
def width (e : Entry) : Nat :=
  match e.content with
  | .ok i => i.width
  | .error _ => 1

theorem width_pos (e : Entry) : 0 < e.width := by
  unfold width
  split
  · exact Nat.succ_pos _
  · exact Nat.one_pos

/-- The line of an entry. A cell that starts no instruction is data. -/
def text (e : Entry) : String :=
  Column.right 6 (Decimal.ofNat e.address) ++ "  " ++
    match e.content with
    | .ok i => i.text
    | .error _ => ".data " ++ e.cell.text

end Entry

/-- The listing of a program from `start` to its end. -/
def listing (cells : Array Cell) (start : Nat) : List Entry :=
  if h : start < cells.size then
    let entry := Entry.ofAddress cells start h
    entry :: listing cells (start + entry.width)
  else []
termination_by cells.size - start
decreasing_by
  have := (Entry.ofAddress cells start h).width_pos
  omega

end Intcode
