/-!
# Columns

Padding of a text with spaces to a least width.
-/

namespace Intcode.Column

/-- Aligns a text to the right end of a column. -/
def right (width : Nat) (s : String) : String := String.ofList (s.toList.leftpad width ' ')

/-- Aligns a text to the left end of a column. -/
def left (width : Nat) (s : String) : String := String.ofList (s.toList.rightpad width ' ')

end Intcode.Column
