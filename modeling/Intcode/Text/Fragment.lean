import Intcode.Text.Blank

/-!
# Fragments

A fragment is a piece of a text that remembers at which byte of the text it starts, so that an
error found in the piece can name its place in the whole. Bytes are those of the UTF-8 encoding.
-/

namespace Intcode.Text

/-- The number of bytes that encode a text. -/
def byteLength : List Char → Nat
  | [] => 0
  | c :: cs => c.utf8Size + byteLength cs

@[simp] theorem byteLength_nil : byteLength [] = 0 := rfl
@[simp] theorem byteLength_cons (c : Char) (cs : List Char) :
    byteLength (c :: cs) = c.utf8Size + byteLength cs := rfl

@[simp] theorem byteLength_append (cs ds : List Char) :
    byteLength (cs ++ ds) = byteLength cs + byteLength ds := by
  induction cs with
  | nil => simp
  | cons c cs ih => rw [List.cons_append, byteLength_cons, ih, byteLength_cons, Nat.add_assoc]

/-- A piece of a text and the byte at which it starts. -/
structure Fragment where
  offset : Nat
  chars : List Char
deriving DecidableEq, Repr

namespace Fragment

/-- Puts a character in front of the first fragment, which then starts at `offset`. -/
def consHead (offset : Nat) (c : Char) : List Fragment → List Fragment
  | [] => [⟨offset, [c]⟩]
  | f :: fs => ⟨offset, c :: f.chars⟩ :: fs

/-- The pieces of a text that starts at byte `offset`, cut at each separator. -/
def split (isSeparator : Char → Bool) (offset : Nat) : List Char → List Fragment
  | [] => [⟨offset, []⟩]
  | c :: cs =>
    if isSeparator c then ⟨offset, []⟩ :: split isSeparator (offset + c.utf8Size) cs
    else consHead offset c (split isSeparator (offset + c.utf8Size) cs)

/-- The longest pieces of a text that hold no blank. -/
def words (offset : Nat) (cs : List Char) : List Fragment :=
  (split isBlank offset cs).filter fun f ↦ !f.chars.isEmpty

/-- A fragment without its blanks at both ends. One that is all blank keeps its place. -/
def trim (f : Fragment) : Fragment :=
  if f.chars.all isBlank then ⟨f.offset, []⟩
  else ⟨f.offset + byteLength (f.chars.takeWhile isBlank), Text.trim f.chars⟩

theorem split_ne_nil (isSeparator : Char → Bool) (offset : Nat) (cs : List Char) :
    split isSeparator offset cs ≠ [] := by
  cases cs with
  | nil => simp [split]
  | cons c cs =>
      simp only [split]
      split
      · simp
      · cases split isSeparator (offset + c.utf8Size) cs <;> simp [consHead]

end Fragment

end Intcode.Text
