import Mathlib.Data.List.Basic

/-!
# Lines

A text of lines, each with its end. The lines can be told from the text if none of them holds the
character that ends a line.
-/

namespace Intcode.Text

/-- The text of lines, each with its end. -/
def unlines (lines : List String) : String := .join (lines.map (· ++ "\n"))

@[simp] theorem unlines_nil : unlines [] = "" := String.join_nil

@[simp] theorem unlines_cons (line : String) (lines : List String) :
    unlines (line :: lines) = line ++ "\n" ++ unlines lines := by
  rw [unlines, List.map_cons, String.join_cons]
  rfl

@[simp] theorem unlines_append (lines more : List String) :
    unlines (lines ++ more) = unlines lines ++ unlines more := by
  rw [unlines, List.map_append, String.join_append]
  rfl

/-- What stands before and after the first `c` of a text. -/
theorem append_cons_inj {c : Char} {before before' after after' : List Char}
    (h : before ++ c :: after = before' ++ c :: after') (hbefore : c ∉ before)
    (hbefore' : c ∉ before') : before = before' ∧ after = after' := by
  induction before generalizing before' with
  | nil =>
      cases before' with
      | nil => exact ⟨rfl, (List.cons.inj h).2⟩
      | cons d before' =>
          obtain rfl : c = d := (List.cons.inj h).1
          exact absurd List.mem_cons_self hbefore'
  | cons b before ih =>
      cases before' with
      | nil =>
          obtain rfl : b = c := (List.cons.inj h).1
          exact absurd List.mem_cons_self hbefore
      | cons d before' =>
          obtain ⟨rfl, hrest⟩ := List.cons.inj h
          obtain ⟨rfl, hafter⟩ := ih hrest (List.not_mem_of_not_mem_cons hbefore)
            (List.not_mem_of_not_mem_cons hbefore')
          exact ⟨rfl, hafter⟩

theorem toList_unlines_cons (line : String) (lines : List String) :
    (unlines (line :: lines)).toList = line.toList ++ '\n' :: (unlines lines).toList := by
  simp

/-- Lines that do not hold their own end can be told from their text. -/
theorem eq_of_unlines_eq {lines lines' : List String} (h : unlines lines = unlines lines')
    (hlines : ∀ line ∈ lines, '\n' ∉ line.toList) (hlines' : ∀ line ∈ lines', '\n' ∉ line.toList) :
    lines = lines' := by
  induction lines generalizing lines' with
  | nil =>
      cases lines' with
      | nil => rfl
      | cons line' lines' =>
          have htext := congrArg String.toList h
          rw [toList_unlines_cons] at htext
          simp at htext
  | cons line lines ih =>
      cases lines' with
      | nil =>
          have htext := congrArg String.toList h
          rw [toList_unlines_cons] at htext
          simp at htext
      | cons line' lines' =>
          obtain ⟨hline, hlines⟩ := List.forall_mem_cons.1 hlines
          obtain ⟨hline', hlines'⟩ := List.forall_mem_cons.1 hlines'
          have htext := congrArg String.toList h
          rw [toList_unlines_cons, toList_unlines_cons] at htext
          obtain ⟨hfirst, hrest⟩ := append_cons_inj htext hline hline'
          rw [String.toList_inj.1 hfirst, ih (String.toList_inj.1 hrest) hlines hlines']

end Intcode.Text
