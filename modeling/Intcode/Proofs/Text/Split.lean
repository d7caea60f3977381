import Intcode.Proofs.Text.Trim
import Intcode.Text.Fragment

/-!
# Pieces of a text

The pieces into which a text is cut, without their places. At a separator a text is cut as
`List.splitOn` cuts it, so what is known of that function is known of fragments. Blanks cut a text
into its words, the longest runs of other characters; `Words` says what these are without cutting
anything.
-/

namespace Intcode.Text

namespace Fragment

theorem chars_consHead (offset : Nat) (c : Char) {fs : List Fragment} (h : fs ≠ []) :
    (consHead offset c fs).map chars = (fs.map chars).modifyHead (c :: ·) := by
  obtain ⟨f, fs, rfl⟩ := List.exists_cons_of_ne_nil h
  rfl

theorem chars_split (isSeparator : Char → Bool) (offset : Nat) (cs : List Char) :
    (split isSeparator offset cs).map chars = cs.splitOnP isSeparator := by
  induction cs generalizing offset with
  | nil => rfl
  | cons c cs ih =>
      rw [split, List.splitOnP_cons_eq_if_modifyHead]
      split
      · rw [List.map_cons, ih]
      · rw [chars_consHead _ _ (split_ne_nil _ _ _), ih]

theorem chars_trim (f : Fragment) : f.trim.chars = Text.trim f.chars := by
  unfold trim
  split
  · rename_i h
    exact (trim_of_blank (all_isBlank_iff.1 h)).symm
  · rfl

end Fragment

/-! ## Pieces between separators -/

theorem not_mem_of_mem_splitOn {d : Char} {cs piece : List Char} (h : piece ∈ cs.splitOn d) :
    d ∉ piece := by
  induction cs generalizing piece with
  | nil =>
      rw [List.splitOn_nil, List.mem_singleton] at h
      simp [h]
  | cons c cs ih =>
      rw [List.splitOn_cons_eq_if_modifyHead] at h
      split at h
      · rcases List.mem_cons.1 h with rfl | h
        · simp
        · exact ih h
      · rename_i hc
        obtain ⟨first, rest, hsplit⟩ := List.exists_cons_of_ne_nil (List.splitOn_ne_nil d cs)
        rw [hsplit, List.modifyHead_cons] at h
        rcases List.mem_cons.1 h with rfl | h
        · have hfirst : d ∉ first := ih (by simp [hsplit])
          have hd : d ≠ c := fun hd ↦ hc (by simp [hd])
          simp [hd, hfirst]
        · exact ih (by simp [hsplit, h])

/-- What is added to a text belongs to its last piece, if there is no separator in it. -/
theorem splitOn_append {d : Char} (cs : List Char) {ds : List Char} (h : d ∉ ds) :
    ∃ before last, cs.splitOn d = before ++ [last] ∧
      (cs ++ ds).splitOn d = before ++ [last ++ ds] := by
  induction cs with
  | nil => exact ⟨[], [], by simp, by simp [List.splitOn_eq_singleton h]⟩
  | cons c cs ih =>
      obtain ⟨before, last, hcs, hds⟩ := ih
      rw [List.cons_append, List.splitOn_cons_eq_if_modifyHead, List.splitOn_cons_eq_if_modifyHead,
        hcs, hds]
      split
      · exact ⟨[] :: before, last, rfl, rfl⟩
      · cases before with
        | nil => exact ⟨[], c :: last, rfl, rfl⟩
        | cons first before => exact ⟨(c :: first) :: before, last, rfl, rfl⟩

/-- A text ends with its last piece. -/
theorem map_trim_splitOn_append {d : Char} (hd : ¬ WhiteSpace d) (cs : List Char) {after : List Char}
    (h : Blank after) : ((cs ++ after).splitOn d).map trim = (cs.splitOn d).map trim := by
  obtain ⟨before, last, hcs, hafter⟩ := splitOn_append cs (h.not_mem hd)
  rw [hcs, hafter, List.map_append, List.map_append, List.map_singleton, List.map_singleton,
    trim_append_of_blank h]

/-! ## Words -/

/-- The words of a text, from the first to the last: what is between them are blanks, a word has no
blank in it, and a word ends where a blank follows or the text ends. -/
inductive Words : List Char → List (List Char) → Prop
  | blank {cs : List Char} (h : Blank cs) : Words cs []
  | word {before word rest : List Char} {words : List (List Char)} (hbefore : Blank before)
      (hne : word ≠ []) (hword : ∀ c ∈ word, ¬ WhiteSpace c) (hrest : ∀ c ∈ rest.head?, WhiteSpace c)
      (hwords : Words rest words) : Words (before ++ word ++ rest) (word :: words)

theorem Words.blank_append {ds cs : List Char} {ws : List (List Char)} (hds : Blank ds)
    (h : Words cs ws) : Words (ds ++ cs) ws := by
  cases h with
  | blank h => exact .blank (hds.append h)
  | word hbefore hne hword hrest hws =>
      rw [← List.append_assoc, ← List.append_assoc]
      exact .word (hds.append hbefore) hne hword hrest hws

theorem Words.append_blank {cs ds : List Char} {ws : List (List Char)} (h : Words cs ws)
    (hds : Blank ds) : Words (cs ++ ds) ws := by
  induction h with
  | blank h => exact .blank (h.append hds)
  | @word before word rest ws hbefore hne hword hrest _ ih =>
      have hhead : ∀ c ∈ (rest ++ ds).head?, WhiteSpace c := by
        cases rest with
        | nil => exact fun c hc ↦ hds c (List.mem_of_mem_head? hc)
        | cons => exact hrest
      rw [List.append_assoc]
      exact .word hbefore hne hword hhead ih

/-- Every text has words. -/
theorem exists_words (cs : List Char) : ∃ ws, Words cs ws := by
  induction cs with
  | nil => exact ⟨[], .blank .nil⟩
  | cons c cs ih =>
      obtain ⟨ws, h⟩ := ih
      by_cases hc : WhiteSpace c
      · have hblank : Blank [c] := .cons hc .nil
        exact ⟨ws, h.blank_append hblank⟩
      · -- The character is a word, unless another one starts at once: then it joins that one.
        by_cases hhead : ∀ d ∈ cs.head?, WhiteSpace d
        · have hword : Words ([] ++ [c] ++ cs) ([c] :: ws) :=
            .word .nil (List.cons_ne_nil c []) (by simpa using hc) hhead h
          exact ⟨_, hword⟩
        · cases h with
          | blank h => exact absurd (fun d hd ↦ h d (List.mem_of_mem_head? hd)) hhead
          | @word before word rest ws hbefore hne hword hrest hws =>
              cases before with
              | nil =>
                  have hjoined : Words ([] ++ (c :: word) ++ rest) ((c :: word) :: ws) :=
                    .word .nil (List.cons_ne_nil c word) (List.forall_mem_cons.2 ⟨hc, hword⟩) hrest hws
                  exact ⟨_, hjoined⟩
              | cons b before =>
                  exact absurd (by simpa using hbefore b List.mem_cons_self) hhead

/-- The pieces of a text between blanks, where these do not stand side by side. -/
def wordsOf (cs : List Char) : List (List Char) := (cs.splitOnP isBlank).filter fun w ↦ !w.isEmpty

theorem Fragment.chars_words (offset : Nat) (cs : List Char) :
    (words offset cs).map chars = wordsOf cs := by
  rw [wordsOf, ← chars_split isBlank offset, List.filter_map]
  rfl

theorem wordsOf_cons {c : Char} {cs : List Char} (hc : WhiteSpace c) :
    wordsOf (c :: cs) = wordsOf cs := by
  simp [wordsOf, List.splitOnP_cons_eq_if_modifyHead, isBlank_iff_whiteSpace.2 hc]

theorem wordsOf_append {cs ds : List Char} (h : Blank cs) : wordsOf (cs ++ ds) = wordsOf ds := by
  induction cs with
  | nil => rfl
  | cons c cs ih =>
      obtain ⟨hc, hcs⟩ := List.forall_mem_cons.1 h
      rw [List.cons_append, wordsOf_cons hc, ih hcs]

theorem wordsOf_of_blank {cs : List Char} (h : Blank cs) : wordsOf cs = [] := by
  rw [← List.append_nil cs, wordsOf_append h]
  rfl

theorem wordsOf_word_append {word rest : List Char} (hne : word ≠ [])
    (hword : ∀ c ∈ word, ¬ WhiteSpace c) (hrest : ∀ c ∈ rest.head?, WhiteSpace c) :
    wordsOf (word ++ rest) = word :: wordsOf rest := by
  have hsplit : ∀ c ∈ word, isBlank c = false := fun c hc ↦ isBlank_eq_false_iff.2 (hword c hc)
  have hkept : (!word.isEmpty) = true := by simpa using hne
  cases rest with
  | nil =>
      rw [List.append_nil, wordsOf, List.splitOnP_eq_singleton hsplit, List.filter_cons, if_pos hkept]
      rfl
  | cons c rest =>
      have hc : WhiteSpace c := hrest c rfl
      rw [wordsOf_cons hc, wordsOf,
        List.splitOnP_append_cons_of_forall_mem hsplit c (isBlank_iff_whiteSpace.2 hc),
        List.filter_cons, if_pos hkept]
      rfl

/-- A text has no other words than those that are cut out of it. -/
theorem Words.eq_wordsOf {cs : List Char} {ws : List (List Char)} (h : Words cs ws) :
    ws = wordsOf cs := by
  induction h with
  | blank h => exact (wordsOf_of_blank h).symm
  | word hbefore hne hword hrest _ ih =>
      rw [List.append_assoc, wordsOf_append hbefore, wordsOf_word_append hne hword hrest, ih]

theorem words_iff {cs : List Char} {ws : List (List Char)} : Words cs ws ↔ ws = wordsOf cs := by
  constructor
  · exact Words.eq_wordsOf
  · rintro rfl
    obtain ⟨ws, h⟩ := exists_words cs
    rwa [h.eq_wordsOf] at h

theorem wordsOf_append_of_blank {ds : List Char} (h : Blank ds) (cs : List Char) :
    wordsOf (cs ++ ds) = wordsOf cs :=
  ((words_iff.2 rfl).append_blank h).eq_wordsOf.symm

end Intcode.Text
