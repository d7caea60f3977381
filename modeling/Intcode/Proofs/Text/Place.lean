import Intcode.Proofs.Text.Split

/-!
# Where the pieces of a text stand

A fragment says at which byte of the text it starts. For the pieces into which a text is cut, and
for the words of a text, this is the length of what stands before them: the earlier pieces, with a
separator after each. Taking blanks off a piece moves the ones at its start to what stands before
it, and the ones at its end to what stands after it.
-/

namespace Intcode.Text

/-- Each of the pieces is without a separator and has one after it, and the text is all of them. -/
inductive Terminated (isSeparator : Char → Bool) : List Char → List (List Char) → Prop
  | nil : Terminated isSeparator [] []
  | cons {piece rest : List Char} {c : Char} {pieces : List (List Char)}
      (hpiece : ∀ x ∈ piece, isSeparator x = false) (hc : isSeparator c = true)
      (hrest : Terminated isSeparator rest pieces) :
      Terminated isSeparator (piece ++ c :: rest) (piece :: pieces)

/-- A text that starts at byte `offset` is the fragment with `before` and `after` around it. -/
structure Fragment.Between (offset : Nat) (cs before after : List Char) (f : Fragment) : Prop where
  text : cs = before ++ f.chars ++ after
  offset : f.offset = offset + byteLength before

theorem utf8ByteSize_ofList (cs : List Char) :
    (String.ofList cs).utf8ByteSize = byteLength cs := by
  induction cs with
  | nil => rfl
  | cons c cs ih =>
      have hcons : String.ofList (c :: cs) = String.singleton c ++ String.ofList cs := by
        rw [String.singleton_eq_ofList, ← String.ofList_append]
        rfl
      rw [hcons, String.utf8ByteSize_append, String.utf8ByteSize_singleton, ih, byteLength_cons]

theorem Terminated.splitOnP_eq {isSeparator : Char → Bool} {cs : List Char}
    {pieces : List (List Char)} (h : Terminated isSeparator cs pieces) :
    cs.splitOnP isSeparator = pieces ++ [[]] := by
  induction h with
  | nil => rfl
  | cons hpiece hc _ ih =>
      rw [List.splitOnP_append_cons_of_forall_mem hpiece _ hc, ih, List.cons_append]

namespace Fragment

variable {isSeparator : Char → Bool} {offset : Nat} {cs before after : List Char}
  {fs gs : List Fragment} {f : Fragment}

theorem Between.cons {c : Char} (h : Between (offset + c.utf8Size) cs before after f) :
    Between offset (c :: cs) (c :: before) after f := by
  refine ⟨by rw [h.text]; rfl, ?_⟩
  rw [h.offset, byteLength_cons, Nat.add_assoc]

/-! ## Pieces between separators -/

/-- Before a piece there are the earlier ones, and right after it there is a separator or the end of
the text. -/
theorem exists_between_of_split (h : split isSeparator offset cs = fs ++ f :: gs) :
    ∃ before after, Between offset cs before after f ∧
      Terminated isSeparator before (fs.map chars) ∧
      (∀ c ∈ f.chars, isSeparator c = false) ∧ ∀ c ∈ after.head?, isSeparator c = true := by
  have hempty : ∀ c ∈ [], isSeparator c = false := List.forall_mem_nil _
  induction cs generalizing offset fs f with
  | nil =>
      cases fs with
      | nil =>
          cases h
          exact ⟨[], [], ⟨rfl, rfl⟩, .nil, hempty, by simp⟩
      | cons g fs =>
          have hnil : [] = fs ++ f :: gs := (List.cons.inj h).2
          simp at hnil
  | cons c cs ih =>
      rw [split] at h
      split at h
      · rename_i hc
        cases fs with
        | nil =>
            cases h
            exact ⟨[], c :: cs, ⟨rfl, rfl⟩, .nil, hempty, by simpa using hc⟩
        | cons g fs =>
            obtain ⟨rfl, hrest⟩ := List.cons.inj h
            obtain ⟨before, after, hplace, hbefore, hf⟩ := ih hrest
            exact ⟨c :: before, after, hplace.cons, .cons hempty hc hbefore, hf⟩
      · -- The character is the first one of the first piece of the rest.
        rename_i hc
        have hc : isSeparator c = false := Bool.eq_false_iff.2 hc
        obtain ⟨g, rest, hg⟩ :=
          List.exists_cons_of_ne_nil (split_ne_nil isSeparator (offset + c.utf8Size) cs)
        rw [hg] at h
        cases fs with
        | nil =>
            obtain ⟨rfl, rfl⟩ := List.cons.inj h
            have hfirst : split isSeparator (offset + c.utf8Size) cs = [] ++ g :: rest := hg
            obtain ⟨before, after, hplace, hbefore, hmem, hafter⟩ := ih hfirst
            cases hbefore
            refine ⟨[], after, ⟨?_, rfl⟩, .nil, List.forall_mem_cons.2 ⟨hc, hmem⟩, hafter⟩
            rw [hplace.text]
            rfl
        | cons first fs =>
            obtain ⟨rfl, rfl⟩ := List.cons.inj h
            have hlater : split isSeparator (offset + c.utf8Size) cs = (g :: fs) ++ f :: gs := hg
            obtain ⟨before, after, hplace, hbefore, hf⟩ := ih hlater
            refine ⟨c :: before, after, hplace.cons, ?_, hf⟩
            cases hbefore with
            | cons hpiece hsep hrest =>
                exact .cons (List.forall_mem_cons.2 ⟨hc, hpiece⟩) hsep hrest

/-! ## Words -/

/-- Before a word there are the earlier ones, and right after it there is a blank or the end of the
text. -/
theorem exists_between_of_words (h : words offset cs = fs ++ f :: gs) :
    ∃ before after, Between offset cs before after f ∧ wordsOf before = fs.map chars ∧
      f.chars ≠ [] ∧ (∀ c ∈ f.chars, ¬ WhiteSpace c) ∧ ∀ c ∈ after.head?, WhiteSpace c := by
  obtain ⟨pieces, rest, hsplit, rfl, hrest⟩ := List.filter_eq_append_iff.1 h
  obtain ⟨empty, later, rfl, hempty, hf, -⟩ := List.filter_eq_cons_iff.1 hrest
  rw [← List.append_assoc] at hsplit
  obtain ⟨before, after, hplace, hbefore, hmem, hafter⟩ := exists_between_of_split hsplit
  refine ⟨before, after, hplace, ?_, by simpa using hf, ?_, ?_⟩
  · have hnone : empty.filter (fun f ↦ !f.chars.isEmpty) = [] := List.filter_eq_nil_iff.2 hempty
    have hchars (fs : List Fragment) :
        (fs.map chars).filter (fun w ↦ !w.isEmpty) =
          (fs.filter fun f ↦ !f.chars.isEmpty).map chars := List.filter_map
    rw [wordsOf, hbefore.splitOnP_eq, List.filter_append, hchars, List.filter_append, hnone,
      List.append_nil]
    exact List.append_nil _
  · exact fun c hc ↦ isBlank_eq_false_iff.1 (hmem c hc)
  · exact fun c hc ↦ isBlank_iff_whiteSpace.1 (hafter c hc)

/-! ## Blanks around a piece -/

/-- The trimmed fragment stands between the blanks that have been taken off. -/
theorem Between.trim (h : Between offset cs before after f) :
    ∃ leading trailing, Blank leading ∧ Blank trailing ∧
      Between offset cs (before ++ leading) (trailing ++ after) f.trim ∧
      (f.trim.chars = [] → leading = []) := by
  by_cases hall : f.chars.all isBlank
  · have htrim : f.trim = ⟨f.offset, []⟩ := by simp [Fragment.trim, hall]
    refine ⟨[], f.chars, .nil, all_isBlank_iff.1 hall, ⟨?_, ?_⟩, fun _ ↦ rfl⟩
    · simp [htrim, h.text]
    · simp [htrim, h.offset]
  · have htrim : f.trim =
        ⟨f.offset + byteLength (f.chars.takeWhile isBlank), Text.trim f.chars⟩ := by
      simp [Fragment.trim, hall]
    have hleading : Blank (f.chars.takeWhile isBlank) :=
      fun c hc ↦ isBlank_iff_whiteSpace.1 (List.mem_takeWhile_imp hc)
    obtain ⟨trailing, htrailing, hend⟩ := exists_eq_trimEnd_append (trimStart f.chars)
    have hchars : f.chars = f.chars.takeWhile isBlank ++ Text.trim f.chars ++ trailing := by
      rw [List.append_assoc, Text.trim, ← hend]
      exact List.takeWhile_append_dropWhile.symm
    refine ⟨_, trailing, hleading, htrailing, ⟨?_, ?_⟩, fun hnil ↦ ?_⟩
    · rw [htrim, h.text]
      conv_lhs => rw [hchars]
      simp only [List.append_assoc]
    · rw [htrim, byteLength_append, h.offset, Nat.add_assoc]
    · rw [htrim] at hnil
      have hnil : Text.trim f.chars = [] := hnil
      rw [hnil, List.append_nil] at hchars
      exact absurd (all_isBlank_iff.2 (hchars ▸ hleading.append htrailing)) hall

end Fragment

end Intcode.Text
