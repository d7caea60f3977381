import Intcode.ProgramText
import Intcode.Proofs.Text.Numeral
import Intcode.Proofs.Text.Split
import Mathlib.Data.List.Forall2

/-!
# The grammar of program text

Which texts are programs. With a delimiter that is no blank, a program is a sequence of cells with
the delimiter between them, each a numeral with blanks around it; one more delimiter may follow the
last cell, and blanks at the very end. With a blank delimiter, a program is a text whose words are
numerals, whichever blank it is.

Reading takes off what may stand at the end before it cuts the text into cells, so the work is to
show that nothing that belongs to a cell is taken off, or belongs to none and is left.
-/

namespace Intcode.Decimal

variable {negatives : Bool} {cs : List Char} {i : Int}

theorem Numeral.ne_nil (h : Numeral negatives cs i) : cs ≠ [] := by
  cases h with
  | unsigned hd => exact hd.ne_nil
  | plus => exact List.cons_ne_nil _ _
  | minus => exact List.cons_ne_nil _ _

theorem Numeral.not_whiteSpace (h : Numeral negatives cs i) : ∀ c ∈ cs, ¬ Text.WhiteSpace c := by
  have hdigits {ds : List Char} (hd : Digits ds) : ∀ c ∈ ds, ¬ Text.WhiteSpace c :=
    fun c hc ↦ Text.not_whiteSpace_of_isDigit (hd.isDigit c hc)
  cases h with
  | unsigned hd => exact hdigits hd
  | plus hd => exact List.forall_mem_cons.2 ⟨by decide, hdigits hd⟩
  | minus hd => exact List.forall_mem_cons.2 ⟨by decide, hdigits hd⟩

end Intcode.Decimal

namespace Intcode.ProgramText

open Text Decimal

/-- The piece holds the cell: a numeral of its value, with blanks around it. -/
def Holds (piece : List Char) (v : Cell) : Prop :=
  ∃ before numeral after, piece = before ++ numeral ++ after ∧ Blank before ∧
    Numeral true numeral v.toInt ∧ Blank after

/-- There is one delimiter or none. -/
def AtMostOne (d : Char) (cs : List Char) : Prop := cs = [] ∨ cs = [d]

/-- The text is a program with the delimiter `d`. -/
inductive Delimited (d : Char) : List Char → List Cell → Prop
  | empty {before ending after : List Char} (hbefore : Blank before) (hending : AtMostOne d ending)
      (hafter : Blank after) : Delimited d (before ++ ending ++ after) []
  | cells {pieces : List (List Char)} {vs : List Cell} {ending after : List Char} (hne : vs ≠ [])
      (hpieces : List.Forall₂ Holds pieces vs) (hd : ∀ piece ∈ pieces, d ∉ piece)
      (hending : AtMostOne d ending) (hafter : Blank after) :
      Delimited d ([d].intercalate pieces ++ ending ++ after) vs

/-! ## One cell -/

theorem holds_iff {piece : List Char} {v : Cell} :
    Holds piece v ↔ Numeral true (trim piece) v.toInt := by
  constructor
  · rintro ⟨before, numeral, after, rfl, hbefore, hv, hafter⟩
    rwa [trim_append_append hbefore hv.not_whiteSpace hafter]
  · intro h
    obtain ⟨before, after, hbefore, hafter, hpiece⟩ := exists_eq_append_trim_append piece
    exact ⟨before, trim piece, after, hpiece, hbefore, h, hafter⟩

theorem readCell_eq_ok_iff {f : Fragment} {v : Cell} :
    readCell f = .ok v ↔ Numeral true f.chars v.toInt := by
  unfold readCell
  rw [← Cell.read_eq_ok_iff]
  split
  · rename_i hempty
    have hnone : ¬ Numeral true [] v.toInt := fun h ↦ h.ne_nil rfl
    simp [List.isEmpty_iff.1 hempty, Cell.read_eq_ok_iff, hnone]
  · cases Cell.read f.chars <;> simp

theorem readCells_eq_ok_iff {index : Nat} {fs : List Fragment} {vs : List Cell} :
    readCells index fs = .ok vs ↔
      List.Forall₂ (fun piece v ↦ Numeral true piece v.toInt) (fs.map Fragment.chars) vs := by
  induction fs generalizing index vs with
  | nil => simp [readCells, eq_comm]
  | cons f fs ih =>
      rw [readCells, List.map_cons, List.forall₂_cons_left_iff]
      simp only [← readCell_eq_ok_iff, ← @ih (index + 1)]
      cases readCell f with
      | error cause => simp
      | ok v => cases readCells (index + 1) fs <;> simp [Except.map, eq_comm]

/-! ## Cells between delimiters -/

variable {d : Char}

/-- What is not part of the body of a text: a delimiter and blanks after it, or blanks alone, and
then the body ends with something else. -/
theorem body_cases (d : Char) (cs : List Char) :
    ∃ after, Blank after ∧ (cs = body d cs ++ [d] ++ after ∨
      cs = body d cs ++ after ∧ Tight (body d cs) ∧ (body d cs).getLast? ≠ some d) := by
  obtain ⟨after, hafter, hcs⟩ := exists_eq_trimEnd_append cs
  refine ⟨after, hafter, ?_⟩
  unfold body dropDelimiter
  split
  · rename_i hlast
    rw [List.dropLast_append_getLast? d hlast]
    exact .inl hcs
  · rename_i hlast
    exact .inr ⟨hcs, tight_trimEnd cs, hlast⟩

theorem exists_eq_body_append (d : Char) (cs : List Char) :
    ∃ ending after, cs = body d cs ++ ending ++ after ∧ AtMostOne d ending ∧ Blank after := by
  obtain ⟨after, hafter, hcs | ⟨hcs, -⟩⟩ := body_cases d cs
  · exact ⟨[d], after, hcs, .inr rfl, hafter⟩
  · exact ⟨[], after, by rwa [List.append_nil], .inl rfl, hafter⟩

theorem body_append_delimiter (hd : ¬ WhiteSpace d) (cs : List Char) {after : List Char}
    (hafter : Blank after) : body d (cs ++ [d] ++ after) = cs := by
  have htight : Tight (cs ++ [d]) := by simpa [Tight] using hd
  rw [body, trimEnd_append hafter, trimEnd_eq_self htight, dropDelimiter]
  simp

/-- Of cells that are not blank, taking off blanks and a delimiter at the end leaves all. -/
theorem map_trim_splitOn_body (hd : ¬ WhiteSpace d) {cs after : List Char}
    (hcells : ∀ piece ∈ cs.splitOn d, trim piece ≠ []) (hafter : Blank after) :
    ((body d (cs ++ after)).splitOn d).map trim = (cs.splitOn d).map trim := by
  obtain ⟨rest, hrest, hcs⟩ := exists_eq_trimEnd_append cs
  -- If the delimiter were the last character that is no blank, the last cell would be blank.
  have hlast : (trimEnd cs).getLast? ≠ some d := by
    intro hlast
    have hmem : rest ∈ cs.splitOn d := by
      rw [hcs, ← List.dropLast_append_getLast? d hlast, List.append_assoc, List.singleton_append,
        List.splitOn_append_cons_self, List.splitOn_eq_singleton (hrest.not_mem hd)]
      simp
    exact hcells rest hmem (trim_of_blank hrest)
  have hbody : body d (cs ++ after) = trimEnd cs := by
    rw [body, trimEnd_append hafter, dropDelimiter, if_neg hlast]
  rw [hbody]
  conv_rhs => rw [hcs]
  exact (map_trim_splitOn_append hd _ hrest).symm

theorem fragments_of_not_whiteSpace (hd : ¬ WhiteSpace d) (cs : List Char) :
    fragments d cs =
      if (body d cs).all isBlank then []
      else (Fragment.split (· = d) 0 (body d cs)).map Fragment.trim := by
  simp only [fragments, isBlank_eq_false_iff.2 hd, Bool.false_eq_true, if_false]

theorem chars_fragments (hd : ¬ WhiteSpace d) (cs : List Char) :
    (fragments d cs).map Fragment.chars =
      if (body d cs).all isBlank then [] else ((body d cs).splitOn d).map trim := by
  have hsplit : (body d cs).splitOn d =
      (Fragment.split (· = d) 0 (body d cs)).map Fragment.chars :=
    (Fragment.chars_split _ _ _).symm
  rw [fragments_of_not_whiteSpace hd]
  split
  · rfl
  · simp [hsplit, Fragment.chars_trim]

theorem delimited_of_readCells (hd : ¬ WhiteSpace d) {cs : List Char} {vs : List Cell}
    (h : readCells 0 (fragments d cs) = .ok vs) : Delimited d cs vs := by
  obtain ⟨ending, after, hcs, hending, hafter⟩ := exists_eq_body_append d cs
  rw [readCells_eq_ok_iff, chars_fragments hd] at h
  rw [hcs]
  split at h
  · rename_i hblank
    cases h
    exact .empty (all_isBlank_iff.1 hblank) hending hafter
  · rw [List.forall₂_map_left_iff] at h
    have hpieces : List.Forall₂ Holds ((body d cs).splitOn d) vs := h.imp fun _ _ ↦ holds_iff.2
    have hne : vs ≠ [] := by
      rintro rfl
      exact List.splitOn_ne_nil d _ (List.forall₂_nil_right_iff.1 hpieces)
    have hcells := Delimited.cells hne hpieces (fun _ ↦ not_mem_of_mem_splitOn) hending hafter
    rwa [List.intercalate_splitOn] at hcells

theorem readCells_of_delimited (hd : ¬ WhiteSpace d) {cs : List Char} {vs : List Cell}
    (h : Delimited d cs vs) : readCells 0 (fragments d cs) = .ok vs := by
  rw [readCells_eq_ok_iff, chars_fragments hd]
  cases h with
  | @empty before ending after hbefore hending hafter =>
      have hbody : Blank (body d (before ++ ending ++ after)) := by
        rcases hending with rfl | rfl
        · have hall : Blank (before ++ [] ++ after) := (hbefore.append .nil).append hafter
          rw [body, trimEnd_of_blank hall]
          exact .nil
        · rwa [body_append_delimiter hd before hafter]
      rw [if_pos (all_isBlank_iff.2 hbody)]
      exact .nil
  | @cells pieces _ ending after hne hpieces hmem hending hafter =>
      have hnumerals := hpieces.imp fun _ _ ↦ holds_iff.1
      have hsplit : ([d].intercalate pieces).splitOn d = pieces := by
        refine List.splitOn_intercalate d hmem ?_
        rintro rfl
        exact hne (List.forall₂_nil_left_iff.1 hpieces)
      have hcells : ∀ piece ∈ pieces, trim piece ≠ [] :=
        (List.forall₂_and_left _ _).1 (hnumerals.imp fun _ _ h ↦ ⟨h.ne_nil, h⟩) |>.1
      have htrim : ((body d ([d].intercalate pieces ++ ending ++ after)).splitOn d).map trim =
          pieces.map trim := by
        rcases hending with rfl | rfl
        · rw [List.append_nil, map_trim_splitOn_body hd (by rwa [hsplit]) hafter, hsplit]
        · rw [body_append_delimiter hd _ hafter, hsplit]
      have hbody : ¬ Blank (body d ([d].intercalate pieces ++ ending ++ after)) := by
        intro hblank
        rw [List.splitOn_eq_singleton (hblank.not_mem hd), List.map_singleton,
          trim_of_blank hblank] at htrim
        have hmem : [] ∈ pieces.map trim := by rw [← htrim, List.mem_singleton]
        obtain ⟨piece, hpiece, hnil⟩ := List.mem_map.1 hmem
        exact hcells piece hpiece hnil
      rw [if_neg (by rwa [all_isBlank_iff]), htrim, List.forall₂_map_left_iff]
      exact hnumerals

/-! ## Cells between blanks -/

theorem body_of_whiteSpace (hd : WhiteSpace d) (cs : List Char) : body d cs = trimEnd cs := by
  have hlast : (trimEnd cs).getLast? ≠ some d := fun h ↦ tight_trimEnd cs d h hd
  rw [body, dropDelimiter, if_neg hlast]

theorem fragments_of_whiteSpace (hd : WhiteSpace d) (cs : List Char) :
    fragments d cs =
      if (trimEnd cs).all isBlank then [] else Fragment.words 0 (trimEnd cs) := by
  simp only [fragments, isBlank_iff_whiteSpace.2 hd, if_true, body_of_whiteSpace hd]

theorem chars_fragments_of_whiteSpace (hd : WhiteSpace d) (cs : List Char) :
    (fragments d cs).map Fragment.chars = wordsOf cs := by
  obtain ⟨after, hafter, hcs⟩ := exists_eq_trimEnd_append cs
  have hwords : wordsOf cs = wordsOf (trimEnd cs) := by
    conv_lhs => rw [hcs]
    exact wordsOf_append_of_blank hafter _
  rw [fragments_of_whiteSpace hd, hwords]
  split
  · rename_i hblank
    exact (wordsOf_of_blank (all_isBlank_iff.1 hblank)).symm
  · exact Fragment.chars_words 0 _

/-! ## Programs as they are written -/

/-- The piece shows the cell: its decimal text, with blanks around it. -/
def Shows (piece : List Char) (v : Cell) : Prop :=
  ∃ before after, piece = before ++ v.text.toList ++ after ∧ Blank before ∧ Blank after

/-- The text shows the cells with the delimiter between them. One more delimiter may follow, and
blanks may stand wherever they do not cut a cell. -/
def Joined (d : Char) (cs : List Char) (vs : List Cell) : Prop :=
  ∃ before pieces ending after, cs = before ++ [d].intercalate pieces ++ ending ++ after ∧
    Blank before ∧ List.Forall₂ Shows pieces vs ∧ AtMostOne d ending ∧ Blank after

theorem Shows.holds {piece : List Char} {v : Cell} (h : Shows piece v) : Holds piece v := by
  obtain ⟨before, after, hpiece, hbefore, hafter⟩ := h
  exact ⟨before, v.text.toList, after, hpiece, hbefore, Cell.numeral_text v, hafter⟩

theorem Shows.blank_append {cs piece : List Char} {v : Cell} (hcs : Blank cs) (h : Shows piece v) :
    Shows (cs ++ piece) v := by
  obtain ⟨before, after, rfl, hbefore, hafter⟩ := h
  exact ⟨cs ++ before, after, by simp only [List.append_assoc], hcs.append hbefore, hafter⟩

theorem Shows.not_mem (hd : ¬ WhiteSpace d) (hdigit : d.isDigit = false) (hminus : d ≠ '-')
    {piece : List Char} {v : Cell} (h : Shows piece v) : d ∉ piece := by
  obtain ⟨before, after, rfl, hbefore, hafter⟩ := h
  have htext : d ∉ v.text.toList := by
    intro hmem
    rcases eq_minus_or_isDigit_of_mem_ofInt hmem with h | h
    · exact hminus h
    · rw [hdigit] at h
      cases h
  simp only [List.mem_append, not_or]
  exact ⟨⟨hbefore.not_mem hd, htext⟩, hafter.not_mem hd⟩

theorem delimited_of_joined (hd : ¬ WhiteSpace d) (hdigit : d.isDigit = false) (hminus : d ≠ '-')
    {cs : List Char} {vs : List Cell} (h : Joined d cs vs) : Delimited d cs vs := by
  obtain ⟨before, pieces, ending, after, rfl, hbefore, hpieces, hending, hafter⟩ := h
  cases hpieces with
  | nil =>
      rw [List.intercalate_nil, List.append_nil]
      exact .empty hbefore hending hafter
  | @cons piece v pieces vs hpiece hpieces =>
      -- The blanks at the start belong to the first cell.
      have hfirst : before ++ [d].intercalate (piece :: pieces) =
          [d].intercalate ((before ++ piece) :: pieces) := by
        cases pieces <;> simp [List.intercalate_cons_cons]
      have hall : List.Forall₂ Shows ((before ++ piece) :: pieces) (v :: vs) :=
        .cons (hpiece.blank_append hbefore) hpieces
      have hmem : ∀ p ∈ (before ++ piece) :: pieces, d ∉ p :=
        (List.forall₂_and_left _ _).1 (hall.imp fun _ _ h ↦ ⟨h.not_mem hd hdigit hminus, h⟩) |>.1
      rw [hfirst]
      exact .cells (List.cons_ne_nil v vs) (hall.imp fun _ _ ↦ Shows.holds) hmem hending hafter

theorem wordsOf_shows_append {piece rest : List Char} {v : Cell} (h : Shows piece v)
    (hrest : ∀ c ∈ rest.head?, WhiteSpace c) :
    wordsOf (piece ++ rest) = v.text.toList :: wordsOf rest := by
  obtain ⟨before, after, rfl, hbefore, hafter⟩ := h
  have hv : Numeral true v.text.toList v.toInt := Cell.numeral_text v
  have hhead : ∀ c ∈ (after ++ rest).head?, WhiteSpace c := by
    cases after with
    | nil => exact hrest
    | cons => exact fun c hc ↦ hafter c (List.mem_of_mem_head? (by simpa using hc))
  rw [List.append_assoc, List.append_assoc, wordsOf_append hbefore,
    wordsOf_word_append hv.ne_nil hv.not_whiteSpace hhead, wordsOf_append hafter]

theorem wordsOf_intercalate (hd : WhiteSpace d) {pieces : List (List Char)} {vs : List Cell}
    {rest : List Char} (h : List.Forall₂ Shows pieces vs) (hrest : Blank rest) :
    wordsOf ([d].intercalate pieces ++ rest) = vs.map fun v ↦ v.text.toList := by
  induction h with
  | nil => exact wordsOf_of_blank hrest
  | @cons piece v pieces vs hpiece hpieces ih =>
      rw [List.map_cons, ← ih]
      cases pieces with
      | nil =>
          have hhead : ∀ c ∈ rest.head?, WhiteSpace c :=
            fun c hc ↦ hrest c (List.mem_of_mem_head? hc)
          rw [List.intercalate_singleton, wordsOf_shows_append hpiece hhead]
          rfl
      | cons next pieces =>
          have hhead : ∀ c ∈ (d :: ([d].intercalate (next :: pieces) ++ rest)).head?,
              WhiteSpace c := by simpa using hd
          rw [List.intercalate_cons_cons, List.append_assoc, List.append_assoc, List.singleton_append,
            wordsOf_shows_append hpiece hhead, wordsOf_cons hd]

theorem readCells_of_joined (hdigit : d.isDigit = false) (hminus : d ≠ '-') {cs : List Char}
    {vs : List Cell} (h : Joined d cs vs) : readCells 0 (fragments d cs) = .ok vs := by
  by_cases hd : WhiteSpace d
  · obtain ⟨before, pieces, ending, after, rfl, hbefore, hpieces, hending, hafter⟩ := h
    have hrest : Blank (ending ++ after) := by
      rcases hending with rfl | rfl
      · exact hafter
      · exact .cons hd hafter
    rw [readCells_eq_ok_iff, chars_fragments_of_whiteSpace hd, List.append_assoc, List.append_assoc,
      wordsOf_append hbefore, wordsOf_intercalate hd hpieces hrest, List.forall₂_map_left_iff]
    exact List.forall₂_same.2 fun v _ ↦ Cell.numeral_text v
  · exact readCells_of_delimited hd (delimited_of_joined hd hdigit hminus h)

/-! ## All programs -/

/-- A text is read as some cells exactly if it is a program of these cells: with a delimiter that is
no blank, cells with delimiters between them; with one that is, words that are numerals, and then it
makes no difference which blank it is. What is written with a delimiter that cannot be part of a
cell is read back. -/
theorem parse_accepts_exactly_programs (d : Char) :
    (¬ WhiteSpace d → ∀ text vs, parse d text = .ok vs ↔ Delimited d text.toList vs) ∧
    (WhiteSpace d → ∀ text,
      (∀ vs, parse d text = .ok vs ↔ ∃ words, Words text.toList words ∧
        List.Forall₂ (fun word v ↦ Numeral true word v.toInt) words vs) ∧
      ∀ d', WhiteSpace d' → parse d' text = parse d text) ∧
    (d.isDigit = false → d ≠ '-' → ∀ text vs, Joined d text.toList vs → parse d text = .ok vs) := by
  refine ⟨fun hd text vs ↦ ?_, fun hd text ↦ ⟨fun vs ↦ ?_, fun d' hd' ↦ ?_⟩, ?_⟩
  · exact ⟨delimited_of_readCells hd, readCells_of_delimited hd⟩
  · rw [parse, readCells_eq_ok_iff, chars_fragments_of_whiteSpace hd]
    simp only [words_iff, exists_eq_left]
  · rw [parse, parse, fragments_of_whiteSpace hd, fragments_of_whiteSpace hd']
  · exact fun hdigit hminus text vs h ↦ readCells_of_joined hdigit hminus h

/-- A delimiter at the end and blanks everywhere, blanks of two kinds as delimiters, and a text that
is written for two cells. -/
theorem parse_accepts_exactly_programs_of_pairs :
    Delimited ';' " +3 ; -4 ;\n".toList [3, -4] ∧
    (∃ words, Words "3\t\n-4 ".toList words ∧
      List.Forall₂ (fun word v ↦ Numeral true word v.toInt) words [(3 : Cell), -4]) ∧
    parse '|' "3|-4|" = .ok [3, -4] := by
  have hsemicolon : parse ';' " +3 ; -4 ;\n" = .ok [3, -4] := by rfl
  have htab : parse '\t' "3\t\n-4 " = .ok [3, -4] := by rfl
  have hjoined : Joined '|' "3|-4|".toList [3, -4] :=
    ⟨[], ["3".toList, "-4".toList], ['|'], [], by rfl, .nil,
      .cons ⟨[], [], by rfl, .nil, .nil⟩ (.cons ⟨[], [], by rfl, .nil, .nil⟩ .nil), .inr rfl, .nil⟩
  exact ⟨((parse_accepts_exactly_programs ';').1 (by decide) _ _).1 hsemicolon,
    (((parse_accepts_exactly_programs '\t').2.1 (by decide) _).1 _).1 htab,
    (parse_accepts_exactly_programs '|').2.2 (by decide) (by decide) _ _ hjoined⟩

end Intcode.ProgramText
