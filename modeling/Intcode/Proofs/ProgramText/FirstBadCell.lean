import Intcode.Proofs.ProgramText.Grammar
import Intcode.Proofs.Text.Place

/-!
# The first bad cell

A text that is no program is refused for its first bad cell. What stands before that cell is a
program by itself, and it has as many cells as the error counts; and at the place that the error
names stands what it says: a piece that is no numeral, or nothing up to the next delimiter.
-/

namespace Intcode.ProgramText

open Text Decimal

/-- The text starts with a cell that is bad for this cause. -/
inductive BadCell (d : Char) : Cause → List Char → Prop
  /-- There is nothing but blanks up to the next delimiter. -/
  | empty {blanks rest : List Char} (hd : ¬ WhiteSpace d) (hblanks : Blank blanks) :
      BadCell d .emptyCell (blanks ++ d :: rest)
  /-- There is a piece that is no numeral of a cell, and blanks up to the next delimiter or the end
  of the text. -/
  | piece {token blanks rest : List Char} (hd : ¬ WhiteSpace d) (hne : token ≠ [])
      (hmem : d ∉ token) (hstart : ∀ c ∈ token.head?, ¬ WhiteSpace c) (hend : Tight token)
      (hnumeral : ∀ v : Cell, ¬ Numeral true token v.toInt) (hblanks : Blank blanks)
      (hrest : ∀ c ∈ rest.head?, c = d) : BadCell d (.invalidNumber token) (token ++ blanks ++ rest)
  /-- There is a word that is no numeral of a cell, up to the next blank or the end of the text. -/
  | word {token rest : List Char} (hd : WhiteSpace d) (hne : token ≠ [])
      (hword : ∀ c ∈ token, ¬ WhiteSpace c)
      (hnumeral : ∀ v : Cell, ¬ Numeral true token v.toInt)
      (hrest : ∀ c ∈ rest.head?, WhiteSpace c) : BadCell d (.invalidNumber token) (token ++ rest)

/-- The error is about the cell that `after` starts with, and `before` is a program of the cells
that come before it. -/
structure StopsAt (d : Char) (e : Error) (before after : List Char) : Prop where
  offset : e.offset = byteLength before
  cells : ∃ vs, readCells 0 (fragments d before) = .ok vs ∧ vs.length = e.index
  bad : BadCell d e.cause after
  count : ¬ WhiteSpace d → before.count d = e.index

variable {d : Char} {cs before after : List Char} {pieces : List (List Char)} {vs : List Cell}
  {e : Error}

/-! ## Reading up to an error -/

theorem readCell_eq_error {f : Fragment} {cause : Cause} (h : readCell f = .error cause) :
    f.chars = [] ∧ cause = .emptyCell ∨
      f.chars ≠ [] ∧ (∀ v : Cell, ¬ Numeral true f.chars v.toInt) ∧
        cause = .invalidNumber f.chars := by
  have hnumeral (v : Cell) : ¬ Numeral true f.chars v.toInt := by
    rw [← readCell_eq_ok_iff, h]
    exact nofun
  unfold readCell at h
  split at h
  · rename_i hempty
    exact .inl ⟨List.isEmpty_iff.1 hempty, (Except.error.inj h).symm⟩
  · rename_i hempty
    split at h
    · cases h
    · exact .inr ⟨fun hnil ↦ hempty (List.isEmpty_iff.2 hnil), hnumeral, (Except.error.inj h).symm⟩

/-- The cells before the first bad one are read. -/
theorem exists_of_readCells_eq_error {index : Nat} {fs : List Fragment}
    (h : readCells index fs = .error e) :
    ∃ before f after, fs = before ++ f :: after ∧ e.index = index + before.length ∧
      e.offset = f.offset ∧ readCell f = .error e.cause ∧
      ∃ vs : List Cell, List.Forall₂ (fun piece v ↦ Numeral true piece v.toInt)
        (before.map Fragment.chars) vs := by
  induction fs generalizing index with
  | nil => cases h
  | cons f fs ih =>
      rw [readCells] at h
      split at h
      · rename_i hf
        cases h
        exact ⟨[], f, fs, rfl, rfl, rfl, hf, [], .nil⟩
      · rename_i v hf
        cases hrest : readCells (index + 1) fs with
        | ok vs =>
            rw [hrest] at h
            cases h
        | error e' =>
            rw [hrest] at h
            obtain rfl : e' = e := Except.error.inj h
            obtain ⟨before, g, after, rfl, hindex, hoffset, hg, vs, hvs⟩ := ih hrest
            refine ⟨f :: before, g, after, rfl, ?_, hoffset, hg, v :: vs, ?_⟩
            · rw [hindex, List.length_cons]
              omega
            · exact .cons (readCell_eq_ok_iff.1 hf) hvs

theorem not_blank_body {fs gs : List Fragment} {f : Fragment}
    (h : fragments d cs = fs ++ f :: gs) : ¬ Blank (body d cs) := by
  intro hblank
  have hnone : fragments d cs = [] := if_pos (all_isBlank_iff.2 hblank)
  rw [hnone] at h
  simp at h

/-! ## Before a cell between delimiters -/

theorem count_of_terminated (h : Terminated (· = d) cs pieces) : cs.count d = pieces.length := by
  induction h with
  | nil => rfl
  | @cons piece rest c pieces hpiece hc _ ih =>
      obtain rfl : c = d := of_decide_eq_true hc
      have hnone : piece.count c = 0 :=
        List.count_eq_zero.2 fun hmem ↦ of_decide_eq_false (hpiece c hmem) rfl
      rw [List.count_append, hnone, List.count_cons_self, ih, Nat.zero_add, List.length_cons]

theorem eq_of_terminated (h : Terminated (· = d) cs pieces) :
    cs = [] ∧ pieces = [] ∨ cs = [d].intercalate pieces ++ [d] ∧ pieces ≠ [] := by
  induction h with
  | nil => exact .inl ⟨rfl, rfl⟩
  | @cons piece rest c pieces _ hc _ ih =>
      obtain rfl : c = d := of_decide_eq_true hc
      refine .inr ⟨?_, List.cons_ne_nil _ _⟩
      obtain ⟨rfl, rfl⟩ | ⟨hrest, hne⟩ := ih
      · rw [List.intercalate_singleton]
      · rw [List.intercalate_cons_of_ne_nil hne, List.append_assoc, List.append_assoc, ← hrest]
        rfl

theorem delimited_of_terminated (h : Terminated (· = d) before pieces)
    (hpieces : List.Forall₂ Holds pieces vs) {blanks : List Char} (hblanks : Blank blanks) :
    Delimited d (before ++ blanks) vs := by
  obtain ⟨rfl, rfl⟩ | ⟨hbefore, hne⟩ := eq_of_terminated h
  · cases hpieces
    have hempty : Delimited d ([] ++ [] ++ blanks) [] := .empty .nil (.inl rfl) hblanks
    exact hempty
  · have hmem : ∀ piece ∈ pieces, d ∉ piece := by
      intro piece hpiece
      have hsplit : before.splitOn d = pieces ++ [[]] := h.splitOnP_eq
      have hcut : piece ∈ before.splitOn d := by
        rw [hsplit]
        exact List.mem_append_left _ hpiece
      exact not_mem_of_mem_splitOn hcut
    have hvs : vs ≠ [] := by
      rintro rfl
      exact hne (List.forall₂_nil_right_iff.1 hpieces)
    rw [hbefore]
    exact .cells hvs hpieces hmem (.inr rfl) hblanks

/-! ## At a cell between delimiters -/

/-- After a piece of the body there are its blanks, and then a delimiter or the end of the text. At
the end of the text no delimiter has been taken off. -/
theorem exists_eq_append_of_body {front trailing : List Char} (htrailing : Blank trailing)
    (hafter : ∀ c ∈ after.head?, c = d) (hbody : body d cs = front ++ (trailing ++ after)) :
    ∃ blanks rest, cs = front ++ (blanks ++ rest) ∧ Blank blanks ∧ (∀ c ∈ rest.head?, c = d) ∧
      (rest = [] → after = [] ∧ Tight (body d cs) ∧ (body d cs).getLast? ≠ some d) := by
  obtain ⟨ending, hending, hcs | ⟨hcs, hlast⟩⟩ := body_cases d cs
  · refine ⟨trailing, after ++ d :: ending, hcs.trans (by simp [hbody]), htrailing, ?_, by simp⟩
    cases after with
    | nil => simp
    | cons => simpa using hafter
  · cases after with
    | nil =>
        have hblanks : Blank (trailing ++ ending) := htrailing.append hending
        refine ⟨trailing ++ ending, [], hcs.trans (by simp [hbody]), hblanks, by simp, ?_⟩
        exact fun _ ↦ ⟨rfl, hlast⟩
    | cons c after =>
        refine ⟨trailing, c :: after ++ ending, hcs.trans (by simp [hbody]), htrailing, ?_, by simp⟩
        simpa using hafter

/-- A body whose last piece is blank is empty, if it does not end with a delimiter. -/
theorem eq_nil_of_terminated {blanks : List Char} (h : Terminated (· = d) before pieces)
    (hblanks : Blank blanks) (htight : Tight (before ++ blanks))
    (hlast : (before ++ blanks).getLast? ≠ some d) : before ++ blanks = [] := by
  have hnone : blanks = [] := htight.eq_nil_of_append hblanks
  rw [hnone, List.append_nil] at hlast ⊢
  obtain ⟨hnil, -⟩ | ⟨hbefore, -⟩ := eq_of_terminated h
  · exact hnil
  · rw [hbefore, List.getLast?_concat] at hlast
    exact absurd rfl hlast

theorem badCell_of_readCell {f : Fragment} {cause : Cause} {blanks rest : List Char}
    (hd : ¬ WhiteSpace d) (h : readCell f.trim = .error cause) (hmem : d ∉ f.chars)
    (hblanks : Blank blanks) (hrest : ∀ c ∈ rest.head?, c = d)
    (hempty : f.trim.chars = [] → rest ≠ []) :
    BadCell d cause (f.trim.chars ++ blanks ++ rest) := by
  obtain ⟨hnil, rfl⟩ | ⟨hne, hnumeral, rfl⟩ := readCell_eq_error h
  · obtain ⟨c, rest, rfl⟩ := List.exists_cons_of_ne_nil (hempty hnil)
    obtain rfl : c = d := hrest c rfl
    rw [hnil]
    exact .empty hd hblanks
  · have htrim : f.trim.chars = trim f.chars := f.chars_trim
    refine .piece hd hne ?_ ?_ ?_ hnumeral hblanks hrest
    · obtain ⟨leading, trailing, -, -, hchars⟩ := exists_eq_append_trim_append f.chars
      rw [hchars] at hmem
      simp only [List.mem_append, not_or] at hmem
      rw [htrim]
      exact hmem.1.2
    · rw [htrim]
      exact not_whiteSpace_head_trim f.chars
    · rw [htrim]
      exact tight_trim f.chars

theorem forall₂_holds {fs : List Fragment}
    (h : List.Forall₂ (fun piece v ↦ Numeral true piece v.toInt)
      ((fs.map Fragment.trim).map Fragment.chars) vs) :
    List.Forall₂ Holds (fs.map Fragment.chars) vs := by
  rw [List.map_map, List.forall₂_map_left_iff] at h
  rw [List.forall₂_map_left_iff]
  refine h.imp fun f v hf ↦ holds_iff.2 ?_
  rw [← Fragment.chars_trim]
  exact hf

theorem exists_stopsAt_of_delimiter (hd : ¬ WhiteSpace d)
    (h : readCells 0 (fragments d cs) = .error e) :
    ∃ before after, cs = before ++ after ∧ StopsAt d e before after := by
  obtain ⟨earlier, g, later, hcut, hindex, hoffset, hg, vs, hvs⟩ := exists_of_readCells_eq_error h
  have hbody : ¬ Blank (body d cs) := not_blank_body hcut
  rw [fragments_of_not_whiteSpace hd, if_neg (by rwa [all_isBlank_iff])] at hcut
  obtain ⟨fs, _, hsplit, rfl, hlater⟩ := List.map_eq_append_iff.1 hcut
  obtain ⟨f, gs, rfl, rfl, -⟩ := List.map_eq_cons_iff.1 hlater
  obtain ⟨before, after, hplace, hbefore, hmem, hafter⟩ := Fragment.exists_between_of_split hsplit
  obtain ⟨leading, trailing, hleading, htrailing, htrim, hnil⟩ := hplace.trim
  have hhead : ∀ c ∈ after.head?, c = d := fun c hc ↦ of_decide_eq_true (hafter c hc)
  obtain ⟨blanks, rest, hcs, hblanks, hrest, hend⟩ :=
    exists_eq_append_of_body htrailing hhead htrim.text
  have hempty : f.trim.chars = [] → rest ≠ [] := by
    -- With nothing after it the body would be empty, and there is no cell in an empty body.
    intro hchars hover
    obtain ⟨rfl, htight, hlast⟩ := hend hover
    have hall : body d cs = before ++ trailing := by
      rw [htrim.text, hchars, hnil hchars, List.append_nil, List.append_nil, List.append_nil]
    rw [hall] at htight hlast hbody
    rw [eq_nil_of_terminated hbefore htrailing htight hlast] at hbody
    exact hbody .nil
  refine ⟨before ++ leading, f.trim.chars ++ blanks ++ rest, ?_, ?_, ⟨vs, ?_, ?_⟩, ?_, fun _ ↦ ?_⟩
  · rw [hcs]
    simp only [List.append_assoc]
  · rw [hoffset, htrim.offset, Nat.zero_add]
  · exact readCells_of_delimited hd (delimited_of_terminated hbefore (forall₂_holds hvs) hleading)
  · rw [hindex, ← hvs.length_eq, List.length_map, Nat.zero_add]
  · have hmemd : d ∉ f.chars := fun hmemd ↦ of_decide_eq_false (hmem d hmemd) rfl
    exact badCell_of_readCell hd hg hmemd hblanks hrest hempty
  · rw [List.count_append, count_of_terminated hbefore,
      List.count_eq_zero.2 (hleading.not_mem hd), hindex, List.length_map, List.length_map,
      Nat.zero_add, Nat.add_zero]

/-! ## At a word -/

theorem exists_stopsAt_of_whiteSpace (hd : WhiteSpace d)
    (h : readCells 0 (fragments d cs) = .error e) :
    ∃ before after, cs = before ++ after ∧ StopsAt d e before after := by
  obtain ⟨fs, f, gs, hcut, hindex, hoffset, hf, vs, hvs⟩ := exists_of_readCells_eq_error h
  have hbody : ¬ Blank (trimEnd cs) := body_of_whiteSpace hd cs ▸ not_blank_body hcut
  rw [fragments_of_whiteSpace hd, if_neg (by rwa [all_isBlank_iff])] at hcut
  obtain ⟨before, after, hplace, hwords, hne, hword, hafter⟩ :=
    Fragment.exists_between_of_words hcut
  obtain ⟨blanks, hblanks, hcs⟩ := exists_eq_trimEnd_append cs
  refine ⟨before, f.chars ++ (after ++ blanks), ?_, ?_, ⟨vs, ?_, ?_⟩, ?_, fun hd' ↦ absurd hd hd'⟩
  · rw [hcs, hplace.text]
    simp only [List.append_assoc]
  · rw [hoffset, hplace.offset, Nat.zero_add]
  · rw [readCells_eq_ok_iff, chars_fragments_of_whiteSpace hd, hwords]
    exact hvs
  · rw [hindex, ← hvs.length_eq, List.length_map, Nat.zero_add]
  · have hrest : ∀ c ∈ (after ++ blanks).head?, WhiteSpace c := by
      cases after with
      | nil => exact fun c hc ↦ hblanks c (List.mem_of_mem_head? hc)
      | cons => exact hafter
    obtain ⟨hnil, -⟩ | ⟨-, hnumeral, hcause⟩ := readCell_eq_error hf
    · exact absurd hnil hne
    · rw [hcause]
      exact .word hd hne hword hnumeral hrest

/-! ## All texts -/

theorem exists_stopsAt (h : readCells 0 (fragments d cs) = .error e) :
    ∃ before after, cs = before ++ after ∧ StopsAt d e before after := by
  by_cases hd : WhiteSpace d
  · exact exists_stopsAt_of_whiteSpace hd h
  · exact exists_stopsAt_of_delimiter hd h

/-- The place of an error cuts the text between two characters. Before it there is a program with
as many cells as the error counts, and, with a delimiter that is no blank, as many delimiters. After
it there is what the error names: a piece that is no numeral, or no piece at all. -/
theorem parse_stops_at_first_bad_cell {text : String} (h : parse d text = .error e) :
    ∃ before after : String, text = before ++ after ∧ before.utf8ByteSize = e.offset ∧
      (∃ vs, parse d before = .ok vs ∧ vs.length = e.index) ∧
      BadCell d e.cause after.toList ∧ (¬ WhiteSpace d → before.toList.count d = e.index) := by
  obtain ⟨before, after, htext, hstops⟩ := exists_stopsAt h
  refine ⟨String.ofList before, String.ofList after, ?_, ?_, ?_, ?_, ?_⟩
  · rw [← String.ofList_append, ← htext, String.ofList_toList]
  · rw [utf8ByteSize_ofList, hstops.offset]
  · simpa only [parse, String.toList_ofList] using hstops.cells
  · rw [String.toList_ofList]
    exact hstops.bad
  · rw [String.toList_ofList]
    exact hstops.count

/-- A piece that is no numeral, with a wide blank before it and a character of two bytes in it; a
blank cell, whose place is that of its blanks; and a word between blanks. -/
theorem parse_stops_at_first_bad_cell_of_pieces :
    (∃ before after : String, "12 ;\u2003é;" = before ++ after ∧ before.utf8ByteSize = 7 ∧
      (∃ vs, parse ';' before = .ok vs ∧ vs.length = 1) ∧
      BadCell ';' (.invalidNumber ['é']) after.toList) ∧
    (∃ before after : String, "1, ,99" = before ++ after ∧ before.utf8ByteSize = 2 ∧
      BadCell ',' .emptyCell after.toList ∧ before.toList.count ',' = 1) ∧
    ∃ before after : String, "3\t 4x " = before ++ after ∧ before.utf8ByteSize = 3 ∧
      BadCell ' ' (.invalidNumber ['4', 'x']) after.toList := by
  have hpiece : parse ';' "12 ;\u2003é;" = .error ⟨.invalidNumber ['é'], 1, 7⟩ := by rfl
  have hempty : parse ',' "1, ,99" = .error ⟨.emptyCell, 1, 2⟩ := by rfl
  have hword : parse ' ' "3\t 4x " = .error ⟨.invalidNumber ['4', 'x'], 1, 3⟩ := by rfl
  obtain ⟨before₁, after₁, htext₁, hsize₁, hcells₁, hbad₁, -⟩ :=
    parse_stops_at_first_bad_cell hpiece
  obtain ⟨before₂, after₂, htext₂, hsize₂, -, hbad₂, hcount₂⟩ :=
    parse_stops_at_first_bad_cell hempty
  obtain ⟨before₃, after₃, htext₃, hsize₃, -, hbad₃, -⟩ := parse_stops_at_first_bad_cell hword
  exact ⟨⟨before₁, after₁, htext₁, hsize₁, hcells₁, hbad₁⟩,
    ⟨before₂, after₂, htext₂, hsize₂, hbad₂, hcount₂ (by decide)⟩,
    before₃, after₃, htext₃, hsize₃, hbad₃⟩

end Intcode.ProgramText
