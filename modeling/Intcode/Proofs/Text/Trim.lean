import Intcode.Text.Blank
import Mathlib.Data.List.DropRight

/-!
# Blanks around a text

Which characters are blank, and what is left of a text when the blanks at its ends are taken off: a
text is its trimmed form with blanks around it, and a text that neither starts nor ends with a blank
is found again whatever blanks are put around it.
-/

namespace Intcode.Text

/-- The characters with the Unicode property `White_Space`, one by one. -/
def WhiteSpace (c : Char) : Prop :=
  c.toNat ∈
    [0x0009, 0x000A, 0x000B, 0x000C, 0x000D, 0x0020, 0x0085, 0x00A0, 0x1680, 0x2000, 0x2001, 0x2002,
      0x2003, 0x2004, 0x2005, 0x2006, 0x2007, 0x2008, 0x2009, 0x200A, 0x2028, 0x2029, 0x202F,
      0x205F, 0x3000]

instance : DecidablePred WhiteSpace := fun _ ↦ inferInstanceAs (Decidable (_ ∈ _))

/-- There is nothing but blanks in the text. -/
def Blank (cs : List Char) : Prop := ∀ c ∈ cs, WhiteSpace c

theorem isBlank_iff_whiteSpace {c : Char} : isBlank c = true ↔ WhiteSpace c := by
  simp only [isBlank, blankRanges, WhiteSpace, List.any_cons, List.any_nil, Bool.or_false,
    Bool.or_eq_true, Bool.and_eq_true, decide_eq_true_eq, List.mem_cons, List.not_mem_nil, or_false]
  omega

theorem isBlank_eq_false_iff {c : Char} : isBlank c = false ↔ ¬ WhiteSpace c := by
  rw [← isBlank_iff_whiteSpace, Bool.not_eq_true]

theorem all_isBlank_iff {cs : List Char} : cs.all isBlank = true ↔ Blank cs := by
  simp only [List.all_eq_true, isBlank_iff_whiteSpace]
  rfl

theorem not_whiteSpace_of_isDigit {c : Char} (h : c.isDigit = true) : ¬ WhiteSpace c :=
  isBlank_eq_false_iff.1 (isBlank_eq_false_of_isDigit h)

namespace Blank

variable {cs ds : List Char}

theorem nil : Blank [] := nofun

theorem cons {c : Char} (hc : WhiteSpace c) (h : Blank cs) : Blank (c :: cs) :=
  List.forall_mem_cons.2 ⟨hc, h⟩

theorem append (hc : Blank cs) (hd : Blank ds) : Blank (cs ++ ds) :=
  List.forall_mem_append.2 ⟨hc, hd⟩

theorem not_mem {c : Char} (h : Blank cs) (hc : ¬ WhiteSpace c) : c ∉ cs := fun hmem ↦ hc (h c hmem)

end Blank

/-! ## The end of a text -/

/-- The text does not end with a blank. -/
def Tight (cs : List Char) : Prop := ∀ c ∈ cs.getLast?, ¬ WhiteSpace c

theorem trimEnd_eq_self {cs : List Char} (h : Tight cs) : trimEnd cs = cs := by
  refine List.rdropWhile_eq_self_iff.2 fun hne ↦ ?_
  rw [isBlank_iff_whiteSpace]
  exact h _ (List.getLast?_eq_getLast_of_ne_nil hne)

theorem trimEnd_append {cs ds : List Char} (h : Blank ds) : trimEnd (cs ++ ds) = trimEnd cs := by
  have hpos : ∀ c ∈ ds.reverse, isBlank c = true :=
    fun c hc ↦ isBlank_iff_whiteSpace.2 (h c (List.mem_reverse.1 hc))
  rw [trimEnd, List.reverse_append, List.dropWhile_append_of_pos hpos]
  rfl

theorem trimEnd_of_blank {cs : List Char} (h : Blank cs) : trimEnd cs = [] := by
  rw [← List.nil_append cs, trimEnd_append h, trimEnd_nil]

theorem tight_trimEnd (cs : List Char) : Tight (trimEnd cs) := by
  intro c hc
  obtain ⟨hne, rfl⟩ := List.mem_getLast?_eq_getLast hc
  rw [← isBlank_iff_whiteSpace]
  exact List.rdropWhile_last_not isBlank cs hne

theorem Tight.eq_nil_of_append {cs ds : List Char} (h : Tight (cs ++ ds)) (hds : Blank ds) :
    ds = [] := by
  refine List.getLast?_eq_none_iff.1 (Option.eq_none_iff_forall_ne_some.2 fun c hc ↦ ?_)
  refine h c ?_ (hds c (List.mem_of_mem_getLast? hc))
  rw [List.getLast?_append, hc]
  rfl

/-- A text is what is left of it at the end, with blanks after it. -/
theorem exists_eq_trimEnd_append (cs : List Char) :
    ∃ after, Blank after ∧ cs = trimEnd cs ++ after := by
  refine ⟨cs.rtakeWhile isBlank, fun c hc ↦ isBlank_iff_whiteSpace.1 ?_, ?_⟩
  · exact List.mem_rtakeWhile_imp hc
  · exact List.rdropWhile_append_rtakeWhile.symm

/-! ## Both ends -/

theorem trimStart_append {cs ds : List Char} (h : Blank cs) : trimStart (cs ++ ds) = trimStart ds :=
  List.dropWhile_append_of_pos fun c hc ↦ isBlank_iff_whiteSpace.2 (h c hc)

theorem trimStart_of_blank {cs : List Char} (h : Blank cs) : trimStart cs = [] := by
  have hempty : trimStart (cs ++ []) = trimStart [] := trimStart_append h
  rwa [List.append_nil] at hempty

theorem exists_eq_append_trimStart (cs : List Char) :
    ∃ before, Blank before ∧ cs = before ++ trimStart cs := by
  refine ⟨cs.takeWhile isBlank, fun c hc ↦ isBlank_iff_whiteSpace.1 ?_, ?_⟩
  · exact List.mem_takeWhile_imp hc
  · exact List.takeWhile_append_dropWhile.symm

/-- A text is its trimmed form with blanks around it. -/
theorem exists_eq_append_trim_append (cs : List Char) :
    ∃ before after, Blank before ∧ Blank after ∧ cs = before ++ trim cs ++ after := by
  obtain ⟨before, hbefore, hstart⟩ := exists_eq_append_trimStart cs
  obtain ⟨after, hafter, hend⟩ := exists_eq_trimEnd_append (trimStart cs)
  refine ⟨before, after, hbefore, hafter, ?_⟩
  rw [List.append_assoc, trim, ← hend]
  exact hstart

theorem tight_trim (cs : List Char) : Tight (trim cs) := tight_trimEnd (trimStart cs)

theorem not_whiteSpace_head_trim (cs : List Char) : ∀ c ∈ (trim cs).head?, ¬ WhiteSpace c := by
  obtain ⟨after, -, hend⟩ := exists_eq_trimEnd_append (trimStart cs)
  intro c hc
  have hstart : (trimStart cs).head? = some c := by
    rw [hend, List.head?_append]
    exact congrArg (·.or after.head?) hc
  have hfirst := List.head?_dropWhile_not isBlank cs
  rw [trimStart] at hstart
  rw [hstart] at hfirst
  exact isBlank_eq_false_iff.1 hfirst

theorem trim_of_blank {cs : List Char} (h : Blank cs) : trim cs = [] := by
  rw [trim, trimStart_of_blank h, trimEnd_nil]

/-- A text without blanks is found again when blanks are put around it. -/
theorem trim_append_append {before body after : List Char} (hbefore : Blank before)
    (hbody : ∀ c ∈ body, ¬ WhiteSpace c) (hafter : Blank after) :
    trim (before ++ body ++ after) = body := by
  cases body with
  | nil =>
      rw [List.append_nil]
      exact trim_of_blank (hbefore.append hafter)
  | cons c cs =>
      have hc : isBlank c = false := isBlank_eq_false_iff.2 (hbody c List.mem_cons_self)
      have htight : Tight (c :: cs) := fun d hd ↦ hbody d (List.mem_of_mem_getLast? hd)
      rw [List.append_assoc, trim, trimStart_append hbefore, trimStart, List.cons_append,
        List.dropWhile_cons_of_neg (by simp [hc]), ← List.cons_append, trimEnd_append hafter,
        trimEnd_eq_self htight]

/-- Blanks after a text make no difference to its trimmed form. -/
theorem trim_append_of_blank {cs ds : List Char} (h : Blank ds) : trim (cs ++ ds) = trim cs := by
  simp only [trim, trimStart, List.dropWhile_append]
  split
  · rename_i hcs
    have hds : ds.dropWhile isBlank = [] := trimStart_of_blank h
    rw [hds, List.isEmpty_iff.1 hcs]
  · exact trimEnd_append h

end Intcode.Text
