import Intcode.Proofs.Text.Numeral

/-!
# Sizes

The texts that are read as sizes, and why the others are not. A size is a numeral with a plus sign
or none, of a number that has 64 bits. A text that is none is judged from left to right, so a number
that is too large is reported as such whatever follows its digits.
-/

namespace Intcode.Decimal

/-- The text is a numeral of the number, which has 64 bits. There is no minus sign in it. -/
structure IsSize (cs : List Char) (n : Nat) : Prop where
  numeral : Numeral false cs n
  lt : n < UInt64.size

theorem isSize_digits {n : Nat} (h : n < UInt64.size) : IsSize (digits n) n := by
  have hnumeral : Numeral false (digits n) (worth (digits n)) := .unsigned (digits_digits n)
  rw [worth_digits] at hnumeral
  exact ⟨hnumeral, h⟩

theorem readSize_eq_ok_iff {cs : List Char} {n : Nat} : readSize cs = .ok n ↔ IsSize cs n := by
  have hmap : readSize cs = .ok n ↔ ∃ i, read 0 greatestSize cs = .ok i ∧ i.toNat = n := by
    rw [readSize]
    cases read 0 greatestSize cs <;> simp [Except.map]
  have hgreatest : (greatestSize : Int) = UInt64.size - 1 := by decide
  rw [hmap]
  simp only [read_eq_ok_iff, hgreatest]
  constructor
  · rintro ⟨i, ⟨hnumeral, hlow, hhigh⟩, rfl⟩
    have hi : (i.toNat : Int) = i := Int.toNat_of_nonneg hlow
    exact ⟨by rwa [hi], by omega⟩
  · rintro ⟨hnumeral, hlt⟩
    exact ⟨n, ⟨hnumeral, Int.natCast_nonneg n, by omega⟩, Int.toNat_natCast n⟩

/-- What is left of the text when a plus sign in front is taken off. -/
def Unsigned (cs body : List Char) : Prop := cs = '+' :: body ∨ cs = body ∧ '+' ∉ cs.head?

/-- The text starts with the digits `ds`, none or more, and `rest` goes on with something else. -/
structure Leads (body ds rest : List Char) : Prop where
  eq_append : body = ds ++ rest
  isDigit : ∀ c ∈ ds, c.isDigit = true
  ends : ∀ c ∈ rest.head?, c.isDigit = false

/-- The text is no size, for the reason given. Its digits are judged before what follows them. -/
inductive Misread (cs : List Char) : Error → Prop
  | empty (nil : cs = []) : Misread cs .empty
  | tooLarge {body ds rest : List Char} (unsigned : Unsigned cs body) (leads : Leads body ds rest)
      (large : UInt64.size ≤ worth ds) : Misread cs .tooLarge
  | invalidDigit {body ds rest : List Char} (ne_nil : cs ≠ []) (unsigned : Unsigned cs body)
      (leads : Leads body ds rest) (small : worth ds < UInt64.size) (bad : ds = [] ∨ rest ≠ []) :
      Misread cs .invalidDigit

theorem unsigned_iff {cs body : List Char} :
    Unsigned cs body ↔ splitSign false cs = (false, body) := by
  unfold Unsigned
  fun_cases splitSign false cs with
  | case1 => simp [eq_comm]
  | case2 _ h => cases h
  | case3 => simp [eq_comm]
  | case4 _ hplus =>
      have hne : ∀ ds, cs ≠ '+' :: ds := fun ds hcs ↦ hplus ds hcs
      have hhead : '+' ∉ cs.head? := by
        cases cs with
        | nil => simp
        | cons c ds => simpa using fun hc ↦ hne ds (by rw [hc])
      simp [hne, hhead]

theorem leads_iff {body ds rest : List Char} :
    Leads body ds rest ↔ ds = body.takeWhile Char.isDigit ∧ rest = body.dropWhile Char.isDigit := by
  constructor
  · rintro ⟨rfl, hdigit, hends⟩
    rw [List.takeWhile_append_of_pos hdigit, List.dropWhile_append_of_pos hdigit]
    cases rest with
    | nil => simp
    | cons c rest =>
        have hc : c.isDigit = false := hends c rfl
        simp [hc]
  · rintro ⟨rfl, rfl⟩
    refine ⟨List.takeWhile_append_dropWhile.symm, fun c ↦ List.mem_takeWhile_imp, fun c hc ↦ ?_⟩
    have hfirst := List.head?_dropWhile_not Char.isDigit body
    rw [hc] at hfirst
    simpa using hfirst

theorem exists_leads (cs : List Char) : ∃ body ds rest, Unsigned cs body ∧ Leads body ds rest := by
  have hsign : (splitSign false cs).1 = false := by
    fun_cases splitSign false cs <;> simp_all
  exact ⟨(splitSign false cs).2, _, _, unsigned_iff.2 (Prod.ext hsign rfl), leads_iff.2 ⟨rfl, rfl⟩⟩

/-- A text with digits is not empty. -/
theorem Leads.ne_nil {cs body ds rest : List Char} (hds : Leads body ds rest)
    (hbody : Unsigned cs body) (hne : ds ≠ []) : cs ≠ [] := by
  rintro rfl
  obtain hcons | ⟨rfl, -⟩ := hbody
  · cases hcons
  · exact hne (List.append_eq_nil_iff.1 hds.eq_append.symm).1

theorem readSize_of_leads {cs body ds rest : List Char} (hcs : cs ≠ []) (hbody : Unsigned cs body)
    (hds : Leads body ds rest) :
    readSize cs =
      if ds = [] then .error .invalidDigit
      else if UInt64.size ≤ worth ds then .error .tooLarge
      else if rest = [] then .ok (worth ds)
      else .error .invalidDigit := by
  obtain ⟨hnumber, -⟩ := leads_iff.1 hds
  have hgreatest : (greatestSize : Int) < worth ds ↔ UInt64.size ≤ worth ds := by
    have hvalue : greatestSize + 1 = UInt64.size := by decide
    omega
  have hshort : ds.length < body.length ↔ rest ≠ [] := by
    rw [hds.eq_append, List.length_append, ← List.length_pos_iff]
    omega
  have hworth : Nat.ofDigitChars 10 ds 0 = worth ds := rfl
  have hnonneg : ¬ ((worth ds : Nat) : Int) < 0 := by omega
  have hsplit : splitSign (decide ((0 : Int) < 0)) cs = (false, body) := unsigned_iff.1 hbody
  simp only [readSize, read, List.isEmpty_iff, hcs, hsplit, ← hnumber, hworth, hgreatest, hshort,
    hnonneg, if_false, Bool.false_eq_true]
  split
  · rfl
  · split
    · rfl
    · by_cases hrest : rest = [] <;> simp [hrest, Except.map]

theorem readSize_eq_error_iff {cs : List Char} {e : Error} :
    readSize cs = .error e ↔ Misread cs e := by
  constructor
  · intro h
    by_cases hcs : cs = []
    · subst hcs
      cases h
      exact .empty rfl
    · obtain ⟨body, ds, rest, hbody, hds⟩ := exists_leads cs
      rw [readSize_of_leads hcs hbody hds] at h
      split at h
      · rename_i hnil
        cases h
        exact .invalidDigit hcs hbody hds (by simp [hnil, worth]) (.inl hnil)
      · split at h
        · rename_i hlarge
          cases h
          exact .tooLarge hbody hds hlarge
        · rename_i hsmall
          split at h
          · cases h
          · rename_i hrest
            cases h
            exact .invalidDigit hcs hbody hds (by omega) (.inr hrest)
  · intro h
    cases h with
    | empty hnil =>
        subst hnil
        rfl
    | @tooLarge body ds rest hbody hds hlarge =>
        have hne : ds ≠ [] := by
          rintro rfl
          simp [worth] at hlarge
        rw [readSize_of_leads (hds.ne_nil hbody hne) hbody hds, if_neg hne, if_pos hlarge]
    | invalidDigit hcs hbody hds hsmall hbad =>
        rw [readSize_of_leads hcs hbody hds]
        split
        · rfl
        · rename_i hne
          rw [if_neg (by omega), if_neg (hbad.resolve_left hne)]

/-- A text is no size exactly if there is a reason why it is not read. -/
theorem exists_misread_iff {cs : List Char} : (∃ e, Misread cs e) ↔ ∀ n, ¬ IsSize cs n := by
  simp only [← readSize_eq_ok_iff, ← readSize_eq_error_iff]
  cases readSize cs <;> simp

end Intcode.Decimal
