import Intcode.Cell
import Mathlib.Data.List.TakeWhile

/-!
# Numerals

The texts that are numerals, said as a grammar: a sign or none, and then one digit or more. Reading
succeeds exactly on the numerals of integers in range, and what is written for a cell is its
numeral.
-/

namespace Intcode.Decimal

/-- One digit or more. -/
structure Digits (ds : List Char) : Prop where
  ne_nil : ds ≠ []
  isDigit : ∀ c ∈ ds, c.isDigit = true

/-- The natural number that digits are worth in base ten. -/
def worth (ds : List Char) : Nat := Nat.ofDigitChars 10 ds 0

/-- The text is a numeral of the integer. A minus sign may be part of it only if `negatives` says
so. -/
inductive Numeral (negatives : Bool) : List Char → Int → Prop
  | unsigned {ds : List Char} (digits : Digits ds) : Numeral negatives ds (worth ds)
  | plus {ds : List Char} (digits : Digits ds) : Numeral negatives ('+' :: ds) (worth ds)
  | minus {ds : List Char} (digits : Digits ds) (allowed : negatives = true) :
      Numeral negatives ('-' :: ds) (-(worth ds : Int))

/-! ## Reading -/

theorem takeWhile_isDigit_eq_self_iff {ds : List Char} :
    ds.takeWhile Char.isDigit = ds ↔ ¬ (ds.takeWhile Char.isDigit).length < ds.length := by
  have hle : (ds.takeWhile Char.isDigit).length ≤ ds.length :=
    (List.takeWhile_prefix Char.isDigit).length_le
  constructor
  · intro h
    rw [h]
    exact Nat.lt_irrefl _
  · intro h
    exact (List.takeWhile_prefix Char.isDigit).eq_of_length (by omega)

theorem digits_iff {ds : List Char} : Digits ds ↔ ds ≠ [] ∧ ds.takeWhile Char.isDigit = ds := by
  rw [List.takeWhile_eq_self_iff]
  exact ⟨fun h ↦ ⟨h.ne_nil, h.isDigit⟩, fun h ↦ ⟨h.1, h.2⟩⟩

/-- The value of a numeral that consists of a sign and digits. -/
def signedWorth (negative : Bool) (ds : List Char) : Int :=
  if negative then -(worth ds : Int) else worth ds

/-- A text is a numeral if digits are left when its sign is taken off. -/
theorem numeral_iff_splitSign {negatives : Bool} {cs : List Char} {i : Int} :
    Numeral negatives cs i ↔
      Digits (splitSign negatives cs).2 ∧
        i = signedWorth (splitSign negatives cs).1 (splitSign negatives cs).2 := by
  constructor
  · rintro (⟨h⟩ | ⟨h⟩ | ⟨h, rfl⟩)
    · -- A digit is no sign, so nothing is taken off.
      obtain ⟨c, ds, rfl⟩ := List.exists_cons_of_ne_nil h.ne_nil
      have hc : c.isDigit = true := h.isDigit c List.mem_cons_self
      have hplus : c ≠ '+' := by rintro rfl; simp at hc
      have hminus : c ≠ '-' := by rintro rfl; simp at hc
      have hsplit : splitSign negatives (c :: ds) = (false, c :: ds) := by
        simp [splitSign, hplus, hminus]
      rw [hsplit]
      exact ⟨h, rfl⟩
    · exact ⟨h, rfl⟩
    · exact ⟨h, rfl⟩
  · rintro ⟨h, rfl⟩
    revert h
    fun_cases splitSign negatives cs with
    | case1 => exact .plus
    | case2 _ hallowed => exact fun h ↦ .minus h hallowed
    | case3 => exact fun h ↦ absurd (h.isDigit '-' List.mem_cons_self) (by decide)
    | case4 => exact .unsigned

/-- Without its sign, a text is read if it consists of digits and its value is in range. -/
theorem read_eq_ok_iff {least greatest i : Int} {cs : List Char} :
    read least greatest cs = .ok i ↔
      Numeral (least < 0) cs i ∧ least ≤ i ∧ i ≤ greatest := by
  rw [numeral_iff_splitSign, digits_iff]
  unfold read
  by_cases hcs : cs.isEmpty
  · obtain rfl := List.isEmpty_iff.1 hcs
    simp [splitSign]
  · rcases hsplit : splitSign (decide (least < 0)) cs with ⟨negative, body⟩
    simp only [hcs, Bool.false_eq_true, if_false]
    by_cases hbody : body.takeWhile Char.isDigit = body
    · have hvalue : signedWorth negative body =
          if negative then -(Nat.ofDigitChars 10 body 0 : Int) else Nat.ofDigitChars 10 body 0 := rfl
      simp only [hbody, Nat.lt_irrefl, if_false, ← hvalue, List.isEmpty_iff]
      by_cases hempty : body = []
      · simp [hempty]
      · by_cases hhigh : greatest < signedWorth negative body
        · simp only [hempty, hhigh, if_true, if_false, reduceCtorEq, false_iff]
          omega
        · by_cases hlow : signedWorth negative body < least
          · simp only [hempty, hhigh, hlow, if_true, if_false, reduceCtorEq, false_iff]
            omega
          · simp only [hempty, hhigh, hlow, if_false, Except.ok.injEq, ne_eq, not_false_eq_true,
              and_self, true_and]
            omega
    · have hshort : (body.takeWhile Char.isDigit).length < body.length := by
        rw [takeWhile_isDigit_eq_self_iff] at hbody
        exact Decidable.not_not.1 hbody
      simp only [hshort, hbody, if_true, and_false, false_and, iff_false]
      -- The last check fails, so whichever is the first to do so, there is an error.
      repeat' split
      all_goals simp

/-! ## Writing -/

theorem digits_digits (n : Nat) : Digits (digits n) where
  ne_nil := Nat.toDigits_ne_nil
  isDigit := fun _ hc ↦ Nat.isDigit_of_mem_toDigits (by decide) (by decide) hc

theorem worth_digits (n : Nat) : worth (digits n) = n := ofDigitChars_digits n

/-- What is written for an integer is a numeral of it. -/
theorem numeral_ofInt (i : Int) : Numeral true (ofInt i).toList i := by
  have habs : Numeral true (digits i.natAbs) i.natAbs := by
    have h : Numeral true (digits i.natAbs) (worth (digits i.natAbs)) := .unsigned (digits_digits _)
    rwa [worth_digits] at h
  unfold ofInt
  split
  · rename_i hneg
    have h : Numeral true ('-' :: digits i.natAbs) (-(worth (digits i.natAbs) : Int)) :=
      .minus (digits_digits _) rfl
    rw [worth_digits] at h
    have hi : -(i.natAbs : Int) = i := by omega
    rw [hi] at h
    simpa [ofNat] using h
  · rename_i hpos
    have hi : (i.natAbs : Int) = i := by omega
    rw [hi] at habs
    simpa [ofNat] using habs

/-- A numeral is one of a single integer. -/
theorem Numeral.unique {negatives : Bool} {cs : List Char} {i j : Int} (hi : Numeral negatives cs i)
    (hj : Numeral negatives cs j) : i = j :=
  (numeral_iff_splitSign.1 hi).2.trans (numeral_iff_splitSign.1 hj).2.symm

theorem ofInt_injective : Function.Injective ofInt := fun i j h ↦
  (numeral_ofInt i).unique (h ▸ numeral_ofInt j)

/-- With a sign in any case, too, what is written for an integer is a numeral of it. -/
theorem numeral_signed (i : Int) : Numeral true (signed i).toList i := by
  by_cases hneg : i < 0
  · have hsame : signed i = ofInt i := by simp [signed, ofInt, hneg]
    rw [hsame]
    exact numeral_ofInt i
  · have h : Numeral true ('+' :: digits i.natAbs) (worth (digits i.natAbs)) :=
      .plus (digits_digits _)
    have hi : (i.natAbs : Int) = i := by omega
    rw [worth_digits, hi] at h
    simpa [signed, hneg, ofNat] using h

theorem signed_injective : Function.Injective signed := fun i j h ↦
  (numeral_signed i).unique (h ▸ numeral_signed j)

theorem ofNat_injective : Function.Injective ofNat := fun m n h ↦ by
  have hdigits : digits m = digits n := String.ofList_injective h
  rw [← worth_digits m, ← worth_digits n, hdigits]

/-- A text in front of which a number is written begins with a digit. -/
theorem isDigit_of_mem_head?_ofNat_append {n : Nat} {rest : String} {c : Char}
    (h : c ∈ (ofNat n ++ rest).toList.head?) : c.isDigit = true := by
  obtain ⟨d, ds, hds⟩ := List.exists_cons_of_ne_nil (digits_digits n).ne_nil
  have hhead : (ofNat n ++ rest).toList.head? = some d := by simp [ofNat, hds]
  obtain rfl : d = c := Option.some.inj (hhead.symm.trans h)
  exact (digits_digits n).isDigit d (hds ▸ List.mem_cons_self)

theorem not_mem_digits {c : Char} (hc : c.isDigit = false) (n : Nat) : c ∉ digits n := by
  intro hmem
  have hdigit := (digits_digits n).isDigit c hmem
  rw [hc] at hdigit
  cases hdigit

theorem eq_minus_or_isDigit_of_mem_ofInt {i : Int} {c : Char} (h : c ∈ (ofInt i).toList) :
    c = '-' ∨ c.isDigit = true := by
  unfold ofInt at h
  split at h
  · rw [String.toList_append, List.mem_append, ofNat_toList] at h
    rcases h with h | h
    · exact .inl (by simpa using h)
    · exact .inr ((digits_digits _).isDigit c h)
  · rw [ofNat_toList] at h
    exact .inr ((digits_digits _).isDigit c h)

theorem eq_sign_or_isDigit_of_mem_signed {i : Int} {c : Char} (h : c ∈ (signed i).toList) :
    c = '-' ∨ c = '+' ∨ c.isDigit = true := by
  have hdigit (h : c ∈ digits i.natAbs) : c.isDigit = true := (digits_digits _).isDigit c h
  unfold signed at h
  split at h
  · rw [String.toList_append, List.mem_append, ofNat_toList] at h
    exact h.imp (by simp) fun h ↦ .inr (hdigit h)
  · rw [String.toList_append, List.mem_append, ofNat_toList] at h
    exact .inr (h.imp (by simp) hdigit)

end Intcode.Decimal

namespace Intcode.Cell

/-- A cell is read from the numerals of its value, and from no other text. -/
theorem read_eq_ok_iff {cs : List Char} {v : Cell} :
    read cs = .ok v ↔ Decimal.Numeral true cs v.toInt := by
  have hmap : read cs = .ok v ↔
      ∃ i, Decimal.read least greatest cs = .ok i ∧ Int64.ofInt i = v := by
    rw [read]
    cases Decimal.read least greatest cs <;> simp [Except.map]
  rw [hmap]
  simp only [Decimal.read_eq_ok_iff]
  constructor
  · rintro ⟨i, ⟨hi, hlow, hhigh⟩, rfl⟩
    have hlt : i < 2 ^ 63 := Int.lt_of_le_sub_one hhigh
    rw [Int64.toInt_ofInt_of_le hlow hlt]
    exact hi
  · intro h
    exact ⟨v.toInt, ⟨h, v.minValue_le_toInt, v.toInt_le⟩, Int64.ofInt_toInt v⟩

theorem numeral_text (v : Cell) : Decimal.Numeral true v.text.toList v.toInt :=
  Decimal.numeral_ofInt v.toInt

theorem text_injective : Function.Injective text := fun _ _ h ↦
  Int64.toInt_inj.1 (Decimal.ofInt_injective h)

end Intcode.Cell
