import Intcode.Instruction.Assembly
import Intcode.Proofs.Text.Lines
import Intcode.Proofs.Text.Numeral
import Mathlib.Data.List.Nodup

/-!
# Reading assembly text

An instruction can be told from its text. The mnemonic ends at the first space and tells the opcode,
so it tells how many parameters there are; each but the last of them ends at a comma, and is told
apart by its brackets and the letters in them.
-/

namespace Intcode

open Text

/-! ## Parameters -/

theorem Cell.not_mem_text {v : Cell} {c : Char} (hminus : c ≠ '-') (hdigit : c.isDigit = false) :
    c ∉ v.text.toList := by
  intro hc
  obtain rfl | hc := Decimal.eq_minus_or_isDigit_of_mem_ofInt hc
  · exact hminus rfl
  · rw [hdigit] at hc
    cases hc

namespace Operand

variable {o o' : Operand}

/-- The text of an address, in brackets or not, has no letters in it. -/
theorem bracket_mem_text_iff : '[' ∈ o.text.toList ↔ o.mode ≠ .immediate := by
  obtain ⟨_ | _ | _, p⟩ := o
  · have hnone : '[' ∉ p.text.toList := Cell.not_mem_text (by decide) (by decide)
    simpa [text] using hnone
  · simp [text]
  · simp [text]

theorem base_mem_text_iff : 'r' ∈ o.text.toList ↔ o.mode = .relative := by
  obtain ⟨_ | _ | _, p⟩ := o
  · have hnone : 'r' ∉ p.text.toList := Cell.not_mem_text (by decide) (by decide)
    simpa [text] using hnone
  · have hnone : 'r' ∉ p.text.toList := Cell.not_mem_text (by decide) (by decide)
    simpa [text] using hnone
  · simp [text]

/-- Besides digits and signs there are brackets and two letters in the text of a parameter. -/
theorem not_mem_text {c : Char} (hc : c ∉ ['[', ']', 'r', 'b', '+', '-'])
    (hdigit : c.isDigit = false) : c ∉ o.text.toList := by
  have hsigned {v : Cell} : c ∉ (Decimal.signed v.toInt).toList := by
    intro hmem
    obtain rfl | rfl | hmem := Decimal.eq_sign_or_isDigit_of_mem_signed hmem
    · simp at hc
    · simp at hc
    · rw [hdigit] at hmem
      cases hmem
  have hcell {v : Cell} : c ∉ v.text.toList := Cell.not_mem_text (by simp_all) hdigit
  obtain ⟨_ | _ | _, p⟩ := o
  · exact hcell
  · simp_all [text]
  · simp_all [text]

/-- Parameters in the same mode have different texts unless they are the same. -/
theorem parameter_eq_of_text_eq {mode : Mode} {p p' : Cell}
    (h : Operand.text ⟨mode, p⟩ = Operand.text ⟨mode, p'⟩) : p = p' := by
  obtain _ | _ | _ := mode
  · exact Cell.text_injective h
  · refine Cell.text_injective (String.toList_inj.1 ?_)
    simpa [text] using congrArg String.toList h
  · refine Int64.toInt_inj.1 (Decimal.signed_injective (String.toList_inj.1 ?_))
    simpa [text] using congrArg String.toList h

theorem text_injective : Function.Injective text := by
  rintro ⟨mode, p⟩ ⟨mode', p'⟩ h
  have hbracket : mode ≠ .immediate ↔ mode' ≠ .immediate := by
    rw [← bracket_mem_text_iff (o := ⟨mode, p⟩), h, bracket_mem_text_iff]
  have hbase : mode = .relative ↔ mode' = .relative := by
    rw [← base_mem_text_iff (o := ⟨mode, p⟩), h, base_mem_text_iff]
  obtain rfl : mode = mode' := by
    obtain _ | _ | _ := mode <;> obtain _ | _ | _ := mode' <;> simp_all
  rw [parameter_eq_of_text_eq h]

end Operand

/-! ## Enumerations -/

theorem mem_intercalate {separator : String} {parts : List String} {c : Char}
    (hc : c ∈ (separator.intercalate parts).toList) :
    c ∈ separator.toList ∨ ∃ part ∈ parts, c ∈ part.toList := by
  induction parts with
  | nil => simp at hc
  | cons part parts ih =>
      obtain _ | ⟨next, rest⟩ := parts
      · exact .inr ⟨part, List.mem_cons_self, by simpa using hc⟩
      · rw [String.intercalate_cons_cons, String.toList_append, String.toList_append,
          List.mem_append, List.mem_append] at hc
        obtain (hc | hc) | hc := hc
        · exact .inr ⟨part, List.mem_cons_self, hc⟩
        · exact .inl hc
        · exact (ih hc).imp_right fun ⟨part, hpart, hc⟩ ↦ ⟨part, List.mem_cons_of_mem _ hpart, hc⟩

/-- Texts without commas can be told from their enumeration, if their number is known. -/
theorem eq_of_intercalate_eq {parts parts' : List String}
    (h : ", ".intercalate parts = ", ".intercalate parts') (hlength : parts.length = parts'.length)
    (hparts : ∀ part ∈ parts, ',' ∉ part.toList) (hparts' : ∀ part ∈ parts', ',' ∉ part.toList) :
    parts = parts' := by
  induction parts generalizing parts' with
  | nil => exact (List.length_eq_zero_iff.1 hlength.symm).symm
  | cons part parts ih =>
      obtain _ | ⟨part', parts'⟩ := parts'
      · cases hlength
      obtain ⟨hpart, hparts⟩ := List.forall_mem_cons.1 hparts
      obtain ⟨hpart', hparts'⟩ := List.forall_mem_cons.1 hparts'
      have hlength : parts.length = parts'.length := Nat.succ.inj hlength
      obtain _ | ⟨next, rest⟩ := parts <;> obtain _ | ⟨next', rest'⟩ := parts'
      · simpa using h
      · cases hlength
      · cases hlength
      · rw [String.intercalate_cons_cons, String.intercalate_cons_cons] at h
        have htext := congrArg String.toList h
        simp only [String.toList_append, List.append_assoc] at htext
        obtain ⟨hfirst, hrest⟩ := append_cons_inj htext hpart hpart'
        have hjoined := List.cons.inj hrest
        rw [String.toList_inj.1 hfirst, ih (String.toList_inj.1 hjoined.2) hlength hparts hparts']

/-! ## Instructions -/

theorem Opcode.mnemonic_injective : Function.Injective mnemonic := fun op op' h ↦
  List.inj_on_of_nodup_map (f := mnemonic) (by decide) op.mem_all op'.mem_all h

theorem Opcode.space_not_mem_mnemonic (op : Opcode) : ' ' ∉ op.mnemonic.toList := by
  have hall : ∀ op ∈ all, ' ' ∉ op.mnemonic.toList := by decide
  exact hall op op.mem_all

theorem Target.toOperand_inj {t t' : Target} : t.toOperand = t'.toOperand ↔ t = t' := by
  constructor
  · intro h
    cases t
    cases t'
    cases h
    rfl
  · rintro rfl
    rfl

namespace Fetched

variable {i j : Fetched}

/-- An instruction is its opcode with its parameters. -/
theorem eq_of_operands_eq (hopcode : i.opcode = j.opcode) (hoperands : i.operands = j.operands) :
    i = j := by
  cases i <;> cases j <;>
    simp_all [Instruction.opcode, operands, Instruction.parameters, Target.toOperand_inj]

theorem length_operands (i : Fetched) : i.operands.length = i.opcode.arity :=
  Instruction.length_parameters ..

theorem toList_text_of_ne_nil (h : i.operands ≠ []) :
    i.text.toList = i.opcode.mnemonic.toList ++
      ' ' :: (", ".intercalate (i.operands.map Operand.text)).toList := by
  unfold text
  split
  · rename_i hnil
    exact absurd hnil h
  · simp

theorem text_of_nil (h : i.operands = []) : i.text = i.opcode.mnemonic := by
  unfold text
  rw [h]

/-- An instruction has a space in its text if it has parameters. -/
theorem space_mem_text_iff : ' ' ∈ i.text.toList ↔ i.operands ≠ [] := by
  by_cases h : i.operands = []
  · simp [text_of_nil h, h, i.opcode.space_not_mem_mnemonic]
  · simp [toList_text_of_ne_nil h, h]

/-- An instruction is written on one line. -/
theorem newline_not_mem_text (i : Fetched) : '\n' ∉ i.text.toList := by
  have hmnemonic : '\n' ∉ i.opcode.mnemonic.toList := by
    have hall : ∀ op ∈ Opcode.all, '\n' ∉ op.mnemonic.toList := by decide
    exact hall _ i.opcode.mem_all
  by_cases h : i.operands = []
  · rwa [text_of_nil h]
  · rw [toList_text_of_ne_nil h, List.mem_append, List.mem_cons]
    rintro (hc | hc | hc)
    · exact hmnemonic hc
    · cases hc
    · obtain hc | ⟨part, hpart, hc⟩ := mem_intercalate hc
      · simp at hc
      · obtain ⟨o, -, rfl⟩ := List.mem_map.1 hpart
        exact Operand.not_mem_text (by decide) (by decide) hc

/-- An instruction starts with a letter of its mnemonic, which is no dot. -/
theorem head?_text_ne (i : Fetched) : i.text.toList.head? ≠ some '.' := by
  have hmnemonic : ∃ c cs, i.opcode.mnemonic.toList = c :: cs ∧ c ≠ '.' := by
    have hall : ∀ op ∈ Opcode.all, op.mnemonic.toList ≠ [] ∧ '.' ∉ op.mnemonic.toList := by decide
    obtain ⟨hne, hdot⟩ := hall _ i.opcode.mem_all
    obtain ⟨c, cs, hcs⟩ := List.exists_cons_of_ne_nil hne
    rw [hcs] at hdot
    exact ⟨c, cs, hcs, fun hc ↦ hdot (hc ▸ List.mem_cons_self)⟩
  obtain ⟨c, cs, hcs, hc⟩ := hmnemonic
  by_cases h : i.operands = []
  · simp [text_of_nil h, hcs, hc]
  · simp [toList_text_of_ne_nil h, hcs, hc]

/-- A line of data has a dot where an instruction has its mnemonic. -/
theorem text_ne_data (i : Fetched) {value : String} : i.text ≠ ".data " ++ value := by
  intro h
  have hdot := i.head?_text_ne
  rw [h] at hdot
  simp at hdot

theorem text_injective : Function.Injective text := by
  intro i j h
  have hnil : i.operands ≠ [] ↔ j.operands ≠ [] := by
    rw [← space_mem_text_iff, h, space_mem_text_iff]
  by_cases hi : i.operands = []
  · have hj : j.operands = [] := Decidable.not_not.1 (mt hnil.2 (not_not_intro hi))
    rw [text_of_nil hi, text_of_nil hj] at h
    exact eq_of_operands_eq (Opcode.mnemonic_injective h) (hi.trans hj.symm)
  · have htext := congrArg String.toList h
    rw [toList_text_of_ne_nil hi, toList_text_of_ne_nil (hnil.1 hi)] at htext
    obtain ⟨hmnemonic, hjoined⟩ := append_cons_inj htext i.opcode.space_not_mem_mnemonic
      j.opcode.space_not_mem_mnemonic
    have hopcode := Opcode.mnemonic_injective (String.toList_inj.1 hmnemonic)
    have hlength : (i.operands.map Operand.text).length = (j.operands.map Operand.text).length := by
      rw [List.length_map, List.length_map, length_operands, length_operands, hopcode]
    have hcommas (k : Fetched) : ∀ part ∈ k.operands.map Operand.text, ',' ∉ part.toList := by
      intro part hpart
      obtain ⟨o, -, rfl⟩ := List.mem_map.1 hpart
      exact Operand.not_mem_text (by decide) (by decide)
    have hoperands := eq_of_intercalate_eq (String.toList_inj.1 hjoined) hlength (hcommas i)
      (hcommas j)
    exact eq_of_operands_eq hopcode (List.map_injective_iff.2 Operand.text_injective hoperands)

end Fetched

end Intcode
