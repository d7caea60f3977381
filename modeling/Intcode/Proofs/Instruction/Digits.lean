import Intcode.Proofs.Instruction.Fetch
import Mathlib.Algebra.Ring.Int.Defs
import Mathlib.Algebra.Ring.Nat

/-!
# The digits of an opcode cell

Which cells are opcode cells, and of what shape, in terms of their decimal digits: the two lowest
ones are the code of the opcode, and the ones above them, as many as there are parameters, are the
digits of the modes. So the shape is all that the cell says, and determines these digits; what is
above them says nothing.
-/

namespace Intcode

namespace Shape

variable {cell cell' : Cell} {s : Shape} {op : Opcode}

theorem select_eq_ok_iff {γ : Type} {choose : Int → Option γ} {i : Nat} {choice : γ} (u : Unit) :
    decode.select cell choose i u = .ok choice ↔ choose (modeDigit cell i) = some choice := by
  unfold decode.select
  cases choose (modeDigit cell i) <;> simp

/-- A shape is read off the mode digits parameter by parameter. -/
theorem alike_bare_iff :
    Instruction.Alike (fun n _ (mode : Mode) ↦ modeDigit cell n = mode.digit)
        (fun n _ (addressing : Addressing) ↦ modeDigit cell n = addressing.digit) op.bare s ↔
      s.opcode = op ∧
        s.modes.map Mode.digit = (List.range' 1 op.arity).map (modeDigit cell) := by
  constructor
  · intro h
    cases op <;> cases h <;>
      simp_all [Instruction.opcode, modes, Instruction.parameters, Opcode.arity, List.range',
        Mode.digit]
  · rintro ⟨rfl, hmodes⟩
    cases s <;>
      simp [Instruction.opcode, modes, Instruction.parameters, Opcode.arity, List.range',
        Mode.digit] at hmodes
    case binary => exact .binary hmodes.1.symm hmodes.2.1.symm hmodes.2.2.symm
    case input => exact .input hmodes.symm
    case output => exact .output hmodes.symm
    case jump => exact .jump hmodes.1.symm hmodes.2.symm
    case adjustBase => exact .adjustBase hmodes.symm
    case halt => exact .halt

theorem decode_eq_ok_iff :
    decode cell = .ok s ↔
      0 ≤ cell.toInt ∧ cell.toInt % 100 = s.opcode.code ∧
        s.modes.map Mode.digit = (List.range' 1 s.opcode.arity).map (modeDigit cell) := by
  have hnegative : cell < 0 ↔ ¬ 0 ≤ cell.toInt := by
    rw [Int64.lt_iff_toInt_lt, Int64.toInt_zero, Int.not_le]
  have hshape (op : Opcode) :
      op.bare.traverse (decode.select cell Mode.ofDigit?) (decode.select cell Addressing.ofDigit?) =
        .ok s ↔
      s.opcode = op ∧ s.modes.map Mode.digit = (List.range' 1 op.arity).map (modeDigit cell) := by
    rw [Instruction.traverse_eq_ok_iff, ← alike_bare_iff]
    simp only [select_eq_ok_iff, Mode.ofDigit?_eq_some_iff, Addressing.ofDigit?_eq_some_iff,
      Int.natCast_inj]
  unfold decode
  by_cases hcell : 0 ≤ cell.toInt
  · rw [if_neg fun hlt ↦ hnegative.1 hlt hcell]
    cases hop : Opcode.ofCode? (cell.toInt % 100) with
    | none =>
        simp only [reduceCtorEq, false_iff]
        rintro ⟨-, hcode, -⟩
        rw [Opcode.ofCode?_eq_some_iff.2 hcode] at hop
        cases hop
    | some op =>
        have hcode := Opcode.ofCode?_eq_some_iff.1 hop
        simp only [hshape, hcode, Int.natCast_inj, hcell, true_and]
        constructor
        · rintro ⟨rfl, hmodes⟩
          exact ⟨rfl, hmodes⟩
        · rintro ⟨hsame, hmodes⟩
          obtain rfl := Opcode.code_injective hsame
          exact ⟨rfl, hmodes⟩
  · rw [if_pos (hnegative.2 hcell)]
    simp [hcell]

/-- The two digits of the opcode and the mode digits make up the number modulo a power of ten. -/
theorem mod_eq_of_modeDigit_eq {n : Nat} (hcode : cell.toInt.toNat % 100 = cell'.toInt.toNat % 100)
    (hdigits : ∀ i ∈ List.range' 1 n, modeDigit cell i = modeDigit cell' i) :
    cell.toInt.toNat % 10 ^ (n + 2) = cell'.toInt.toNat % 10 ^ (n + 2) := by
  induction n with
  | zero => exact hcode
  | succ n ih =>
      have hlower := ih fun i hi ↦ hdigits i (by rw [List.mem_range'_1] at hi ⊢; omega)
      have hdigit := hdigits (n + 1) (by rw [List.mem_range'_1]; omega)
      simp only [modeDigit_eq, Nat.pow_eq] at hdigit
      have hsucc (x : Nat) :
          x % 10 ^ (n + 1 + 2) = x % 10 ^ (n + 2) + 10 ^ (n + 2) * (x / 10 ^ (n + 2) % 10) :=
        Nat.mod_pow_succ
      rw [hsucc, hsucc, hlower, hdigit]

/-- Cells of one shape differ at most in digits above the mode digits. -/
theorem emod_eq_of_decode {s' : Shape} (hs : decode cell = .ok s) (hs' : decode cell' = .ok s')
    (hopcode : s.opcode = s'.opcode) (hmodes : s.modes = s'.modes) :
    cell.toInt % 10 ^ (s.opcode.arity + 2) = cell'.toInt % 10 ^ (s.opcode.arity + 2) := by
  obtain ⟨hcell, hcode, hdigits⟩ := decode_eq_ok_iff.1 hs
  obtain ⟨hcell', hcode', hdigits'⟩ := decode_eq_ok_iff.1 hs'
  rw [← hopcode] at hcode' hdigits'
  rw [← hmodes, hdigits, List.map_inj_left] at hdigits'
  have hnat : cell.toInt.toNat % 10 ^ (s.opcode.arity + 2) =
      cell'.toInt.toNat % 10 ^ (s.opcode.arity + 2) :=
    mod_eq_of_modeDigit_eq (by omega) hdigits'
  rw [← Int.toNat_of_nonneg hcell, ← Int.toNat_of_nonneg hcell']
  exact_mod_cast hnat

end Shape

end Intcode
