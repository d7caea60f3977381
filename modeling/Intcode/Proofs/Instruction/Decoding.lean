import Intcode.Proofs.Guarded.Instruction
import Mathlib.Data.Fin.VecNotation

/-!
# Which cells are opcode cells

Decoding is compared with the decimal digits of a cell. The two lowest ones are the code of the
opcode, and each parameter has one digit above them, which selects its mode. The digit of a
parameter that is written cannot select the immediate mode, and the digits above those of the
parameters are not looked at. The main statement says which cells decode and to what, which cause is
found for each of the others, and which cells decode to the same.
-/

namespace Intcode

/-- The decimal digit of a cell at a place, the lowest one being at place zero. -/
def Cell.digit (cell : Cell) (place : Nat) : Int := cell.toInt / 10 ^ place % 10

/-- Parameter `i`, counted from one, is the one that the opcode writes. -/
def Opcode.WritesAt (op : Opcode) (i : Nat) : Prop := op.writes = true ∧ i = op.arity

instance (op : Opcode) (i : Nat) : Decidable (op.WritesAt i) := inferInstanceAs (Decidable (_ ∧ _))

theorem Mode.digit_eq_one_iff {mode : Mode} : mode.digit = 1 ↔ mode = .immediate := by
  rcases mode with _ | _ | _ <;> simp [Mode.digit, Addressing.digit]

namespace Shape

/-- The modes of a shape, in the three places that an instruction has for them. What is not a
parameter of the opcode has the position mode. -/
def places (s : Shape) (k : Fin 3) : Mode := s.modes[k.val]?.getD .position

/-- The digits of the cell say `op` and `modes`. -/
structure Says (cell : Cell) (op : Opcode) (modes : Fin 3 → Mode) : Prop where
  nonneg : 0 ≤ cell.toInt
  code : cell.toInt % 100 = op.code
  used : ∀ k : Fin 3, k < op.arity →
    cell.digit (k + 2) = (modes k).digit ∧ (op.WritesAt (k + 1) → cell.digit (k + 2) ≠ 1)
  unused : ∀ k : Fin 3, op.arity ≤ k → modes k = .position

/-- The digit of parameter `i` is no mode, or it is the immediate one and the parameter is
written. -/
def Rejects (cell : Cell) (op : Opcode) (i : Nat) : Prop :=
  2 < cell.digit (i + 1) ∨ cell.digit (i + 1) = 1 ∧ op.WritesAt i

instance (cell : Cell) (op : Opcode) (i : Nat) : Decidable (Rejects cell op i) :=
  inferInstanceAs (Decidable (_ ∨ _))

/-- Parameter `i` is the first one whose digit is rejected. -/
structure FirstRejected (cell : Cell) (op : Opcode) (i : Nat) : Prop where
  one_le : 1 ≤ i
  le_arity : i ≤ op.arity
  rejects : Rejects cell op i
  first : ∀ j, 1 ≤ j → j < i → ¬ Rejects cell op j

variable {cell cell' : Cell} {s : Shape} {op : Opcode} {modes : Fin 3 → Mode} {cause : Cause}

/-! ## Digits -/

theorem modeDigit_eq_digit (h : 0 ≤ cell.toInt) (i : Nat) :
    (modeDigit cell i : Int) = cell.digit (i + 1) := by
  have hcell : (cell.toInt.toNat : Int) = cell.toInt := Int.toNat_of_nonneg h
  rw [modeDigit_eq, Cell.digit, Int.natCast_emod, Int.natCast_ediv, hcell]
  simp

/-- A mode digit is part of the number modulo a power of ten that is great enough. -/
theorem modeDigit_eq_of_mod_eq {n i : Nat} (hi : i ≤ n)
    (h : cell'.toInt.toNat % 10 ^ (n + 2) = cell.toInt.toNat % 10 ^ (n + 2)) :
    modeDigit cell' i = modeDigit cell i := by
  have hdvd : 10 ^ (i + 2) ∣ 10 ^ (n + 2) := Nat.pow_dvd_pow 10 (Nat.add_le_add_right hi 2)
  have hlow : cell'.toInt.toNat % 10 ^ (i + 2) = cell.toInt.toNat % 10 ^ (i + 2) := by
    rw [← Nat.mod_mod_of_dvd _ hdvd, h, Nat.mod_mod_of_dvd _ hdvd]
  have hdigit (c : Cell) : modeDigit c i = c.toInt.toNat % 10 ^ (i + 2) / 10 ^ (i + 1) := by
    rw [modeDigit_eq, Nat.pow_succ, Nat.mod_mul_right_div_self]
    rfl
  rw [hdigit, hdigit, hlow]

/-! ## Success -/

theorem modes_eq_map_digit_iff (h : 0 ≤ cell.toInt) :
    s.modes.map Mode.digit = (List.range' 1 s.opcode.arity).map (modeDigit cell) ↔
      ∀ k : Fin 3, k < s.opcode.arity → cell.digit (k + 2) = (s.places k).digit := by
  simp only [← modeDigit_eq_digit h, Int.natCast_inj]
  cases s <;>
    simp [modes, places, Instruction.parameters, Instruction.opcode, Opcode.arity, List.range',
      Fin.forall_fin_succ, eq_comm]

theorem places_eq_position (s : Shape) (k : Fin 3) (h : s.opcode.arity ≤ k) :
    s.places k = .position := by
  have hlength : s.modes.length = s.opcode.arity := Instruction.length_parameters _ _ s
  rw [places, List.getElem?_eq_none (by omega)]
  rfl

/-- In a shape, what is written is addressed. -/
theorem places_ne_immediate (s : Shape) (k : Fin 3) (h : s.opcode.WritesAt (k + 1)) :
    s.places k ≠ .immediate := by
  obtain ⟨hwrites, hk⟩ := h
  cases s with
  | binary op a b dst =>
      obtain rfl : k = 2 := Fin.ext (Nat.succ.inj hk)
      exact nofun
  | input dst =>
      obtain rfl : k = 0 := Fin.ext (Nat.succ.inj hk)
      exact nofun
  | output => cases hwrites
  | jump => cases hwrites
  | adjustBase => cases hwrites
  | halt => cases hwrites

theorem places_eq (h₀ : s.places 0 = modes 0) (h₁ : s.places 1 = modes 1)
    (h₂ : s.places 2 = modes 2) : s.places = modes :=
  funext fun | 0 => h₀ | 1 => h₁ | 2 => h₂

/-- There is a shape for all modes that an opcode can have. -/
theorem exists_shape (hwritten : ∀ k : Fin 3, op.WritesAt (k + 1) → modes k ≠ .immediate)
    (hunused : ∀ k : Fin 3, op.arity ≤ k → modes k = .position) :
    ∃ s : Shape, s.opcode = op ∧ s.places = modes := by
  have hmemory {mode : Mode} (h : mode ≠ .immediate) : ∃ a, .memory a = mode := by
    cases mode with
    | immediate => exact absurd rfl h
    | memory a => exact ⟨a, rfl⟩
  have hrest (k : Fin 3) (hk : op.arity ≤ k) : .position = modes k := (hunused k hk).symm
  cases op with
  | binary op =>
      obtain ⟨dst, hdst⟩ := hmemory (hwritten 2 ⟨rfl, rfl⟩)
      exact ⟨.binary op (modes 0) (modes 1) dst, rfl, places_eq rfl rfl hdst⟩
  | input =>
      obtain ⟨dst, hdst⟩ := hmemory (hwritten 0 ⟨rfl, rfl⟩)
      exact ⟨.input dst, rfl, places_eq hdst (hrest 1 (by decide)) (hrest 2 (by decide))⟩
  | output =>
      exact ⟨.output (modes 0), rfl, places_eq rfl (hrest 1 (by decide)) (hrest 2 (by decide))⟩
  | jump condition =>
      exact ⟨.jump condition (modes 0) (modes 1), rfl, places_eq rfl rfl (hrest 2 (Nat.le_refl 2))⟩
  | adjustBase =>
      exact ⟨.adjustBase (modes 0), rfl, places_eq rfl (hrest 1 (by decide)) (hrest 2 (by decide))⟩
  | halt => exact ⟨.halt, rfl, funext fun k ↦ hrest k (Nat.zero_le _)⟩

theorem exists_decode_iff_says :
    (∃ s, decode cell = .ok s ∧ s.opcode = op ∧ s.places = modes) ↔ Says cell op modes := by
  constructor
  · rintro ⟨s, hs, rfl, rfl⟩
    obtain ⟨hcell, hcode, hmodes⟩ := decode_eq_ok_iff.1 hs
    have hdigits := (modes_eq_map_digit_iff hcell).1 hmodes
    refine ⟨hcell, hcode, fun k hk ↦ ⟨hdigits k hk, fun hwrites hone ↦ ?_⟩, s.places_eq_position⟩
    rw [hdigits k hk] at hone
    exact s.places_ne_immediate k hwrites (Mode.digit_eq_one_iff.1 (by exact_mod_cast hone))
  · intro h
    have hwritten : ∀ k : Fin 3, op.WritesAt (k + 1) → modes k ≠ .immediate := by
      intro k hwrites himmediate
      obtain ⟨hdigit, hne⟩ := h.used k (by have := hwrites.2; omega)
      rw [himmediate] at hdigit
      exact hne hwrites hdigit
    obtain ⟨s, rfl, rfl⟩ := exists_shape hwritten h.unused
    refine ⟨s, decode_eq_ok_iff.2 ⟨h.nonneg, h.code, ?_⟩, rfl, rfl⟩
    exact (modes_eq_map_digit_iff h.nonneg).2 fun k hk ↦ (h.used k hk).1

/-- With its modes in three places, too, a cell decodes to what its digits say. The places that are
left have not been written to. -/
theorem run_decode_eq_ok_iff {modes : Vector Mode 3} :
    (Guarded.decode cell).run = .ok (.ok (op, modes)) ↔ Says cell op modes.get := by
  have hplaces (s : Shape) : Laid.places .position s.modes = modes ↔ s.places = modes.get := by
    have hget : (Laid.places .position s.modes).get = s.places :=
      funext fun k ↦ Laid.get_places .position s.modes k
    rw [← hget]
    exact ⟨fun h ↦ h ▸ rfl, fun h ↦ Vector.ext fun k hk ↦ congrFun h ⟨k, hk⟩⟩
  rw [← exists_decode_iff_says, Guarded.decode_eq]
  cases decode cell with
  | error cause => simp [Except.map]
  | ok s => simp [Except.map, hplaces]

/-! ## Failure -/

/-- The parameters of an opcode, of which one may be written. -/
theorem survey_bare {γ : Type} (op : Opcode) (read write : Nat → γ) :
    op.bare.survey (fun n _ ↦ read n) (fun n _ ↦ write n) =
      (List.range' 1 op.arity).map fun n ↦ if op.WritesAt n then write n else read n := by
  cases op <;> rfl

theorem failure?_select {γ : Type} (choose : Int → Option γ) (i : Nat) (u : Unit) :
    failure? (decode.select cell choose i u) =
      if choose (modeDigit cell i) = none then some (.invalidMode (modeDigit cell i) i)
      else none := by
  unfold decode.select
  cases h : choose (modeDigit cell i) <;> simp [failure?]

theorem failure?_select_eq (h : 0 ≤ cell.toInt) (op : Opcode) (i : Nat) :
    (if op.WritesAt i then failure? (decode.select cell Addressing.ofDigit? i ())
      else failure? (decode.select cell Mode.ofDigit? i ())) =
      (Option.guard (fun i ↦ decide (Rejects cell op i)) i).map
        fun i ↦ .invalidMode (modeDigit cell i) i := by
  have hwritten : Addressing.ofDigit? (modeDigit cell i) = none ↔
      2 < modeDigit cell i ∨ modeDigit cell i = 1 := by
    simp only [Addressing.ofDigit?]
    split
    · simp; omega
    · split <;> simp <;> omega
  have hread : Mode.ofDigit? (modeDigit cell i) = none ↔ 2 < modeDigit cell i := by
    simp only [Mode.ofDigit?]
    split
    · simp; omega
    · simp only [Option.map_eq_none_iff, hwritten]; omega
  have hrejects : Rejects cell op i ↔
      2 < modeDigit cell i ∨ modeDigit cell i = 1 ∧ op.WritesAt i := by
    simp only [Rejects, ← modeDigit_eq_digit h]
    norm_cast
  simp only [failure?_select, Option.guard, hwritten, hread, hrejects, decide_eq_true_eq]
  by_cases hw : op.WritesAt i
  · by_cases hd : 2 < modeDigit cell i ∨ modeDigit cell i = 1 <;> simp [hw, hd]
  · by_cases hd : 2 < modeDigit cell i <;> simp [hw, hd]

theorem find?_rejects_eq_some_iff {i : Nat} :
    (List.range' 1 op.arity).find? (fun i ↦ decide (Rejects cell op i)) = some i ↔
      FirstRejected cell op i := by
  simp only [List.find?_range'_eq_some, List.mem_range'_1, decide_eq_true_eq, Bool.not_eq_true',
    decide_eq_false_iff_not]
  constructor
  · rintro ⟨hi, ⟨hone, hle⟩, hfirst⟩
    exact ⟨hone, by omega, hi, hfirst⟩
  · rintro ⟨hone, hle, hi, hfirst⟩
    exact ⟨hi, ⟨hone, by omega⟩, hfirst⟩

theorem traverse_bare_eq_error_iff (h : 0 ≤ cell.toInt) :
    op.bare.traverse (decode.select cell Mode.ofDigit?) (decode.select cell Addressing.ofDigit?) =
        .error cause ↔
      ∃ i, FirstRejected cell op i ∧ cause = .invalidMode (modeDigit cell i) i := by
  rw [Instruction.traverse_eq_error_iff, survey_bare op
    (fun n ↦ failure? (decode.select cell Mode.ofDigit? n ()))
    (fun n ↦ failure? (decode.select cell Addressing.ofDigit? n ()))]
  have hfind : (List.range' 1 op.arity).findSome? (fun i ↦
      (Option.guard (fun i ↦ decide (Rejects cell op i)) i).map
        fun i ↦ Cause.invalidMode (modeDigit cell i) i) =
      ((List.range' 1 op.arity).find? fun i ↦ decide (Rejects cell op i)).map
        fun i ↦ .invalidMode (modeDigit cell i) i := by
    rw [List.find?_eq_findSome?_guard, List.map_findSome?]
    rfl
  simp only [failure?_select_eq h]
  rw [List.findSome?_map, Function.id_comp, hfind, Option.map_eq_some_iff]
  exact exists_congr fun i ↦ and_congr find?_rejects_eq_some_iff eq_comm

theorem decode_eq_error_iff :
    decode cell = .error cause ↔
      (cause = .unknownOpcode cell ∧
        (cell.toInt < 0 ∨ ∀ op : Opcode, cell.toInt % 100 ≠ op.code)) ∨
      ∃ (op : Opcode) (i digit : Nat), cause = .invalidMode digit i ∧ 0 ≤ cell.toInt ∧
        cell.toInt % 100 = op.code ∧ FirstRejected cell op i ∧ digit = cell.digit (i + 1) := by
  have hnegative : cell < 0 ↔ cell.toInt < 0 := by rw [Int64.lt_iff_toInt_lt, Int64.toInt_zero]
  unfold decode
  by_cases hcell : cell.toInt < 0
  · have hnot : ¬ 0 ≤ cell.toInt := by omega
    simp [if_pos (hnegative.2 hcell), hcell, hnot, eq_comm]
  · have hnonneg : 0 ≤ cell.toInt := by omega
    rw [if_neg fun h ↦ hcell (hnegative.1 h)]
    cases hop : Opcode.ofCode? (cell.toInt % 100) with
    | none =>
        have hnone (op : Opcode) : cell.toInt % 100 ≠ op.code := by
          intro hcode
          rw [Opcode.ofCode?_eq_some_iff.2 hcode] at hop
          cases hop
        simp [hnone, eq_comm]
    | some op =>
        have hcode : cell.toInt % 100 = op.code := Opcode.ofCode?_eq_some_iff.1 hop
        simp only [traverse_bare_eq_error_iff hnonneg]
        constructor
        · rintro ⟨i, hi, rfl⟩
          exact .inr ⟨op, i, _, rfl, hnonneg, hcode, hi, modeDigit_eq_digit hnonneg i⟩
        · rintro (⟨-, hlt | hne⟩ | ⟨op', i, digit, rfl, -, hcode', hi, hdigit⟩)
          · exact absurd hlt hcell
          · exact absurd hcode (hne op)
          · obtain rfl : op' = op :=
              Opcode.code_injective (by exact_mod_cast hcode'.symm.trans hcode)
            rw [← modeDigit_eq_digit hnonneg, Int.natCast_inj] at hdigit
            exact ⟨i, hi, by rw [hdigit]⟩

/-! ## Cells that say the same -/

theorem decode_eq_ok_iff_emod_eq (hs : decode cell = .ok s) (h : 0 ≤ cell'.toInt) :
    decode cell' = .ok s ↔
      cell'.toInt % 10 ^ (2 + s.opcode.arity) = cell.toInt % 10 ^ (2 + s.opcode.arity) := by
  rw [Nat.add_comm 2]
  constructor
  · exact fun hs' ↦ emod_eq_of_decode hs' hs rfl rfl
  · intro hmod
    obtain ⟨hcell, hcode, hmodes⟩ := decode_eq_ok_iff.1 hs
    have hnat : cell'.toInt.toNat % 10 ^ (s.opcode.arity + 2) =
        cell.toInt.toNat % 10 ^ (s.opcode.arity + 2) := by
      rw [← Int.toNat_of_nonneg h, ← Int.toNat_of_nonneg hcell] at hmod
      exact_mod_cast hmod
    have hlow : cell'.toInt.toNat % 100 = cell.toInt.toNat % 100 := by
      have hdvd : 100 ∣ 10 ^ (s.opcode.arity + 2) := Nat.pow_dvd_pow 10 (Nat.le_add_left 2 _)
      rw [← Nat.mod_mod_of_dvd _ hdvd, hnat, Nat.mod_mod_of_dvd _ hdvd]
    refine decode_eq_ok_iff.2 ⟨h, by omega, hmodes.trans (List.map_congr_left ?_)⟩
    intro i hi
    rw [List.mem_range'_1] at hi
    exact (modeDigit_eq_of_mod_eq (by omega) hnat).symm

/-- A cell decodes exactly if its digits say an opcode and modes, and it decodes to these. It is no
opcode cell at all if it is negative or has another number in its two lowest digits; and if it has
an opcode, but does not decode, the cause is the first digit that is no mode of its parameter. What
a cell decodes to is decided by the digits of the opcode and of its parameters alone. Where modes
are written to three places, those that are not used keep the position mode. -/
theorem decode_reads_digits (cell : Cell) :
    (∀ op modes, (∃ s, decode cell = .ok s ∧ s.opcode = op ∧ s.places = modes) ↔
      Says cell op modes) ∧
    (∀ cause, decode cell = .error cause ↔
      (cause = .unknownOpcode cell ∧
        (cell.toInt < 0 ∨ ∀ op : Opcode, cell.toInt % 100 ≠ op.code)) ∨
      ∃ (op : Opcode) (i digit : Nat), cause = .invalidMode digit i ∧ 0 ≤ cell.toInt ∧
        cell.toInt % 100 = op.code ∧ FirstRejected cell op i ∧ digit = cell.digit (i + 1)) ∧
    (∀ s, decode cell = .ok s → ∀ cell' : Cell, 0 ≤ cell'.toInt →
      (decode cell' = decode cell ↔
        cell'.toInt % 10 ^ (2 + s.opcode.arity) = cell.toInt % 10 ^ (2 + s.opcode.arity))) ∧
    ∀ op (modes : Vector Mode 3), (Guarded.decode cell).run = .ok (.ok (op, modes)) ↔
      Says cell op modes.get := by
  refine ⟨fun _ _ ↦ exists_decode_iff_says, fun _ ↦ decode_eq_error_iff, ?_,
    fun _ _ ↦ run_decode_eq_ok_iff⟩
  intro s hs cell' hcell'
  rw [hs]
  exact decode_eq_ok_iff_emod_eq hs hcell'

/-- A product whose second factor is a value, an output with two places left, a cell that differs
from the product above the digits of the modes, a sum that would be stored in a value, and a number
that is no opcode. -/
theorem decode_reads_digits_of_product :
    Says 1002 .mul ![.position, .immediate, .position] ∧
    (Guarded.decode 204).run = .ok (.ok (.output, #v[.relative, .position, .position])) ∧
    decode 301002 = decode 1002 ∧ decode 31002 ≠ decode 1002 ∧
    decode 11101 = .error (.invalidMode 1 3) ∧ decode 1010 = .error (.unknownOpcode 1010) := by
  have hs : decode 1002 = .ok (.binary .mul .position .immediate .position) := by rfl
  have hplaces : places (.binary .mul .position .immediate .position) =
      ![.position, .immediate, .position] := places_eq rfl rfl rfl
  have hfirst : FirstRejected 11101 .add 3 :=
    ⟨by decide, by decide, by decide, fun j hone hlt ↦ by
      obtain rfl | rfl : j = 1 ∨ j = 2 := by omega
      · decide
      · decide⟩
  have hcode (op : Opcode) : (1010 : Cell).toInt % 100 ≠ op.code := by
    rcases op with ⟨_ | _ | _ | _⟩ | _ | _ | ⟨_ | _⟩ | _ | _ <;> decide
  have hsays : Says 204 .output (#v[.relative, .position, .position] : Vector Mode 3).get :=
    ⟨by decide, by decide, by decide, by decide⟩
  obtain ⟨hok, -, hsame, -⟩ := decode_reads_digits 1002
  refine ⟨(hok _ _).1 ⟨_, hs, rfl, hplaces⟩,
    ((decode_reads_digits 204).2.2.2 _ _).2 hsays, (hsame _ hs 301002 (by decide)).2 (by decide),
    fun h ↦ ?_, ?_, ?_⟩
  · exact absurd ((hsame _ hs 31002 (by decide)).1 h) (by decide)
  · exact ((decode_reads_digits 11101).2.1 _).2
      (.inr ⟨.add, 3, 1, rfl, by decide, by decide, hfirst, by decide⟩)
  · exact ((decode_reads_digits 1010).2.1 _).2 (.inl ⟨rfl, .inr hcode⟩)

end Shape

end Intcode
