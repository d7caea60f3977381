import Intcode.Instruction.Decode
import Intcode.Proofs.Instruction.Traverse

/-!
# Fetched instructions

An instruction can be fetched exactly where one stands, and a fetch fails for one of three reasons:
there is no opcode cell, the opcode cell says nothing, or memory ends before the parameters do.
-/

namespace Intcode

theorem cellAt_eq_ok_iff {cells : Array Cell} {index : Nat} {c : Cell} :
    cellAt cells index = .ok c ↔ cells[index]? = some c := by
  unfold cellAt
  cases cells[index]? <;> simp

theorem cellAt_eq_error_iff {cells : Array Cell} {index : Nat} {cause : Cause} :
    cellAt cells index = .error cause ↔
      cells.size ≤ index ∧ cause = .addressOutOfRange (.ofAddress index) := by
  unfold cellAt
  cases h : cells[index]? with
  | none =>
      have hle : cells.size ≤ index := Array.getElem?_eq_none_iff.1 h
      simp [hle, eq_comm]
  | some c =>
      obtain ⟨hlt, -⟩ := Array.getElem?_eq_some_iff.1 h
      simp [Nat.not_le_of_lt hlt]

theorem getElem?_append_of_eq_some {cells : Array Cell} {n : Nat} {c : Cell}
    (h : cells[n]? = some c) (more : Array Cell) : (cells ++ more)[n]? = some c := by
  obtain ⟨hlt, -⟩ := Array.getElem?_eq_some_iff.1 h
  rw [Array.getElem?_append_left hlt, h]

theorem Shape.select_eq_error {γ : Type} {cell : Cell} {choose : Int → Option γ} {i : Nat}
    {cause : Cause} (h : decode.select cell choose i () = .error cause) :
    cause = .invalidMode (modeDigit cell i) i := by
  unfold decode.select at h
  split at h
  · cases h
  · cases h
    rfl

/-- An opcode cell says nothing if it has no opcode, or a digit that is no mode. -/
theorem Shape.decode_eq_error {cell : Cell} {cause : Cause} (h : decode cell = .error cause) :
    cause = .unknownOpcode cell ∨ ∃ i, cause = .invalidMode (modeDigit cell i) i := by
  unfold decode at h
  split at h
  · cases h
    exact .inl rfl
  · obtain ⟨i, _, hi⟩ | ⟨i, _, hi⟩ := Instruction.exists_of_traverse_eq_error h
    · exact .inr ⟨i, select_eq_error hi⟩
    · exact .inr ⟨i, select_eq_error hi⟩

namespace Fetched

/-- The instruction `i` stands in `cells` at `pointer`: the cell there says its opcode and its
modes, and its parameters are in the cells that follow. -/
structure StandsAt (cells : Array Cell) (pointer : Nat) (i : Fetched) : Prop where
  shape : ∃ cell s, cells[pointer]? = some cell ∧ Shape.decode cell = .ok s ∧
    s.opcode = i.opcode ∧ s.modes = i.operands.map (·.mode)
  parameters : ∀ x ∈ i.operands.zipIdx (pointer + 1), cells[x.2]? = some x.1.parameter

variable {cells : Array Cell} {pointer : Nat} {i : Fetched}

/-! ## Success -/

theorem fetch_operand_eq_ok_iff {n : Nat} {mode : Mode} {o : Operand} :
    (return ⟨mode, ← cellAt cells n⟩ : Except Cause Operand) = .ok o ↔
      o.mode = mode ∧ cells[n]? = some o.parameter := by
  simp only [bind_eq_ok_iff, pure_eq_ok_iff, cellAt_eq_ok_iff]
  constructor
  · rintro ⟨c, hc, rfl⟩
    exact ⟨rfl, hc⟩
  · rintro ⟨rfl, hc⟩
    exact ⟨_, hc, rfl⟩

theorem fetch_target_eq_ok_iff {n : Nat} {addressing : Addressing} {t : Target} :
    (return ⟨addressing, ← cellAt cells n⟩ : Except Cause Target) = .ok t ↔
      t.addressing = addressing ∧ cells[n]? = some t.parameter := by
  simp only [bind_eq_ok_iff, pure_eq_ok_iff, cellAt_eq_ok_iff]
  constructor
  · rintro ⟨c, hc, rfl⟩
    exact ⟨rfl, hc⟩
  · rintro ⟨rfl, hc⟩
    exact ⟨_, hc, rfl⟩

/-- An instruction has a given shape, with its parameters in memory, if it is alike parameter by
parameter. -/
theorem alike_shape_iff {s : Shape} :
    Instruction.Alike (fun n mode o ↦ o.mode = mode ∧ cells[pointer + n]? = some o.parameter)
        (fun n addressing t ↦ t.addressing = addressing ∧ cells[pointer + n]? = some t.parameter)
        s i ↔
      s.opcode = i.opcode ∧ s.modes = i.operands.map (·.mode) ∧
        ∀ x ∈ i.operands.zipIdx (pointer + 1), cells[x.2]? = some x.1.parameter := by
  constructor
  · intro h
    cases h <;>
      simp_all [Instruction.opcode, Shape.modes, operands, Instruction.parameters,
        Target.toOperand]
  · rintro ⟨ho, hm, hp⟩
    -- Instructions of different opcodes are told apart by `ho`, so six cases are left.
    cases s <;> cases i <;>
      simp [Instruction.opcode, Shape.modes, operands, Instruction.parameters,
        Target.toOperand] at ho hm hp
    case binary.binary =>
      subst ho
      exact .binary ⟨hm.1.symm, hp.1⟩ ⟨hm.2.1.symm, hp.2.1⟩ ⟨hm.2.2.symm, hp.2.2⟩
    case input.input => exact .input ⟨hm.symm, hp⟩
    case output.output => exact .output ⟨hm.symm, hp⟩
    case jump.jump =>
      subst ho
      exact .jump ⟨hm.1.symm, hp.1⟩ ⟨hm.2.symm, hp.2⟩
    case adjustBase.adjustBase => exact .adjustBase ⟨hm.symm, hp⟩
    case halt.halt => exact .halt

theorem fetch_eq_ok_iff : fetch cells pointer = .ok i ↔ i.StandsAt cells pointer := by
  simp only [fetch, bind_eq_ok_iff, cellAt_eq_ok_iff]
  simp only [Instruction.traverse_eq_ok_iff, fetch_operand_eq_ok_iff, fetch_target_eq_ok_iff,
    alike_shape_iff]
  constructor
  · rintro ⟨cell, hc, s, hs, ho, hm, hp⟩
    exact ⟨⟨cell, s, hc, hs, ho, hm⟩, hp⟩
  · rintro ⟨⟨cell, s, hc, hs, ho, hm⟩, hp⟩
    exact ⟨cell, hc, s, hs, ho, hm, hp⟩

/-! ## Failure -/

theorem failure?_cellAt (n : Nat) :
    failure? (cellAt cells n) =
      if cells.size ≤ n then some (.addressOutOfRange (.ofAddress n)) else none := by
  unfold cellAt
  cases h : cells[n]? with
  | none => simp [failure?, Array.getElem?_eq_none_iff.1 h]
  | some c =>
      obtain ⟨hlt, -⟩ := Array.getElem?_eq_some_iff.1 h
      simp [failure?, Nat.not_le_of_lt hlt]

theorem failure?_map {ε α β : Type} (x : Except ε α) (f : α → β) :
    failure? (do return f (← x)) = failure? x := by
  cases x <;> rfl

/-- Of the cells from `n` on, the first one that is missing is the one right after the last. -/
theorem findSome?_missing {n : Nat} (h : n ≤ cells.size) (count : Nat) :
    (List.range' n count).findSome? (fun k ↦ failure? (cellAt cells k)) =
      if cells.size < n + count then some (.addressOutOfRange (.ofAddress cells.size))
      else none := by
  induction count generalizing n with
  | zero => simp [Nat.not_lt_of_le h]
  | succ count ih =>
      rw [List.range'_succ, List.findSome?_cons, failure?_cellAt]
      by_cases hn : cells.size ≤ n
      · have : n = cells.size := by omega
        simp [this]
      · have hs : n + 1 ≤ cells.size := by omega
        simp only [hn, if_false, ih hs]
        congr 1
        simp only [eq_iff_iff]
        omega

theorem survey_eq_map_range' {γ : Type} (s : Shape) (f : Nat → γ) :
    s.survey (fun n _ ↦ f (pointer + n)) (fun n _ ↦ f (pointer + n)) =
      (List.range' (pointer + 1) s.opcode.arity).map f := by
  cases s <;> rfl

theorem parameters_eq_error_iff {s : Shape} {cause : Cause} (hc : pointer < cells.size) :
    s.traverse (fun n mode ↦ return Operand.mk mode (← cellAt cells (pointer + n)))
        (fun n addressing ↦ return Target.mk addressing (← cellAt cells (pointer + n))) =
        .error cause ↔
      cells.size < pointer + s.width ∧ cause = .addressOutOfRange (.ofAddress cells.size) := by
  have hw : pointer + s.width = pointer + 1 + s.opcode.arity := by
    simp only [Instruction.width, Opcode.width]
    omega
  rw [Instruction.traverse_eq_error_iff]
  simp only [failure?_map]
  rw [survey_eq_map_range' s fun n ↦ failure? (cellAt cells n), List.findSome?_map,
    Function.id_comp, findSome?_missing hc, hw]
  by_cases hlt : cells.size < pointer + 1 + s.opcode.arity
  · simp [hlt, eq_comm]
  · simp [hlt]

theorem fetch_eq_error_iff {cause : Cause} :
    fetch cells pointer = .error cause ↔
      (cells.size ≤ pointer ∧ cause = .addressOutOfRange (.ofAddress pointer)) ∨
      (∃ cell, cells[pointer]? = some cell ∧ Shape.decode cell = .error cause) ∨
      ∃ cell s, cells[pointer]? = some cell ∧ Shape.decode cell = .ok s ∧
        cells.size < pointer + s.width ∧ cause = .addressOutOfRange (.ofAddress cells.size) := by
  simp only [fetch, bind_eq_error_iff, cellAt_eq_error_iff, cellAt_eq_ok_iff]
  refine or_congr_right ⟨?_, ?_⟩
  · rintro ⟨cell, hc, hd | ⟨s, hs, h⟩⟩
    · exact .inl ⟨cell, hc, hd⟩
    · obtain ⟨hlt, -⟩ := Array.getElem?_eq_some_iff.1 hc
      exact .inr ⟨cell, s, hc, hs, (parameters_eq_error_iff hlt).1 h⟩
  · rintro (⟨cell, hc, hd⟩ | ⟨cell, s, hc, hs, h⟩)
    · exact ⟨cell, hc, .inl hd⟩
    · obtain ⟨hlt, -⟩ := Array.getElem?_eq_some_iff.1 hc
      exact ⟨cell, hc, .inr ⟨s, hs, (parameters_eq_error_iff hlt).2 h⟩⟩

/-- An instruction that stands in memory does so as a whole. -/
theorem StandsAt.add_width_le (h : i.StandsAt cells pointer) :
    pointer + i.width ≤ cells.size := by
  have hf : fetch cells pointer = .ok i := fetch_eq_ok_iff.2 h
  obtain ⟨⟨cell, s, hc, hs, ho, -⟩, -⟩ := h
  refine Nat.le_of_not_lt fun hlt ↦ ?_
  have hw : s.width = i.width := congrArg Opcode.width ho
  have he : fetch cells pointer = .error (.addressOutOfRange (.ofAddress cells.size)) :=
    fetch_eq_error_iff.2 (.inr (.inr ⟨cell, s, hc, hs, by omega, rfl⟩))
  rw [hf] at he
  cases he

/-! ## More cells -/

theorem StandsAt.append (h : i.StandsAt cells pointer) (more : Array Cell) :
    i.StandsAt (cells ++ more) pointer := by
  obtain ⟨⟨cell, s, hcell, hs⟩, hparameters⟩ := h
  exact ⟨⟨cell, s, getElem?_append_of_eq_some hcell more, hs⟩,
    fun x hx ↦ getElem?_append_of_eq_some (hparameters x hx) more⟩

/-- More cells make no difference to a fetch that is not at fault for want of them. -/
theorem fetch_append (h : ∀ a, fetch cells pointer ≠ .error (.addressOutOfRange a))
    (more : Array Cell) : fetch (cells ++ more) pointer = fetch cells pointer := by
  cases hf : fetch cells pointer with
  | ok i => exact fetch_eq_ok_iff.2 ((fetch_eq_ok_iff.1 hf).append more)
  | error cause =>
      obtain ⟨-, rfl⟩ | ⟨cell, hc, hd⟩ | ⟨_, _, -, -, -, rfl⟩ := fetch_eq_error_iff.1 hf
      · exact absurd hf (h _)
      · exact fetch_eq_error_iff.2 (.inr (.inl ⟨cell, getElem?_append_of_eq_some hc more, hd⟩))
      · exact absurd hf (h _)

end Fetched

end Intcode
