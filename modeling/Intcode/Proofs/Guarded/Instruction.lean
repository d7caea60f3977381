import Intcode.Proofs.Guarded.Basic
import Intcode.Proofs.Listing

/-!
# Guarded decoding, fetching and listing

Instructions are laid out flat here, with three places for modes and three for parameters. At first
they hold the position mode and zeros, and what is decoded and fetched is written over these place by
place. No sum of a fetch overflows because the cell before the one that is looked at has been there;
and the place before the last parameter is one, because only opcodes with parameters write.
-/

namespace Intcode

/-- An instruction with three places for modes and for parameters. The first ones are taken. -/
@[ext]
structure Laid where
  opcode : Opcode
  modes : Vector Mode 3
  parameters : Vector Cell 3
deriving DecidableEq, Repr

namespace Laid

variable {α : Type}

/-- The elements of a list in three places, and `rest` in those that are left. -/
def places (rest : α) (xs : List α) : Vector α 3 :=
  #v[xs[0]?.getD rest, xs[1]?.getD rest, xs[2]?.getD rest]

/-- Places of which those from `k` on are taken by the elements of a list. -/
def fill (slots : Vector α 3) (k : Nat) : List α → Vector α 3
  | [] => slots
  | x :: xs => fill (slots.setIfInBounds k x) (k + 1) xs

/-- The layout of an instruction. -/
def ofFetched (i : Fetched) : Laid where
  opcode := i.opcode
  modes := places .position (i.operands.map (·.mode))
  parameters := places 0 (i.operands.map (·.parameter))

/-- What stands in the places that are taken. -/
def operands (i : Laid) : List Operand :=
  (i.modes.toList.zipWith Operand.mk i.parameters.toList).take i.opcode.arity

/-- The text of an instruction. -/
def text (i : Laid) : String :=
  match i.operands with
  | [] => i.opcode.mnemonic
  | operands => i.opcode.mnemonic ++ " " ++ ", ".intercalate (operands.map Operand.text)

theorem get_places (rest : α) (xs : List α) (k : Fin 3) :
    (places rest xs).get k = xs[k.val]?.getD rest := by
  obtain rfl | rfl | rfl : k = 0 ∨ k = 1 ∨ k = 2 := by omega
  · rfl
  · rfl
  · rfl

@[simp] theorem operands_ofFetched (i : Fetched) : (ofFetched i).operands = i.operands := by
  cases i <;> rfl

theorem text_ofFetched (i : Fetched) : (ofFetched i).text = i.text := by
  rw [text, operands_ofFetched]
  rfl

end Laid

namespace Guarded

variable {α β : Type}

/-! ## Decoding -/

/-- Writes the modes of `count` parameters to their places, from the one with index `k` on, by the
digits of `rest`. -/
def modes (rest k : Nat) (slots : Vector Mode 3) : Nat → Except Cause (Vector Mode 3)
  | 0 => return slots
  | count + 1 =>
    match Mode.ofDigit? (rest % 10 : Nat) with
    | none => throw (.invalidMode (rest % 10) (k + 1))
    | some mode => modes (rest / 10) (k + 1) (slots.setIfInBounds k mode) count

/-- Reads an opcode cell. The mode of the last parameter is looked at again if it is written. -/
def decode (cell : Cell) : ExceptT Cause Guarded (Opcode × Vector Mode 3) :=
  match if cell < 0 then none else Opcode.ofCode? (cell.toInt % 100) with
  | none => throw (.unknownOpcode cell)
  | some op => do
    let modes ← ofExcept
      (modes (cell.toInt.toNat / 100) 0 (Vector.replicate 3 .position) op.arity)
    if op.writes then
      let last ← minus op.arity 1
      match ← (found modes[last]? : Guarded Mode) with
      | .immediate => throw (.invalidMode 1 op.arity)
      | .memory _ => return (op, modes)
    else return (op, modes)

/-- A target is selected like an operand, except that it cannot be immediate. -/
theorem select_addressing (cell : Cell) (i : Nat) (u : Unit) :
    Shape.decode.select cell Addressing.ofDigit? i u =
      Shape.decode.select cell Mode.ofDigit? i u >>= fun
        | .immediate => .error (.invalidMode 1 i)
        | .memory addressing => .ok addressing := by
  unfold Shape.decode.select Mode.ofDigit?
  by_cases hone : (modeDigit cell i : Int) = 1
  · have hdigit : modeDigit cell i = 1 := by omega
    simp [hdigit, Addressing.ofDigit?, bind, Except.bind]
  · rw [if_neg hone]
    cases Addressing.ofDigit? (modeDigit cell i) <;> rfl

/-- The digits are those of the parameters, one after the other. -/
theorem modes_eq (cell : Cell) (k : Nat) (slots : Vector Mode 3) (count : Nat) :
    modes (cell.toInt.toNat / Nat.pow 10 (k + 2)) k slots count =
      ((List.range' (k + 1) count).mapM fun n ↦
        Shape.decode.select cell Mode.ofDigit? n ()).map (Laid.fill slots k) := by
  induction count generalizing k slots with
  | zero => rfl
  | succ count ih =>
      have hrest : cell.toInt.toNat / Nat.pow 10 (k + 2) / 10 =
          cell.toInt.toNat / Nat.pow 10 (k + 1 + 2) := Nat.div_div_eq_div_mul _ _ _
      have hdigit : cell.toInt.toNat / Nat.pow 10 (k + 2) % 10 = modeDigit cell (k + 1) :=
        (modeDigit_eq cell (k + 1)).symm
      rw [List.range'_succ, List.mapM_cons, modes, hdigit, hrest]
      simp only [ih]
      generalize (List.range' (k + 1 + 1) count).mapM (fun n ↦
        Shape.decode.select cell Mode.ofDigit? n ()) = others
      unfold Shape.decode.select
      cases Mode.ofDigit? (modeDigit cell (k + 1)) with
      | none => rfl
      | some mode => cases others <;> rfl

theorem decode_eq (cell : Cell) :
    (decode cell).run =
      .ok ((Shape.decode cell).map fun s ↦ (s.opcode, Laid.places .position s.modes)) := by
  unfold decode Shape.decode
  cases (if cell < 0 then none else Opcode.ofCode? (cell.toInt % 100)) with
  | none => rfl
  | some op =>
      have hmodes (slots : Vector Mode 3) : modes (cell.toInt.toNat / 100) 0 slots op.arity =
          ((List.range' 1 op.arity).mapM fun n ↦
            Shape.decode.select cell Mode.ofDigit? n ()).map (Laid.fill slots 0) :=
        modes_eq cell 0 slots op.arity
      simp only [hmodes]
      -- The last mode is the one that is looked at again, wherever an opcode writes.
      cases op <;>
        simp only [Opcode.arity, Opcode.bare, Instruction.traverse, select_addressing, List.range',
          List.mapM_cons, List.mapM_nil]
      case binary =>
        rcases Shape.decode.select cell Mode.ofDigit? 1 () with _ | a
        · rfl
        rcases Shape.decode.select cell Mode.ofDigit? 2 () with _ | b
        · rfl
        rcases Shape.decode.select cell Mode.ofDigit? 3 () with _ | _ | dst <;> rfl
      case input => rcases Shape.decode.select cell Mode.ofDigit? 1 () with _ | _ | dst <;> rfl
      case output => rcases Shape.decode.select cell Mode.ofDigit? 1 () with _ | a <;> rfl
      case jump =>
        rcases Shape.decode.select cell Mode.ofDigit? 1 () with _ | a
        · rfl
        rcases Shape.decode.select cell Mode.ofDigit? 2 () with _ | target <;> rfl
      case adjustBase => rcases Shape.decode.select cell Mode.ofDigit? 1 () with _ | a <;> rfl
      case halt => rfl

/-! ## Fetching -/

/-- Writes `count` parameters to their places, from the one with index `k` on. -/
def parameters (cells : Array Cell) (pointer k : Nat) (slots : Vector Cell 3) :
    Nat → ExceptT Cause Guarded (Vector Cell 3)
  | 0 => return slots
  | count + 1 => do
    let parameter ← ofExcept (cellAt cells (← plus (← plus pointer 1) k))
    parameters cells pointer (k + 1) (slots.setIfInBounds k parameter) count

/-- The instruction that starts at `pointer`. -/
def fetch (cells : Array Cell) (pointer : Nat) : ExceptT Cause Guarded Laid := do
  let (opcode, modes) ← decode (← ofExcept (cellAt cells pointer))
  let parameters ← parameters cells pointer 0 (Vector.replicate 3 0) opcode.arity
  return ⟨opcode, modes, parameters⟩

variable {cells : Array Cell} {pointer : Nat}

/-- No sum overflows as long as the cell before the parameter is there. -/
theorem parameters_eq (hsize : cells.size < UInt64.size) {k : Nat} (hk : pointer + k < cells.size)
    (slots : Vector Cell 3) (count : Nat) :
    (parameters cells pointer k slots count).run =
      .ok (((List.range' (k + 1) count).mapM fun n ↦ cellAt cells (pointer + n)).map
        (Laid.fill slots k)) := by
  induction count generalizing k slots with
  | zero => rfl
  | succ count ih =>
      have hone : plus pointer 1 = .ok (pointer + 1) := plus_eq (by omega)
      have hsum : plus (pointer + 1) k = .ok (pointer + (k + 1)) := by
        rw [plus_eq (by omega), Nat.add_assoc, Nat.add_comm 1 k]
      rw [parameters, List.range'_succ, List.mapM_cons, hone, liftM_ok_bind, hsum, liftM_ok_bind,
        run_bind_eq (run_ofExcept _)]
      cases hcell : cellAt cells (pointer + (k + 1)) with
      | error cause => rfl
      | ok c =>
          obtain ⟨hlt, -⟩ := Array.getElem?_eq_some_iff.1 (cellAt_eq_ok_iff.1 hcell)
          simp only [ih hlt]
          cases (List.range' (k + 1 + 1) count).mapM fun n ↦ cellAt cells (pointer + n) <;> rfl

/-- The parameters of a shape are looked up in their order, be they read or written. -/
theorem map_parameters (s : Shape) :
    ((List.range' 1 s.opcode.arity).mapM fun n ↦ cellAt cells (pointer + n)).map
        (fun parameters ↦
          Laid.mk s.opcode (Laid.places .position s.modes)
            (Laid.fill (Vector.replicate 3 0) 0 parameters)) =
      (s.traverse (fun n mode ↦ return Operand.mk mode (← cellAt cells (pointer + n)))
        (fun n addressing ↦ return Target.mk addressing (← cellAt cells (pointer + n)))).map
        Laid.ofFetched := by
  cases s <;> simp only [Instruction.opcode, Opcode.arity, List.range', List.mapM_cons,
    List.mapM_nil, Instruction.traverse]
  case binary =>
    rcases cellAt cells (pointer + 1) with _ | a
    · rfl
    rcases cellAt cells (pointer + 2) with _ | b
    · rfl
    rcases cellAt cells (pointer + 3) with _ | dst <;> rfl
  case input => rcases cellAt cells (pointer + 1) with _ | dst <;> rfl
  case output => rcases cellAt cells (pointer + 1) with _ | a <;> rfl
  case jump =>
    rcases cellAt cells (pointer + 1) with _ | a
    · rfl
    rcases cellAt cells (pointer + 2) with _ | target <;> rfl
  case adjustBase => rcases cellAt cells (pointer + 1) with _ | a <;> rfl
  case halt => rfl

theorem fetch_eq (hsize : cells.size < UInt64.size) (pointer : Nat) :
    (fetch cells pointer).run = .ok ((Fetched.fetch cells pointer).map Laid.ofFetched) := by
  unfold fetch Fetched.fetch
  rw [run_bind_eq (run_ofExcept _)]
  cases hcell : cellAt cells pointer with
  | error cause => rfl
  | ok cell =>
      obtain ⟨hlt, -⟩ := Array.getElem?_eq_some_iff.1 (cellAt_eq_ok_iff.1 hcell)
      simp only [run_bind_eq (decode_eq cell), ok_bind]
      cases Shape.decode cell with
      | error cause => rfl
      | ok s =>
          have hparameters :
              (parameters cells pointer 0 (Vector.replicate 3 0) s.opcode.arity).run =
              .ok (((List.range' 1 s.opcode.arity).mapM fun n ↦ cellAt cells (pointer + n)).map
                (Laid.fill (Vector.replicate 3 0) 0)) :=
            parameters_eq hsize hlt _ s.opcode.arity
          rw [ok_bind, ← map_parameters]
          simp only [Except.map, run_bind_eq hparameters]
          cases (List.range' 1 s.opcode.arity).mapM fun n ↦ cellAt cells (pointer + n) <;> rfl

/-! ## Listing -/

/-- The number of cells that a sweep goes on after a fetch. -/
def stride : Except Cause Laid → Nat
  | .ok i => i.opcode.width
  | .error _ => 1

theorem stride_pos (content : Except Cause Laid) : 0 < stride content := by
  cases content with
  | ok i => exact Nat.succ_pos _
  | error cause => exact Nat.one_pos

/-- What starts at the positions of a sweep, from the given one to the end. -/
def sweep (cells : Array Cell) (position : Nat) : Guarded (List (Nat × Except Cause Laid)) :=
  if position < cells.size then
    match (fetch cells position).run with
    | .error mishap => .error mishap
    | .ok content =>
      match _hnext : plus position (stride content) with
      | .error mishap => .error mishap
      | .ok next => (sweep cells next).map ((position, content) :: ·)
  else .ok []
termination_by cells.size - position
decreasing_by
  have hsum : next = position + stride content := eq_of_plus_eq_ok _hnext
  have hpos := stride_pos content
  omega

/-- The line of a position. The cell of data is looked up in the program. -/
def line (program : Array Cell) : Nat × Except Cause Laid → Guarded String
  | (address, .ok i) => return Column.right 6 (Decimal.ofNat address) ++ "  " ++ i.text
  | (address, .error _) => do
    let cell ← found program[address]?
    return Column.right 6 (Decimal.ofNat address) ++ "  " ++ (".data " ++ cell.text)

/-- The lines of a program. -/
def lines (program : Array Cell) : Guarded (List String) := do
  (← sweep program 0).mapM (line program)

theorem stride_map_ofFetched (e : Entry) : stride (e.content.map Laid.ofFetched) = e.width := by
  obtain ⟨address, cell, _ | i⟩ := e <;> rfl

/-- No step leads past the end of the program. -/
theorem sweep_eq (hsize : cells.size < UInt64.size) (start : Nat) :
    sweep cells start =
      .ok ((listing cells start).map fun e ↦ (e.address, e.content.map Laid.ofFetched)) := by
  fun_induction listing cells start with
  | case1 start hstart entry ih =>
      have hfetch : (fetch cells start).run = .ok (entry.content.map Laid.ofFetched) :=
        fetch_eq hsize start
      have hle : start + entry.width ≤ cells.size := Entry.add_width_ofAddress_le hstart
      rw [sweep, if_pos hstart, hfetch]
      split
      · rename_i heq
        cases heq
      · rename_i content heq
        cases heq
        rw [stride_map_ofFetched, plus_eq (by omega)]
        split
        · rename_i hnext
          cases hnext
        · rename_i hnext
          cases hnext
          rw [ih]
          rfl
  | case2 start hstart =>
      rw [sweep, if_neg hstart]
      rfl

theorem mapM_eq_ok {f : α → Guarded β} {g : α → β} {xs : List α}
    (h : ∀ x ∈ xs, f x = .ok (g x)) : xs.mapM f = .ok (xs.map g) := by
  induction xs with
  | nil => rfl
  | cons x xs ih =>
      obtain ⟨hx, hxs⟩ := List.forall_mem_cons.1 h
      rw [List.mapM_cons, hx, ok_bind, ih hxs]
      rfl

theorem lines_eq {program : Array Cell} (hsize : program.size < UInt64.size) :
    lines program = .ok ((listing program 0).map Entry.text) := by
  have hline : ∀ e ∈ listing program 0,
      line program (e.address, e.content.map Laid.ofFetched) = .ok e.text := by
    intro e he
    obtain ⟨hcell, -⟩ := getElem?_and_fetch_of_mem_listing he
    obtain ⟨address, cell, cause | i⟩ := e
    · have hfound : found program[address]? = .ok cell := by rw [hcell, found]
      simp only [line, Except.map, hfound]
      rfl
    · simp only [line, Except.map, Laid.text_ofFetched]
      rfl
  rw [lines, sweep_eq hsize, ok_bind, List.mapM_map]
  exact mapM_eq_ok hline

end Guarded

end Intcode
