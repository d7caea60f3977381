import Intcode.Proofs.Instruction.Decoding
import Intcode.Proofs.Listing.Tiling
import Intcode.Proofs.Machine.Reload

/-!
# What is fetched from a program and from memory

Memory is the program with zeros after it, so it says the same as the program wherever the program
says something: an instruction that stands in the program stands in memory, and a cell that is no
opcode cell is none there either. Only where the program ends too early can memory say more. This
compares the listing of a program, which is made without a machine, with what the machine comes to
execute.
-/

namespace Intcode

namespace Cell

theorem toInt_ofAddress_of_lt {n : Nat} (h : n < 2 ^ 63) : (ofAddress n).toInt = n :=
  Int64.toInt_ofNat_of_lt h

end Cell

namespace Fetched

/-- The parameters of an instruction, in the three places that it has for them. A place that its
opcode does not use holds zero. -/
def slots (i : Fetched) (k : Fin 3) : Cell := (i.operands[k.val]?.map (·.parameter)).getD 0

/-- The instruction has the opcode and the modes of the shape `s`, and the cells after `pointer` as
its parameters. -/
structure MadeOf (cells : Array Cell) (pointer : Nat) (s : Shape) (i : Fetched) : Prop where
  opcode : i.opcode = s.opcode
  modes : i.operands.map (·.mode) = s.modes
  used : ∀ k : Fin 3, k < s.opcode.arity → cells[pointer + 1 + k]? = some (i.slots k)
  unused : ∀ k : Fin 3, s.opcode.arity ≤ k → i.slots k = 0

/-- What is fetched from the cells at `pointer`. -/
structure FetchedFrom (cells : Array Cell) (pointer : Nat) (result : Except Cause Fetched) :
    Prop where
  /-- An instruction is fetched exactly if an opcode cell is there with all its parameters, -/
  isOk_iff : (∃ i, result = .ok i) ↔
    ∃ cell s, cells[pointer]? = some cell ∧ Shape.decode cell = .ok s ∧
      pointer + s.width ≤ cells.size
  /-- and it is made of them. -/
  madeOf : ∀ i cell s, result = .ok i → cells[pointer]? = some cell → Shape.decode cell = .ok s →
    i.MadeOf cells pointer s
  /-- A cell that is no opcode cell is at fault for itself, whatever is after it, -/
  undecoded : ∀ cell cause, cells[pointer]? = some cell → Shape.decode cell = .error cause →
    result = .error cause
  /-- a pointer without a cell for itself, -/
  missing : cells.size ≤ pointer → result = .error (.addressOutOfRange (.ofAddress pointer))
  /-- and parameters that are cut off for the first cell that is not there. -/
  cutOff : ∀ cell s, cells[pointer]? = some cell → Shape.decode cell = .ok s →
    cells.size < pointer + s.width →
    result = .error (.addressOutOfRange (.ofAddress cells.size))

/-- The instruction with three places for modes and parameters is what the cells at `pointer` say:
the one there has its opcode and its modes, the ones after it are its parameters, and the places
that are left hold zeros. -/
structure LaidFrom (cells : Array Cell) (pointer : Nat) (i : Laid) : Prop where
  shape : ∃ cell, cells[pointer]? = some cell ∧ Shape.Says cell i.opcode i.modes.get
  used : ∀ k : Fin 3, k < i.opcode.arity → cells[pointer + 1 + k]? = some (i.parameters.get k)
  unused : ∀ k : Fin 3, i.opcode.arity ≤ k → i.parameters.get k = 0

variable {cells : Array Cell} {pointer : Nat} {i : Fetched}

theorem StandsAt.madeOf {cell : Cell} {s : Shape} (h : i.StandsAt cells pointer)
    (hcell : cells[pointer]? = some cell) (hs : Shape.decode cell = .ok s) :
    i.MadeOf cells pointer s := by
  obtain ⟨⟨cell', s', hcell', hs', hopcode, hmodes⟩, hparameters⟩ := h
  cases hcell.symm.trans hcell'
  cases hs.symm.trans hs'
  refine ⟨hopcode.symm, hmodes.symm, fun k hk ↦ ?_, fun k hk ↦ ?_⟩
  · rw [hopcode, ← length_operands] at hk
    have hx : (i.operands[k.val], pointer + 1 + k) ∈ i.operands.zipIdx (pointer + 1) :=
      List.mk_mem_zipIdx_iff_le_and_getElem?_sub.2 ⟨by omega, by simp [hk]⟩
    rw [hparameters _ hx, slots, List.getElem?_eq_getElem hk]
    rfl
  · rw [hopcode, ← length_operands] at hk
    rw [slots, List.getElem?_eq_none hk]
    rfl

theorem fetchedFrom_fetch (cells : Array Cell) (pointer : Nat) :
    FetchedFrom cells pointer (fetch cells pointer) := by
  constructor
  case isOk_iff =>
    constructor
    · rintro ⟨i, hi⟩
      have hstands := fetch_eq_ok_iff.1 hi
      obtain ⟨cell, s, hcell, hs, hopcode, -⟩ := hstands.shape
      have hwidth : s.width = i.width := congrArg Opcode.width hopcode
      exact ⟨cell, s, hcell, hs, hwidth ▸ hstands.add_width_le⟩
    · rintro ⟨cell, s, hcell, hs, hwidth⟩
      cases hf : fetch cells pointer with
      | ok i => exact ⟨i, rfl⟩
      | error cause =>
          obtain ⟨hlt, -⟩ := Array.getElem?_eq_some_iff.1 hcell
          obtain ⟨hge, -⟩ | ⟨cell', hcell', herror⟩ | ⟨cell', s', hcell', hs', hshort, -⟩ :=
            fetch_eq_error_iff.1 hf
          · omega
          · cases hcell.symm.trans hcell'
            cases hs.symm.trans herror
          · cases hcell.symm.trans hcell'
            cases hs.symm.trans hs'
            omega
  case madeOf => exact fun i cell s hi ↦ (fetch_eq_ok_iff.1 hi).madeOf
  case undecoded =>
    exact fun cell cause hcell hcause ↦ fetch_eq_error_iff.2 (.inr (.inl ⟨cell, hcell, hcause⟩))
  case missing => exact fun h ↦ fetch_eq_error_iff.2 (.inl ⟨h, rfl⟩)
  case cutOff =>
    exact fun cell s hcell hs hshort ↦
      fetch_eq_error_iff.2 (.inr (.inr ⟨cell, s, hcell, hs, hshort, rfl⟩))

theorem get_modes_ofFetched {s : Shape} (h : i.operands.map (·.mode) = s.modes) :
    (Laid.ofFetched i).modes.get = s.places := by
  funext k
  rw [Shape.places, ← h]
  exact Laid.get_places _ _ k

theorem get_parameters_ofFetched (i : Fetched) : (Laid.ofFetched i).parameters.get = i.slots := by
  funext k
  rw [slots, ← List.getElem?_map]
  exact Laid.get_places _ _ k

/-- The parameters end where the cells do, or before. -/
theorem LaidFrom.add_width_le {i : Laid} (h : LaidFrom cells pointer i) :
    pointer + i.opcode.width ≤ cells.size := by
  rw [Opcode.width]
  obtain ⟨cell, hcell, -⟩ := h.shape
  obtain ⟨hlt, -⟩ := Array.getElem?_eq_some_iff.1 hcell
  have hle : i.opcode.arity ≤ 3 := by cases i.opcode <;> simp [Opcode.arity]
  obtain hnone | hsome := Nat.eq_zero_or_pos i.opcode.arity
  · omega
  · have hlast := h.used ⟨i.opcode.arity - 1, by omega⟩ (Nat.sub_lt hsome Nat.one_pos)
    obtain ⟨hlt, -⟩ := Array.getElem?_eq_some_iff.1 hlast
    simp only at hlt
    omega

theorem LaidFrom.ofFetched_eq {i : Laid} {f : Fetched} {s : Shape} (h : LaidFrom cells pointer i)
    (hf : f.MadeOf cells pointer s) (hopcode : s.opcode = i.opcode)
    (hplaces : s.places = i.modes.get) : Laid.ofFetched f = i := by
  have hmodes : (Laid.ofFetched f).modes.get = i.modes.get :=
    (get_modes_ofFetched hf.modes).trans hplaces
  have hparameters : (Laid.ofFetched f).parameters.get = i.parameters.get := by
    rw [get_parameters_ofFetched]
    funext k
    obtain hk | hk := Nat.lt_or_ge k s.opcode.arity
    · have hfirst := hf.used k hk
      rw [h.used k (hopcode ▸ hk)] at hfirst
      exact (Option.some.inj hfirst).symm
    · exact (hf.unused k hk).trans (h.unused k (hopcode ▸ hk)).symm
  exact Laid.ext (hf.opcode.trans hopcode) (Vector.ext fun k hk ↦ congrFun hmodes ⟨k, hk⟩)
    (Vector.ext fun k hk ↦ congrFun hparameters ⟨k, hk⟩)

/-- An instruction fetched in three places is what the cells say, place by place. -/
theorem run_fetch_eq_ok_iff (hsize : cells.size < UInt64.size) {i : Laid} :
    (Guarded.fetch cells pointer).run = .ok (.ok i) ↔ LaidFrom cells pointer i := by
  rw [Guarded.fetch_eq hsize]
  constructor
  · intro h
    cases hf : fetch cells pointer with
    | error cause => simp [hf, Except.map] at h
    | ok f =>
        obtain rfl : Laid.ofFetched f = i := by simpa [hf, Except.map] using h
        have hstands := fetch_eq_ok_iff.1 hf
        obtain ⟨cell, s, hcell, hs, hopcode, hmodes⟩ := hstands.shape
        have hmade := hstands.madeOf hcell hs
        refine ⟨⟨cell, hcell, Shape.exists_decode_iff_says.1 ⟨s, hs, hopcode, ?_⟩⟩,
          fun k hk ↦ ?_, fun k hk ↦ ?_⟩
        · exact (get_modes_ofFetched hmade.modes).symm
        · rw [get_parameters_ofFetched]
          exact hmade.used k (hopcode ▸ hk)
        · rw [get_parameters_ofFetched]
          exact hmade.unused k (hopcode ▸ hk)
  · intro h
    obtain ⟨cell, hcell, hcellSays⟩ := h.shape
    obtain ⟨s, hs, hopcode, hplaces⟩ := Shape.exists_decode_iff_says.2 hcellSays
    have hwidth : pointer + s.width ≤ cells.size := by
      rw [Instruction.width, hopcode]
      exact h.add_width_le
    have hfetched := fetchedFrom_fetch cells pointer
    obtain ⟨f, hf⟩ := hfetched.isOk_iff.2 ⟨cell, s, hcell, hs, hwidth⟩
    have hmade := hfetched.madeOf f cell s hf hcell hs
    have hsame : Laid.ofFetched f = i := h.ofFetched_eq hmade hopcode hplaces
    rw [hf, Except.map, hsame]

end Fetched

/-! ## Listed and loaded -/

namespace Entry

/-- The entry says what its cell is: the opcode cell of the instruction that it has, or none at
all. -/
def Settled (e : Entry) : Prop :=
  (∃ i, e.content = .ok i) ∨ ∃ cause, Shape.decode e.cell = .error cause ∧ e.content = .error cause

variable {cells : Array Cell} {start : Nat} {e : Entry}

theorem settled_or_cutOff (he : e ∈ listing cells start) : e.Settled ∨ e.CutOff cells := by
  cases hcontent : e.content with
  | ok i => exact .inl (.inl ⟨i, hcontent⟩)
  | error cause =>
      refine (decode_eq_error_or_cutOff he hcontent).imp_left fun hcause ↦ ?_
      exact .inr ⟨cause, hcause, hcontent⟩

theorem Settled.fetch_append (h : e.Settled) (he : e ∈ listing cells start) (more : Array Cell) :
    Fetched.fetch (cells ++ more) e.address = e.content := by
  obtain ⟨-, hfetch⟩ := getElem?_and_fetch_of_mem_listing he
  rw [← hfetch]
  refine Fetched.fetch_append (fun a ha ↦ ?_) more
  rw [hfetch] at ha
  obtain ⟨i, hi⟩ | ⟨cause, hcause, hcontent⟩ := h
  · cases hi.symm.trans ha
  · cases hcontent.symm.trans ha
    obtain hunknown | ⟨_, hmode⟩ := Shape.decode_eq_error hcause
    · cases hunknown
    · cases hmode

end Entry

/-- An instruction is fetched exactly where an opcode cell stands with all its parameters, and it
has them in order. Else the fault is that of the cell at the pointer if there is one that says
nothing, and for the rest the first cell that is not there, which is told by its number. More cells
at the end change nothing about it, unless it was such a cell that was missing. So a machine fetches
from a program what the listing shows for it, but perhaps where the program ends before an
instruction does. -/
theorem Fetched.fetch_exact_and_stable (cells : Array Cell) :
    (∀ pointer, FetchedFrom cells pointer (fetch cells pointer)) ∧
    (cells.size < 2 ^ 63 → (Cell.ofAddress cells.size).toInt = cells.size) ∧
    (∀ pointer more, (∀ a, fetch cells pointer ≠ .error (.addressOutOfRange a)) →
      fetch (cells ++ more) pointer = fetch cells pointer) ∧
    (∀ config : Config, cells.size ≤ config.capacity →
      ∃ m, Machine.load cells config = .ok m ∧ ∀ start, ∀ e ∈ listing cells start,
        (e.Settled → { m with pointer := e.address }.fetch = e.content) ∧
        ({ m with pointer := e.address }.fetch ≠ e.content → e.CutOff cells)) ∧
    (cells.size < UInt64.size → ∀ pointer i,
      (Guarded.fetch cells pointer).run = .ok (.ok i) ↔ LaidFrom cells pointer i) := by
  refine ⟨fetchedFrom_fetch cells, Cell.toInt_ofAddress_of_lt, ?_, ?_,
    fun hsize _ _ ↦ run_fetch_eq_ok_iff hsize⟩
  · exact fun pointer more h ↦ fetch_append h more
  · intro config hfits
    refine ⟨_, Machine.load_of_le hfits, fun start e he ↦ ?_⟩
    have hzeros (h : e.Settled) :=
      h.fetch_append he (Array.replicate (config.capacity - cells.size) 0)
    exact ⟨hzeros, fun hne ↦ (Entry.settled_or_cutOff he).resolve_left fun h ↦ hne (hzeros h)⟩

/-- A value is put out, a cell is no opcode cell, and an addition lacks two of its parameters. -/
def unfinished : Array Cell := #[104, 7, 42, 1101, 4]

/-- Memory has the missing parameters of the addition, so it is fetched from there, and its entry is
the one that is different. The output before it leaves two places as they are. -/
theorem Fetched.fetch_exact_and_stable_of_unfinished :
    fetch unfinished 3 = .error (.addressOutOfRange (.ofAddress unfinished.size)) ∧
    (Cell.ofAddress unfinished.size).toInt = 5 ∧
    fetch (unfinished ++ #[0, 0]) 2 = .error (.unknownOpcode 42) ∧
    (Guarded.fetch unfinished 0).run =
      .ok (.ok ⟨.output, #v[.immediate, .position, .position], #v[7, 0, 0]⟩) ∧
    ∃ m, Machine.load unfinished { capacity := 7 } = .ok m ∧
      { m with pointer := 3 }.fetch =
        .ok (.binary .add ⟨.immediate, 4⟩ ⟨.immediate, 0⟩ ⟨.position, 0⟩) ∧
      ∃ e ∈ listing unfinished 0, e.address = 3 ∧ e.CutOff unfinished := by
  have hlisting : listing unfinished 0 =
      [⟨0, 104, .ok (.output ⟨.immediate, 7⟩)⟩, ⟨2, 42, .error (.unknownOpcode 42)⟩,
        ⟨3, 1101, .error (.addressOutOfRange 5)⟩, ⟨4, 4, .error (.addressOutOfRange 5)⟩] := by cbv
  have hmem : ⟨3, 1101, .error (.addressOutOfRange 5)⟩ ∈ listing unfinished 0 := by simp [hlisting]
  have hlaid : LaidFrom unfinished 0
      ⟨.output, #v[.immediate, .position, .position], #v[7, 0, 0]⟩ :=
    ⟨⟨104, rfl, by decide, by decide, by decide, by decide⟩, by decide, by decide⟩
  obtain ⟨hexact, hnumber, hstable, hload, hthree⟩ := fetch_exact_and_stable unfinished
  obtain ⟨m, hm, hlisted⟩ := hload { capacity := 7 } (by decide)
  have hfetch : { m with pointer := 3 }.fetch =
      .ok (.binary .add ⟨.immediate, 4⟩ ⟨.immediate, 0⟩ ⟨.position, 0⟩) := by
    cases hm
    rfl
  have hunknown : fetch unfinished 2 = .error (.unknownOpcode 42) := by rfl
  refine ⟨(hexact 3).cutOff 1101 _ rfl rfl (by decide), hnumber (by decide), ?_,
    (hthree (by decide) 0 _).2 hlaid, m, hm, hfetch, _, hmem, rfl, ?_⟩
  · exact (hstable 2 #[0, 0] (by simp [hunknown])).trans hunknown
  · refine (hlisted 0 _ hmem).2 fun hsame ↦ ?_
    cases hsame.symm.trans hfetch

end Intcode
