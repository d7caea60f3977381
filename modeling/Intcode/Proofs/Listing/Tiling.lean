import Intcode.Proofs.Listing
import Mathlib.Data.List.Chain

/-!
# Listings tile the program

Where an entry of a listing starts is decided by what stands in the cells before it. Still the
entries lie side by side: each one starts where the one before it ends, and the last one ends with
the program, because an instruction that is cut off by the end counts for one cell only. `Tiles`
says so of a list of entries, and what follows from it is shown by induction along the list.
-/

namespace Intcode

namespace Entry

/-- The cell with index `n` belongs to the entry. -/
def Covers (e : Entry) (n : Nat) : Prop := e.address ≤ n ∧ n < e.address + e.width

/-- An instruction starts in the cell of the entry, but the program ends before its parameters
do. -/
def CutOff (cells : Array Cell) (e : Entry) : Prop :=
  ∃ s, Shape.decode e.cell = .ok s ∧ cells.size < e.address + s.width ∧
    e.content = .error (.addressOutOfRange (.ofAddress cells.size))

end Entry

/-- The entries lie side by side, from `start` on and up to `stop`. -/
inductive Tiles : Nat → Nat → List Entry → Prop
  | nil {stop : Nat} : Tiles stop stop []
  | cons {start stop : Nat} {e : Entry} {entries : List Entry} (starts : e.address = start)
      (rest : Tiles (start + e.width) stop entries) : Tiles start stop (e :: entries)

variable {cells : Array Cell} {start stop n : Nat} {e e' : Entry} {entries : List Entry}

/-! ## Side by side -/

namespace Tiles

theorem start_le (h : Tiles start stop entries) : start ≤ stop := by
  induction h with
  | nil => exact Nat.le_refl _
  | cons _ _ ih => exact Nat.le_of_add_right_le ih

theorem address_of_mem_head? (h : Tiles start stop entries) (he : e ∈ entries.head?) :
    e.address = start := by
  cases h with
  | nil => cases he
  | cons hstart =>
      cases he
      exact hstart

theorem isChain (h : Tiles start stop entries) :
    entries.IsChain fun e e' ↦ e'.address = e.address + e.width := by
  induction h with
  | nil => exact .nil
  | cons hstart rest ih =>
      cases rest with
      | nil => exact .singleton _
      | cons hnext =>
          rw [← hstart] at hnext
          exact .cons_cons hnext ih

theorem add_width_of_mem_getLast? (h : Tiles start stop entries) (he : e ∈ entries.getLast?) :
    e.address + e.width = stop := by
  induction h with
  | nil => cases he
  | cons hstart rest ih =>
      cases rest with
      | nil =>
          obtain rfl : _ = e := Option.some.inj he
          rw [List.getLast_singleton, hstart]
      | cons =>
          rw [List.getLast?_cons_cons] at he
          exact ih he

theorem le_of_mem (h : Tiles start stop entries) (he : e ∈ entries) :
    start ≤ e.address ∧ e.address + e.width ≤ stop := by
  induction h with
  | nil => cases he
  | cons hstart rest ih =>
      obtain rfl | he := List.mem_cons.1 he
      · exact ⟨Nat.le_of_eq hstart.symm, hstart ▸ rest.start_le⟩
      · obtain ⟨hlow, hhigh⟩ := ih he
        exact ⟨Nat.le_of_add_right_le hlow, hhigh⟩

theorem eq_of_covers (h : Tiles start stop entries) (he : e ∈ entries) (he' : e' ∈ entries)
    (hn : e.Covers n) (hn' : e'.Covers n) : e = e' := by
  obtain ⟨hlow, hhigh⟩ := hn
  obtain ⟨hlow', hhigh'⟩ := hn'
  induction h with
  | nil => cases he
  | cons hstart rest ih =>
      -- What comes after the first entry lies beyond its cells.
      obtain heq | he := List.mem_cons.1 he <;> obtain heq' | he' := List.mem_cons.1 he'
      · exact heq.trans heq'.symm
      · have hbeyond := (rest.le_of_mem he').1
        subst heq
        omega
      · have hbeyond := (rest.le_of_mem he).1
        subst heq'
        omega
      · exact ih he he'

end Tiles

/-! ## The sweep -/

theorem listing_eq_nil_iff : listing cells start = [] ↔ cells.size ≤ start := by
  unfold listing
  split
  · rename_i hlt
    simpa using hlt
  · rename_i hge
    simpa using hge

theorem tiles_listing (h : start ≤ cells.size) : Tiles start cells.size (listing cells start) := by
  fun_induction listing cells start with
  | case1 start hlt entry ih => exact .cons rfl (ih (Entry.add_width_ofAddress_le hlt))
  | case2 start hge =>
      obtain rfl : start = cells.size := by omega
      exact .nil

theorem listing_of_lt (h : start < cells.size) :
    listing cells start = Entry.ofAddress cells start h ::
      listing cells (start + (Entry.ofAddress cells start h).width) := by
  rw [listing, dif_pos h]

theorem lt_size_of_mem_listing (he : e ∈ listing cells start) : start < cells.size := by
  by_contra hge
  rw [listing_eq_nil_iff.2 (Nat.le_of_not_lt hge)] at he
  cases he

/-- A sweep goes on from an entry as if it started there. -/
theorem listing_of_eq_append {before after : List Entry}
    (h : listing cells start = before ++ e :: after) : listing cells e.address = e :: after := by
  have hinside {start : Nat} {before : List Entry}
      (h : listing cells start = before ++ e :: after) : start < cells.size := by
    have he : e ∈ listing cells start := by simp [h]
    exact lt_size_of_mem_listing he
  induction before generalizing start with
  | nil =>
      have hstart : e.address = start :=
        (tiles_listing (Nat.le_of_lt (hinside h))).address_of_mem_head? (by simp [h])
      rw [hstart]
      exact h
  | cons first before ih =>
      have hlt : start < cells.size := hinside h
      rw [listing_of_lt hlt] at h
      exact ih (List.cons.inj h).2

/-- A cell in which no instruction starts is no opcode cell, or it is the one of an instruction
that is cut off. -/
theorem decode_eq_error_or_cutOff {cause : Cause} (he : e ∈ listing cells start)
    (hcause : e.content = .error cause) :
    Shape.decode e.cell = .error cause ∨ e.CutOff cells := by
  obtain ⟨hcell, hfetch⟩ := getElem?_and_fetch_of_mem_listing he
  obtain ⟨hlt, -⟩ := Array.getElem?_eq_some_iff.1 hcell
  rw [hcause] at hfetch
  obtain ⟨hge, -⟩ | ⟨cell, hc, hd⟩ | ⟨cell, s, hc, hs, hshort, rfl⟩ :=
    Fetched.fetch_eq_error_iff.1 hfetch
  · exact absurd hlt (Nat.not_lt_of_le hge)
  · cases hcell.symm.trans hc
    exact .inl hd
  · cases hcell.symm.trans hc
    exact .inr ⟨s, hs, hshort, hcause⟩

theorem Opcode.width_le (op : Opcode) : op.width ≤ 4 := by
  cases op <;> simp [width, arity]

/-- No instruction takes more than four cells, so only the last three can start one that is cut
off. -/
theorem Entry.CutOff.size_le (h : e.CutOff cells) : cells.size ≤ e.address + 3 := by
  obtain ⟨s, -, hshort, -⟩ := h
  have hwidth : s.width ≤ 4 := s.opcode.width_le
  omega

/-- The entries are those of a sweep over the cells from `start` on. -/
structure Sweeps (cells : Array Cell) (start : Nat) (entries : List Entry) : Prop where
  /-- There are none if there is nothing to sweep over. -/
  eq_nil_iff : entries = [] ↔ cells.size ≤ start
  /-- Each one tells what is fetched from its cell. -/
  fetched : ∀ e ∈ entries, cells[e.address]? = some e.cell ∧
    Fetched.fetch cells e.address = e.content
  /-- The first one starts at `start`, -/
  first : ∀ e ∈ entries.head?, e.address = start
  /-- each other one starts where the one before it ends, -/
  next : entries.IsChain fun e e' ↦ e'.address = e.address + e.width
  /-- and the last one ends with the cells. -/
  last : ∀ e ∈ entries.getLast?, e.address + e.width = cells.size
  /-- So each cell belongs to one of them, and to one only, -/
  cover : ∀ n, start ≤ n → n < cells.size → ∃! e, e ∈ entries ∧ e.Covers n
  /-- and none of them has other cells. -/
  within : ∀ e ∈ entries, ∀ n, e.Covers n → start ≤ n ∧ n < cells.size
  /-- The sweep from one of them has that one and those after it. -/
  tail : ∀ before e after, entries = before ++ e :: after → listing cells e.address = e :: after
  /-- One without an instruction is no opcode cell, or its instruction is cut off; and that can only
  be near the end. -/
  failed : ∀ e ∈ entries, ∀ cause, e.content = .error cause →
    Shape.decode e.cell = .error cause ∨
      cause = .addressOutOfRange (.ofAddress cells.size) ∧ cells.size ≤ e.address + 3

/-- A listing comes to an end, whatever the cells and wherever it starts, and its entries tile the
cells from there on. -/
theorem listing_sweeps (cells : Array Cell) (start : Nat) :
    Sweeps cells start (listing cells start) := by
  have htiles {e : Entry} (he : e ∈ listing cells start) :
      Tiles start cells.size (listing cells start) :=
    tiles_listing (Nat.le_of_lt (lt_size_of_mem_listing he))
  constructor
  case eq_nil_iff => exact listing_eq_nil_iff
  case fetched => exact fun e he ↦ getElem?_and_fetch_of_mem_listing he
  case first => exact fun e he ↦ (htiles (List.mem_of_mem_head? he)).address_of_mem_head? he
  case next =>
    obtain hnil | hne := Decidable.em (listing cells start = [])
    · rw [hnil]
      exact .nil
    · exact (htiles (List.head_mem hne)).isChain
  case last =>
    exact fun e he ↦ (htiles (List.mem_of_mem_getLast? he)).add_width_of_mem_getLast? he
  case cover =>
    intro n hlow hhigh
    obtain ⟨e, he, hcovers⟩ := exists_mem_listing hlow hhigh
    exact ⟨e, ⟨he, hcovers⟩, fun e' h ↦ (htiles he).eq_of_covers h.1 he h.2 hcovers⟩
  case within =>
    intro e he n hn
    obtain ⟨hlow, hhigh⟩ := (htiles he).le_of_mem he
    exact ⟨Nat.le_trans hlow hn.1, Nat.lt_of_lt_of_le hn.2 hhigh⟩
  case tail => exact fun before e after ↦ listing_of_eq_append
  case failed =>
    intro e he cause hcause
    refine (decode_eq_error_or_cutOff he hcause).imp_right fun hcut ↦ ⟨?_, hcut.size_le⟩
    obtain ⟨_, -, -, hcontent⟩ := hcut
    rw [hcontent] at hcause
    exact (Except.error.inj hcause).symm

/-- A value that is no opcode, and an addition that is cut off. -/
example : (listing #[104, 7, 42, 1101, 4] 0).map (fun e ↦ (e.address, e.width)) =
    [(0, 2), (2, 1), (3, 1), (4, 1)] := by decide +kernel

end Intcode
