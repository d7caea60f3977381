import Intcode.Proofs.Instruction.Digits
import Intcode.Proofs.Instruction.Text
import Intcode.Proofs.Session.Written

/-!
# Reading listings

A program can be told from its listing, but for the digits of its opcode cells that nothing looks
at. Lines are told apart, and each line tells its address and what stands there, so it tells how
many cells it covers. The lines of a listing cover all cells of the program, one after the other.
-/

namespace Intcode

open Text

namespace Entry

variable {e e' : Entry}

/-- Two entries say the same. The cell of an instruction is not a part of what an entry says. -/
inductive Alike : Entry → Entry → Prop
  | code {a : Nat} {c c' : Cell} {i : Fetched} : Alike ⟨a, c, .ok i⟩ ⟨a, c', .ok i⟩
  | data {a : Nat} {c : Cell} {cause cause' : Cause} :
      Alike ⟨a, c, .error cause⟩ ⟨a, c, .error cause'⟩

theorem Alike.width_eq (h : e.Alike e') : e.width = e'.width := by cases h <;> rfl

/-! ## Lines -/

/-- What stands on a line after the address. -/
def body (e : Entry) : String :=
  match e.content with
  | .ok i => i.text
  | .error _ => ".data " ++ e.cell.text

theorem toList_text (e : Entry) : ∃ n, e.text.toList =
    List.replicate n ' ' ++ (Decimal.digits e.address ++ ' ' :: ' ' :: e.body.toList) := by
  refine ⟨6 - (Decimal.digits e.address).length, ?_⟩
  have htext : e.text = Column.right 6 (Decimal.ofNat e.address) ++ "  " ++ e.body := rfl
  simp [htext, Column.right, List.leftpad, Decimal.ofNat_toList, Decimal.digits]

theorem eq_of_text_eq (h : e.text = e'.text) : e.address = e'.address ∧ e.body = e'.body := by
  obtain ⟨n, hn⟩ := e.toList_text
  obtain ⟨n', hn'⟩ := e'.toList_text
  have hspace (a : Nat) : ' ' ∉ Decimal.digits a := Decimal.not_mem_digits rfl a
  -- Leading spaces are taken off both lines; then the address ends at the next space.
  have hstrip (n : Nat) (e : Entry) : (List.replicate n ' ' ++
      (Decimal.digits e.address ++ ' ' :: ' ' :: e.body.toList)).dropWhile (· = ' ') =
        Decimal.digits e.address ++ ' ' :: ' ' :: e.body.toList := by
    obtain ⟨d, ds, hds⟩ := List.exists_cons_of_ne_nil (Decimal.digits_digits e.address).ne_nil
    have hd : d ≠ ' ' := by
      rintro rfl
      exact hspace e.address (hds ▸ List.mem_cons_self)
    rw [List.dropWhile_append_of_pos (by simp), hds, List.cons_append,
      List.dropWhile_cons_of_neg (by simpa using hd)]
  have hsame := congrArg (List.dropWhile (· = ' ')) (congrArg String.toList h)
  rw [hn, hn', hstrip, hstrip] at hsame
  obtain ⟨haddress, hbody⟩ := append_cons_inj hsame (hspace _) (hspace _)
  refine ⟨?_, String.toList_inj.1 (List.cons.inj hbody).2⟩
  rw [← Decimal.worth_digits e.address, haddress, Decimal.worth_digits]

theorem alike_of_text_eq (h : e.text = e'.text) : e.Alike e' := by
  obtain ⟨haddress, hbody⟩ := eq_of_text_eq h
  obtain ⟨a, c, cause | i⟩ := e <;> obtain ⟨a', c', cause' | i'⟩ := e'
  all_goals obtain rfl : a = a' := haddress
  · have hcell : c.text = c'.text := by
      simpa [body, ← String.toList_inj] using hbody
    obtain rfl := Cell.text_injective hcell
    exact .data
  · have hdata : ".data " ++ c.text = i'.text := hbody
    exact absurd hdata.symm i'.text_ne_data
  · have hdata : i.text = ".data " ++ c'.text := hbody
    exact absurd hdata i.text_ne_data
  · obtain rfl := Fetched.text_injective hbody
    exact .code

/-- An entry is one line. -/
theorem newline_not_mem_text (e : Entry) : '\n' ∉ e.text.toList := by
  have hdigits : '\n' ∉ Decimal.digits e.address := Decimal.not_mem_digits rfl e.address
  have hbody : '\n' ∉ e.body.toList := by
    unfold body
    split
    · exact Fetched.newline_not_mem_text _
    · have hcell : '\n' ∉ e.cell.text.toList := Cell.not_mem_text (by decide) (by decide)
      simpa using hcell
  obtain ⟨n, hn⟩ := e.toList_text
  simp [hn, hdigits, hbody]

end Entry

/-! ## The sweep -/

variable {p q : Array Cell} {k : Nat} {e e' : Entry}

theorem Entry.add_width_ofAddress_le (h : k < p.size) :
    k + (Entry.ofAddress p k h).width ≤ p.size := by
  cases hfetch : Fetched.fetch p k with
  | error cause => simpa [Entry.ofAddress, Entry.width, hfetch] using Nat.succ_le_of_lt h
  | ok i =>
      simpa [Entry.ofAddress, Entry.width, hfetch] using
        (Fetched.fetch_eq_ok_iff.1 hfetch).add_width_le

/-- The entries of a listing say what stands in the program. -/
theorem getElem?_and_fetch_of_mem_listing (he : e ∈ listing p k) :
    p[e.address]? = some e.cell ∧ Fetched.fetch p e.address = e.content := by
  fun_induction listing p k with
  | case1 k hk entry ih =>
      obtain rfl | he := List.mem_cons.1 he
      · exact ⟨Array.getElem?_eq_getElem hk, rfl⟩
      · exact ih he
  | case2 => cases he

/-- The entries of a listing cover all the cells up to the end of the program. -/
theorem add_sum_width_listing (hk : k ≤ p.size) :
    k + ((listing p k).map Entry.width).sum = p.size := by
  fun_induction listing p k with
  | case1 k hlt entry ih =>
      have hrest := ih (Entry.add_width_ofAddress_le hlt)
      rw [List.map_cons, List.sum_cons, ← Nat.add_assoc]
      exact hrest
  | case2 k hge => simpa using by omega

/-- Each cell from where a listing starts is covered by an entry. -/
theorem exists_mem_listing {n : Nat} (hk : k ≤ n) (hn : n < p.size) :
    ∃ e ∈ listing p k, e.address ≤ n ∧ n < e.address + e.width := by
  fun_induction listing p k with
  | case1 k hlt entry ih =>
      by_cases hfirst : n < k + entry.width
      · exact ⟨entry, List.mem_cons_self, hk, hfirst⟩
      · obtain ⟨e, he, hcovers⟩ := ih (Nat.le_of_not_lt hfirst)
        exact ⟨e, List.mem_cons_of_mem _ he, hcovers⟩
  | case2 k hge => omega

/-! ## Two programs -/

theorem Fetched.StandsAt.getElem?_eq {i : Fetched} {a : Nat} (h : i.StandsAt p a)
    (h' : i.StandsAt q a) (hlow : a < k) (hhigh : k < a + i.width) : p[k]? = q[k]? := by
  have hk : k - (a + 1) < i.operands.length := by
    rw [length_operands]
    simp only [Instruction.width, Opcode.width] at hhigh
    omega
  have hx : (i.operands[k - (a + 1)], k) ∈ i.operands.zipIdx (a + 1) :=
    List.mk_mem_zipIdx_iff_le_and_getElem?_sub.2 ⟨hlow, List.getElem?_eq_getElem hk⟩
  rw [h.parameters _ hx, h'.parameters _ hx]

/-- The opcode cells of an instruction that stands in two programs have the digits in common that
are looked at. -/
theorem Fetched.StandsAt.emod_eq {i : Fetched} {a : Nat} (h : i.StandsAt p a)
    (h' : i.StandsAt q a) :
    ∃ c c', p[a]? = some c ∧ q[a]? = some c' ∧ 0 ≤ c.toInt ∧ 0 ≤ c'.toInt ∧
      c.toInt % 10 ^ (i.opcode.arity + 2) = c'.toInt % 10 ^ (i.opcode.arity + 2) := by
  obtain ⟨c, s, hc, hs, hopcode, hmodes⟩ := h.shape
  obtain ⟨c', s', hc', hs', hopcode', hmodes'⟩ := h'.shape
  have hsame := Shape.emod_eq_of_decode hs hs' (hopcode.trans hopcode'.symm)
    (hmodes.trans hmodes'.symm)
  rw [hopcode] at hsame
  exact ⟨c, c', hc, hc', (Shape.decode_eq_ok_iff.1 hs).1, (Shape.decode_eq_ok_iff.1 hs').1, hsame⟩

theorem Fetched.fetch_eq_error_of_getElem?_eq {cause : Cause} (hsize : p.size = q.size)
    (hcell : p[k]? = q[k]?) (h : fetch p k = .error cause) : fetch q k = .error cause := by
  rw [fetch_eq_error_iff] at h ⊢
  rwa [← hsize, ← hcell]

/-- What can be told from the values of a function is told by lists that have the same. -/
theorem map_eq_map_of_map_eq_map {α β γ : Type} {f : α → β} {g : α → γ} {l l' : List α}
    (h : l.map f = l'.map f) (hg : ∀ a ∈ l, ∀ a' ∈ l', f a = f a' → g a = g a') :
    l.map g = l'.map g := by
  induction l generalizing l' with
  | nil =>
      obtain rfl := List.map_eq_nil_iff.1 h.symm
      rfl
  | cons a l ih =>
      obtain _ | ⟨a', l'⟩ := l'
      · cases h
      obtain ⟨hhead, htail⟩ := List.cons.inj h
      rw [List.map_cons, List.map_cons, hg a List.mem_cons_self a' List.mem_cons_self hhead,
        ih htail fun b hb b' hb' ↦ hg b (List.mem_cons_of_mem _ hb) b' (List.mem_cons_of_mem _ hb')]

section Lines

variable (h : (listing p 0).map Entry.text = (listing q 0).map Entry.text)
include h

theorem size_eq_of_lines_eq : p.size = q.size := by
  have hwidths : (listing p 0).map Entry.width = (listing q 0).map Entry.width :=
    map_eq_map_of_map_eq_map h fun _ _ _ _ htext ↦ (Entry.alike_of_text_eq htext).width_eq
  have hp := add_sum_width_listing (Nat.zero_le p.size)
  have hq := add_sum_width_listing (Nat.zero_le q.size)
  rw [← hp, ← hq, hwidths]

theorem exists_alike_of_lines_eq (he : e ∈ listing p 0) : ∃ e' ∈ listing q 0, e.Alike e' := by
  have hmem : e.text ∈ (listing q 0).map Entry.text := h ▸ List.mem_map_of_mem he
  obtain ⟨e', he', htext⟩ := List.mem_map.1 hmem
  exact ⟨e', he', Entry.alike_of_text_eq htext.symm⟩

theorem getElem?_eq_of_content_eq_error {cause : Cause} (he : e ∈ listing p 0)
    (hcause : e.content = .error cause) : p[e.address]? = q[e.address]? := by
  obtain ⟨e', he', halike⟩ := exists_alike_of_lines_eq h he
  obtain ⟨hp, -⟩ := getElem?_and_fetch_of_mem_listing he
  obtain ⟨hq, -⟩ := getElem?_and_fetch_of_mem_listing he'
  cases halike with
  | code => cases hcause
  | data => exact hp.trans hq.symm

theorem standsAt_of_content_eq_ok {i : Fetched} (he : e ∈ listing p 0) (hi : e.content = .ok i) :
    i.StandsAt p e.address ∧ i.StandsAt q e.address := by
  obtain ⟨e', he', halike⟩ := exists_alike_of_lines_eq h he
  obtain ⟨-, hp⟩ := getElem?_and_fetch_of_mem_listing he
  obtain ⟨-, hq⟩ := getElem?_and_fetch_of_mem_listing he'
  cases halike with
  | code =>
      cases hi
      exact ⟨Fetched.fetch_eq_ok_iff.1 hp, Fetched.fetch_eq_ok_iff.1 hq⟩
  | data => cases hi

/-- Also the causes for which cells start no instruction are the same. -/
theorem entries_eq_of_lines_eq : (listing p 0).map (fun e ↦ (e.address, e.content)) =
    (listing q 0).map fun e ↦ (e.address, e.content) := by
  refine map_eq_map_of_map_eq_map h fun e he e' he' htext ↦ ?_
  obtain ⟨hp, hfetch⟩ := getElem?_and_fetch_of_mem_listing he
  obtain ⟨hq, hfetch'⟩ := getElem?_and_fetch_of_mem_listing he'
  cases Entry.alike_of_text_eq htext with
  | code => rfl
  | data =>
      have hsame := Fetched.fetch_eq_error_of_getElem?_eq (size_eq_of_lines_eq h)
        (hp.trans hq.symm) hfetch
      rw [hfetch'] at hsame
      rw [hsame]

/-- A cell in which the programs differ is one from which an instruction is decoded. -/
theorem exists_standsAt_of_ne (hk : p[k]? ≠ q[k]?) :
    ∃ e ∈ listing p 0, e.address = k ∧ ∃ i, e.content = .ok i := by
  have hlt : k < p.size := by
    by_contra hge
    have hge' : q.size ≤ k := size_eq_of_lines_eq h ▸ Nat.le_of_not_lt hge
    rw [Array.getElem?_eq_none (Nat.le_of_not_lt hge), Array.getElem?_eq_none hge'] at hk
    exact hk rfl
  obtain ⟨e, he, hlow, hhigh⟩ := exists_mem_listing (Nat.zero_le k) hlt
  cases hcontent : e.content with
  | error cause =>
      have hwidth : e.width = 1 := by simp only [Entry.width, hcontent]
      obtain rfl : k = e.address := by omega
      exact absurd (getElem?_eq_of_content_eq_error h he hcontent) hk
  | ok i =>
      have hwidth : e.width = i.width := by simp only [Entry.width, hcontent]
      obtain ⟨hp, hq⟩ := standsAt_of_content_eq_ok h he hcontent
      obtain heq | hlow := Nat.eq_or_lt_of_le hlow
      · exact ⟨e, he, heq, i, hcontent⟩
      · exact absurd (hp.getElem?_eq hq hlow (hwidth ▸ hhigh)) hk

end Lines

/-- What two programs have in common. -/
structure ListedAlike (p q : Array Cell) : Prop where
  size : p.size = q.size
  /-- The same stands at the same addresses, -/
  entries : (listing p 0).map (fun e ↦ (e.address, e.content)) =
    (listing q 0).map fun e ↦ (e.address, e.content)
  /-- with the same parameters, -/
  parameter : ∀ e ∈ listing p 0, ∀ i, e.content = .ok i →
    ∀ k, e.address < k → k < e.address + i.width → p[k]? = q[k]?
  /-- and the same data. -/
  data : ∀ e ∈ listing p 0, ∀ cause, e.content = .error cause → p[e.address]? = q[e.address]?
  /-- If there is a difference, then in the digits of an opcode cell that are not looked at. -/
  differ : ∀ k, p[k]? ≠ q[k]? → ∃ e ∈ listing p 0, e.address = k ∧ ∃ i, e.content = .ok i ∧
    ∃ c c', p[k]? = some c ∧ q[k]? = some c' ∧ 0 ≤ c.toInt ∧ 0 ≤ c'.toInt ∧
      c.toInt % 10 ^ (i.opcode.arity + 2) = c'.toInt % 10 ^ (i.opcode.arity + 2)

/-- What a listing writes. -/
theorem Event.gather_stdout_entries (entries : List Entry) :
    gather stdout (entries.map .entry) = unlines (entries.map Entry.text) := by
  simp only [gather, unlines, List.map_map]
  rfl

/-- Programs that are listed with the same text are listed alike, and no two instructions have the
same text. -/
theorem listing_faithful
    (h : Event.gather Event.stdout ((listing p 0).map .entry) =
      Event.gather Event.stdout ((listing q 0).map .entry)) :
    ListedAlike p q ∧ Function.Injective Fetched.text := by
  have hnewline (cells : Array Cell) :
      ∀ line ∈ (listing cells 0).map Entry.text, '\n' ∉ line.toList := by
    intro line hline
    obtain ⟨e, -, rfl⟩ := List.mem_map.1 hline
    exact e.newline_not_mem_text
  rw [Event.gather_stdout_entries, Event.gather_stdout_entries] at h
  have hlines := eq_of_unlines_eq h (hnewline p) (hnewline q)
  refine ⟨?_, Fetched.text_injective⟩
  constructor
  case size => exact size_eq_of_lines_eq hlines
  case entries => exact entries_eq_of_lines_eq hlines
  case parameter =>
    intro e he i hi k hlow hhigh
    obtain ⟨hp, hq⟩ := standsAt_of_content_eq_ok hlines he hi
    exact hp.getElem?_eq hq hlow hhigh
  case data => exact fun e he cause ↦ getElem?_eq_of_content_eq_error hlines he
  case differ =>
    intro k hk
    obtain ⟨e, he, rfl, i, hi⟩ := exists_standsAt_of_ne hlines hk
    obtain ⟨hp, hq⟩ := standsAt_of_content_eq_ok hlines he hi
    exact ⟨e, he, rfl, i, hi, hp.emod_eq hq⟩

/-- The digits above the mode digit of the opcode `04` are not listed. -/
theorem listing_faithful_of_padding :
    ListedAlike #[90004, 5, 42] #[4, 5, 42] ∧ (#[90004, 5, 42] : Array Cell) ≠ #[4, 5, 42] := by
  have hsame : Event.gather Event.stdout ((listing #[90004, 5, 42] 0).map .entry) =
      Event.gather Event.stdout ((listing #[4, 5, 42] 0).map .entry) := by decide +kernel
  exact ⟨(listing_faithful hsame).1, by decide⟩

end Intcode
