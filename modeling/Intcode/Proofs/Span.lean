import Intcode.Proofs.Text.Size
import Intcode.Proofs.Text.Trim
import Intcode.Span

/-!
# The grammar of spans

Which texts are spans, and what is wrong with the others. A text is cut at its first two dots,
wherever else it has dots, and both pieces must be sizes with blanks around them. The pieces are
judged from left to right, and only a text with two sizes can run backwards.
-/

namespace Intcode.Span

open Decimal Text

/-- The text has two dots side by side after `before`, and none before these. -/
structure FirstDots (cs before after : List Char) : Prop where
  eq_append : cs = before ++ '.' :: '.' :: after
  first : ∀ before' after', cs = before' ++ '.' :: '.' :: after' → before.length ≤ before'.length

variable {cs before after : List Char} {a b : Nat} {span : Span}

/-! ## The first two dots -/

theorem FirstDots.unique {before' after' : List Char} (h : FirstDots cs before after)
    (h' : FirstDots cs before' after') : before = before' ∧ after = after' := by
  have hlength : before.length = before'.length :=
    Nat.le_antisymm (h.first _ _ h'.eq_append) (h'.first _ _ h.eq_append)
  obtain ⟨hbefore, hafter⟩ := List.append_inj (h.eq_append.symm.trans h'.eq_append) hlength
  exact ⟨hbefore, by simpa using hafter⟩

/-- A text with two dots side by side is cut there or further left. -/
theorem exists_splitDots_eq (before after : List Char) :
    ∃ before' after', splitDots (before ++ '.' :: '.' :: after) = some (before', after') ∧
      before'.length ≤ before.length := by
  induction before with
  | nil => exact ⟨[], after, rfl, Nat.le_refl 0⟩
  | cons c before ih =>
      obtain ⟨before', after', hsplit, hle⟩ := ih
      rw [List.cons_append]
      generalize before ++ '.' :: '.' :: after = cs at hsplit
      by_cases hdots : ∃ rest, c = '.' ∧ cs = '.' :: rest
      · obtain ⟨rest, rfl, rfl⟩ := hdots
        exact ⟨[], rest, rfl, Nat.zero_le _⟩
      · refine ⟨c :: before', after', ?_, Nat.succ_le_succ hle⟩
        rw [splitDots, hsplit]
        · rfl
        · exact fun rest hc hcs ↦ hdots ⟨rest, hc, hcs⟩

theorem splitDots_eq_some_iff :
    splitDots cs = some (before, after) ↔ FirstDots cs before after := by
  have hfirst {cs before after : List Char} (h : splitDots cs = some (before, after)) :
      FirstDots cs before after := by
    refine ⟨splitDots_eq_append h, fun before' after' heq ↦ ?_⟩
    obtain ⟨before'', after'', hsplit, hle⟩ := exists_splitDots_eq before' after'
    rw [← heq, h] at hsplit
    cases hsplit
    exact hle
  refine ⟨hfirst, fun h ↦ ?_⟩
  obtain ⟨before', after', hsplit, -⟩ := exists_splitDots_eq before after
  rw [← h.eq_append] at hsplit
  obtain ⟨rfl, rfl⟩ := h.unique (hfirst hsplit)
  exact hsplit

theorem splitDots_eq_none_iff : splitDots cs = none ↔ ¬ ['.', '.'] <:+: cs := by
  rw [Option.eq_none_iff_forall_ne_some, Prod.forall]
  simp only [ne_eq]
  constructor
  · rintro h ⟨before, after, rfl⟩
    obtain ⟨before', after', hsplit, -⟩ := exists_splitDots_eq before after
    exact h before' after' (by simpa using hsplit)
  · rintro h before after hsplit
    exact h ⟨before, after, by simpa using (splitDots_eq_append hsplit).symm⟩

/-- The first two dots of a text come after a piece that has none. -/
theorem firstDots_of_not_mem (h : '.' ∉ before) (after : List Char) :
    FirstDots (before ++ '.' :: '.' :: after) before after := by
  refine ⟨rfl, fun before' after' heq ↦ Nat.le_of_not_lt fun hlt ↦ h ?_⟩
  have hdot : (before ++ '.' :: '.' :: after)[before'.length]? = some '.' := by simp [heq]
  rw [List.getElem?_append_left hlt] at hdot
  exact List.mem_of_getElem? hdot

/-! ## What is read -/

theorem between_eq_ok_iff : between a b = .ok span ↔ span.start = a ∧ span.stop = b := by
  obtain ⟨start, stop, hle⟩ := span
  unfold between
  split
  · simp [eq_comm]
  · simp only [reduceCtorEq, false_iff]
    omega

/-- What is wrong with a text that is no span: the first thing that is found. -/
inductive Rejected (cs : List Char) : Error → Prop
  | noDots (none : ¬ ['.', '.'] <:+: cs) : Rejected cs .noDots
  | badStart {before after : List Char} {e : Decimal.Error} (dots : FirstDots cs before after)
      (start : Misread (trim before) e) : Rejected cs (.badStart e)
  | badStop {before after : List Char} {a : Nat} {e : Decimal.Error}
      (dots : FirstDots cs before after) (start : IsSize (trim before) a)
      (stop : Misread (trim after) e) : Rejected cs (.badStop e)
  /-- Both numbers are told. -/
  | reversed {before after : List Char} {a b : Nat} (dots : FirstDots cs before after)
      (start : IsSize (trim before) a) (stop : IsSize (trim after) b) (lt : b < a) :
      Rejected cs (.reversed a b)

theorem parse_of_firstDots (h : FirstDots cs before after) :
    parse cs =
      match readSize (trim before) with
      | .error e => .error (.badStart e)
      | .ok start =>
        match readSize (trim after) with
        | .error e => .error (.badStop e)
        | .ok stop => between start stop := by
  have hsplit : splitDots cs = some (before, after) := splitDots_eq_some_iff.2 h
  unfold parse
  generalize splitDots cs = pieces at hsplit ⊢
  subst hsplit
  rfl

theorem parse_of_sizes (h : FirstDots cs before after) (ha : IsSize (trim before) a)
    (hb : IsSize (trim after) b) : parse cs = between a b := by
  rw [parse_of_firstDots h, readSize_eq_ok_iff.2 ha, readSize_eq_ok_iff.2 hb]

/-- A text is a span, or there is something wrong with it. -/
theorem parse_cases (cs : List Char) :
    (∃ e, parse cs = .error e ∧ Rejected cs e) ∨
      ∃ before after span, FirstDots cs before after ∧ IsSize (trim before) span.start ∧
        IsSize (trim after) span.stop ∧ parse cs = .ok span := by
  cases hsplit : splitDots cs with
  | none =>
      refine .inl ⟨.noDots, ?_, .noDots (splitDots_eq_none_iff.1 hsplit)⟩
      rw [parse, hsplit]
  | some pieces =>
      have hdots : FirstDots cs pieces.1 pieces.2 := splitDots_eq_some_iff.1 hsplit
      cases hstart : readSize (trim pieces.1) with
      | error e =>
          refine .inl ⟨.badStart e, ?_, .badStart hdots (readSize_eq_error_iff.1 hstart)⟩
          rw [parse_of_firstDots hdots, hstart]
      | ok a =>
          have ha : IsSize (trim pieces.1) a := readSize_eq_ok_iff.1 hstart
          cases hstop : readSize (trim pieces.2) with
          | error e =>
              refine .inl ⟨.badStop e, ?_, .badStop hdots ha (readSize_eq_error_iff.1 hstop)⟩
              rw [parse_of_firstDots hdots, hstart, hstop]
          | ok b =>
              have hb : IsSize (trim pieces.2) b := readSize_eq_ok_iff.1 hstop
              have hparse : parse cs = between a b := parse_of_sizes hdots ha hb
              by_cases hle : a ≤ b
              · rw [between, dif_pos hle] at hparse
                exact .inr ⟨_, _, ⟨a, b, hle⟩, hdots, ha, hb, hparse⟩
              · rw [between, dif_neg hle] at hparse
                exact .inl ⟨_, hparse, .reversed hdots ha hb (by omega)⟩

theorem parse_eq_ok_iff :
    parse cs = .ok span ↔ ∃ before after, FirstDots cs before after ∧
      IsSize (trim before) span.start ∧ IsSize (trim after) span.stop := by
  constructor
  · intro h
    obtain ⟨e, herror, -⟩ | ⟨before, after, span', hdots, hstart, hstop, hok⟩ := parse_cases cs
    · rw [h] at herror
      cases herror
    · rw [h] at hok
      cases hok
      exact ⟨before, after, hdots, hstart, hstop⟩
  · rintro ⟨before, after, hdots, hstart, hstop⟩
    rw [parse_of_sizes hdots hstart hstop]
    exact between_eq_ok_iff.2 ⟨rfl, rfl⟩

theorem parse_eq_error_iff {e : Error} : parse cs = .error e ↔ Rejected cs e := by
  constructor
  · intro h
    obtain ⟨e', herror, hrejected⟩ | ⟨_, _, span, -, -, -, hok⟩ := parse_cases cs
    · rw [h] at herror
      cases herror
      exact hrejected
    · rw [h] at hok
      cases hok
  · intro h
    cases h with
    | noDots hnone => rw [parse, splitDots_eq_none_iff.2 hnone]
    | badStart hdots hstart =>
        rw [parse_of_firstDots hdots, readSize_eq_error_iff.2 hstart]
    | badStop hdots hstart hstop =>
        rw [parse_of_firstDots hdots, readSize_eq_ok_iff.2 hstart, readSize_eq_error_iff.2 hstop]
    | reversed hdots hstart hstop hlt =>
        rw [parse_of_sizes hdots hstart hstop, between, dif_neg (by omega)]

/-! ## Spans as they are written -/

/-- The text shows the two numbers with two dots between them, and with blanks around each. -/
def Shows (cs : List Char) (a b : Nat) : Prop :=
  ∃ w x y z, Blank w ∧ Blank x ∧ Blank y ∧ Blank z ∧
    cs = w ++ digits a ++ x ++ '.' :: '.' :: (y ++ digits b ++ z)

theorem isSize_trim {x y : List Char} (hx : Blank x) (hy : Blank y) (ha : a < UInt64.size) :
    IsSize (trim (x ++ digits a ++ y)) a := by
  have hdigits : ∀ c ∈ digits a, ¬ WhiteSpace c :=
    fun c hc ↦ not_whiteSpace_of_isDigit ((digits_digits a).isDigit c hc)
  rw [trim_append_append hx hdigits hy]
  exact isSize_digits ha

theorem parse_of_shows (h : Shows cs a b) (ha : a < UInt64.size) (hb : b < UInt64.size) :
    parse cs = between a b := by
  obtain ⟨w, x, y, z, hw, hx, hy, hz, rfl⟩ := h
  have hdot : '.' ∉ w ++ digits a ++ x := by
    have hblank : ¬ WhiteSpace '.' := by decide
    simp [hw.not_mem hblank, hx.not_mem hblank, not_mem_digits]
  exact parse_of_sizes (firstDots_of_not_mem hdot _) (isSize_trim hw hx ha) (isSize_trim hy hz hb)

/-- A text is read as a span exactly if the pieces before and after its first two dots are the sizes
of its ends, and a span does not run backwards. Any other text is rejected for the first thing that
is wrong with it; a piece is wrong exactly if it is no size. What is written for two sizes is read
back if it is a span, whatever blanks are put around them. -/
theorem parse_accepts_exactly_spans (cs : List Char) :
    (∀ span, parse cs = .ok span ↔ ∃ before after, FirstDots cs before after ∧
      IsSize (trim before) span.start ∧ IsSize (trim after) span.stop) ∧
    (∀ e, parse cs = .error e ↔ Rejected cs e) ∧
    (∀ piece, (∃ e, Misread piece e) ↔ ∀ n, ¬ IsSize piece n) ∧
    (∀ a b, a < UInt64.size → b < UInt64.size → Shows cs a b →
      (∀ span, parse cs = .ok span ↔ span.start = a ∧ span.stop = b) ∧
      ((∃ span, parse cs = .ok span) ↔ a ≤ b)) := by
  refine ⟨fun _ ↦ parse_eq_ok_iff, fun _ ↦ parse_eq_error_iff, fun _ ↦ exists_misread_iff, ?_⟩
  intro a b ha hb h
  have hspan (span : Span) : parse cs = .ok span ↔ span.start = a ∧ span.stop = b := by
    rw [parse_of_shows h ha hb, between_eq_ok_iff]
  refine ⟨hspan, ?_⟩
  simp only [hspan]
  constructor
  · rintro ⟨⟨_, _, hle⟩, rfl, rfl⟩
    exact hle
  · exact fun hle ↦ ⟨⟨a, b, hle⟩, rfl, rfl⟩

/-- Three dots, of which the last belongs to the second piece; a number that is too large before
anything else is looked at; and two numbers with blanks around them. -/
theorem parse_accepts_exactly_spans_of_dots :
    Rejected "1...2".toList (.badStop .invalidDigit) ∧
    Rejected "18446744073709551616x..".toList (.badStart .tooLarge) ∧
    (∀ n, ¬ IsSize ".2".toList n) ∧
    Shows "\t2..\n10".toList 2 10 ∧ ∃ span, parse "\t2..\n10".toList = .ok span := by
  have hdots : parse "1...2".toList = .error (.badStop .invalidDigit) := by rfl
  have hlarge : parse "18446744073709551616x..".toList = .error (.badStart .tooLarge) := by rfl
  have hpiece : Misread ".2".toList .invalidDigit := readSize_eq_error_iff.1 (by rfl)
  have hshows : Shows "\t2..\n10".toList 2 10 :=
    ⟨['\t'], [], ['\n'], [], .cons (by decide) .nil, .nil, .cons (by decide) .nil, .nil, by rfl⟩
  obtain ⟨-, hrejected, hmisread, -⟩ := parse_accepts_exactly_spans "1...2".toList
  obtain ⟨-, hrejected', -⟩ := parse_accepts_exactly_spans "18446744073709551616x..".toList
  obtain ⟨-, -, -, hshown⟩ := parse_accepts_exactly_spans "\t2..\n10".toList
  obtain ⟨-, hspan⟩ := hshown 2 10 (by decide) (by decide) hshows
  exact ⟨(hrejected _).1 hdots, (hrejected' _).1 hlarge, (hmisread _).1 ⟨_, hpiece⟩, hshows,
    hspan.2 (by decide)⟩

end Intcode.Span
