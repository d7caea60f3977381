import Intcode.Proofs.Instruction.Text
import Intcode.Proofs.ProgramText.Grammar
import Intcode.Session.Line

/-!
# The framing of lines

Standard input is read line by line, and here this is said of its bytes: a question for input takes
the bytes up to the first newline and this newline with them, whether they are of any use or not. So
the questions take the lines in their order and each line is answered by itself. What is written as
a line of values is read back, whatever stands in the lines around it.
-/

namespace Intcode.Line

open ProgramText Text

/-- The bytes consist of the lines. Each line ends with its first newline, and only the last one may
do without, if it is not empty. -/
inductive Framed : List UInt8 → List Line → Prop
  | nil : Framed [] []
  | last {l : Line} (ne_nil : l ≠ []) (not_mem : newline ∉ l) : Framed l [l]
  | line {l bytes : List UInt8} {ls : List Line} (not_mem : newline ∉ l) (rest : Framed bytes ls) :
      Framed (l ++ newline :: bytes) ((l ++ [newline]) :: ls)

/-- The bytes up to the first newline, with this newline, and the bytes after it. -/
def next : List UInt8 → Line × List UInt8
  | [] => ([], [])
  | b :: bytes =>
    if b = newline then ([b], bytes)
    else
      let (l, rest) := next bytes
      (b :: l, rest)

/-- Asks for the values of a line, and leaves the bytes after it. There is no answer when there are
no bytes. -/
def ask (bytes : List UInt8) : Option (Except Error (List Cell)) × List UInt8 :=
  let (l, rest) := next bytes
  (if l.isEmpty then none else some l.read, rest)

/-- The bytes that some questions leave. -/
def left : Nat → List UInt8 → List UInt8
  | 0, bytes => bytes
  | k + 1, bytes => left k (ask bytes).2

/-- The bytes of a text. -/
def encode (text : String) : List UInt8 := text.toList.flatMap String.utf8EncodeChar

/-- The values with commas between them. -/
def joined (vs : List Cell) : String := ",".intercalate (vs.map Cell.text)

/-- The line that is written for values. -/
def written (vs : List Cell) : Line := encode (joined vs) ++ [newline]

variable {l : Line} {ls : List Line} {bytes : List UInt8} {text : String} {vs : List Cell}

/-! ## Lines -/

@[simp] theorem split_nil : split [] = [] := rfl

theorem split_newline_cons (bytes : List UInt8) :
    split (newline :: bytes) = [newline] :: split bytes := by
  rw [split, if_pos rfl]

theorem split_cons {b : UInt8} (hb : b ≠ newline) (bytes : List UInt8) :
    split (b :: bytes) = consHead b (split bytes) := by
  rw [split, if_neg hb]

theorem split_line_append (h : newline ∉ l) (bytes : List UInt8) :
    split (l ++ newline :: bytes) = (l ++ [newline]) :: split bytes := by
  induction l with
  | nil => exact split_newline_cons bytes
  | cons b l ih =>
      rw [List.cons_append, split_cons (List.ne_of_not_mem_cons h).symm,
        ih (List.not_mem_of_not_mem_cons h)]
      rfl

theorem split_of_not_mem (hne : l ≠ []) (h : newline ∉ l) : split l = [l] := by
  induction l with
  | nil => exact absurd rfl hne
  | cons b l ih =>
      rw [split_cons (List.ne_of_not_mem_cons h).symm]
      by_cases hl : l = []
      · subst hl
        rfl
      · rw [ih hl (List.not_mem_of_not_mem_cons h)]
        rfl

/-- The first line of some bytes, or all of them if there is no newline. -/
theorem exists_line (bytes : List UInt8) :
    newline ∉ bytes ∨ ∃ l rest, newline ∉ l ∧ bytes = l ++ newline :: rest := by
  by_cases h : newline ∈ bytes
  · obtain ⟨l, rest, hbytes, hl⟩ := List.eq_append_cons_of_mem h
    exact .inr ⟨l, rest, hl, hbytes⟩
  · exact .inl h

/-- There is one way to cut bytes into lines. -/
theorem framed_iff : Framed bytes ls ↔ ls = split bytes := by
  constructor
  · intro h
    induction h with
    | nil => rfl
    | last hne hl => rw [split_of_not_mem hne hl]
    | line hl _ ih => rw [split_line_append hl, ih]
  · rintro rfl
    -- A line that ends leaves fewer bytes.
    induction hn : bytes.length using Nat.strong_induction_on generalizing bytes with
    | _ n ih =>
        obtain h | ⟨l, rest, hl, rfl⟩ := exists_line bytes
        · by_cases hne : bytes = []
          · subst hne
            exact .nil
          · rw [split_of_not_mem hne h]
            exact .last hne h
        · rw [split_line_append hl]
          have hlt : rest.length < n := by
            rw [← hn, List.length_append, List.length_cons]
            omega
          exact .line hl (ih _ hlt rfl)

/-! ## Questions -/

theorem next_append (h : newline ∉ l) (rest : List UInt8) :
    next (l ++ newline :: rest) = (l ++ [newline], rest) := by
  induction l with
  | nil => rw [List.nil_append, next, if_pos rfl, List.nil_append]
  | cons b l ih =>
      have hb : b ≠ newline := (List.ne_of_not_mem_cons h).symm
      rw [List.cons_append, next, if_neg hb, ih (List.not_mem_of_not_mem_cons h)]
      rfl

theorem next_of_not_mem (h : newline ∉ bytes) : next bytes = (bytes, []) := by
  induction bytes with
  | nil => rfl
  | cons b bytes ih =>
      have hb : b ≠ newline := (List.ne_of_not_mem_cons h).symm
      rw [next, if_neg hb, ih (List.not_mem_of_not_mem_cons h)]

/-- A question takes the first line whole, and nothing after it. -/
theorem ask_eq (bytes : List UInt8) :
    ask bytes = ((split bytes).head?.map read, (split bytes).tail.flatten) := by
  obtain h | ⟨l, rest, hl, rfl⟩ := exists_line bytes
  · by_cases hne : bytes = []
    · subst hne
      rfl
    · rw [ask, next_of_not_mem h, split_of_not_mem hne h]
      simp [hne]
  · rw [ask, next_append hl, split_line_append hl]
    simp

theorem split_flatten_tail (bytes : List UInt8) :
    split (split bytes).tail.flatten = (split bytes).tail := by
  obtain h | ⟨l, rest, hl, rfl⟩ := exists_line bytes
  · by_cases hne : bytes = []
    · subst hne
      rfl
    · rw [split_of_not_mem hne h]
      rfl
  · rw [split_line_append hl, List.tail_cons, flatten_split]

theorem split_ask (bytes : List UInt8) : split (ask bytes).2 = (split bytes).tail := by
  rw [ask_eq, split_flatten_tail]

/-- Some questions take as many lines. -/
theorem split_left (k : Nat) (bytes : List UInt8) :
    split (left k bytes) = (split bytes).drop k := by
  induction k generalizing bytes with
  | zero => rfl
  | succ k ih => rw [left, ih, split_ask, List.drop_tail]

theorem left_eq (k : Nat) (bytes : List UInt8) :
    left k bytes = ((split bytes).drop k).flatten := by
  rw [← split_left, flatten_split]

/-- Each question is answered by its own line, and there is no answer after the last one. -/
theorem ask_left (k : Nat) (bytes : List UInt8) :
    (ask (left k bytes)).1 = (split bytes)[k]?.map read := by
  rw [ask_eq, split_left, List.head?_drop]

/-! ## Texts -/

theorem toByteArray_toList (text : String) : text.toByteArray.data.toList = encode text := by
  rw [← String.utf8Encode_toList, List.utf8Encode, List.data_toByteArray]
  rfl

theorem decode_eq_some_iff : decode bytes = some text ↔ encode text = bytes := by
  have hbytes : encode text = bytes ↔ text.toByteArray = ⟨bytes.toArray⟩ := by
    rw [← toByteArray_toList, ByteArray.ext_iff, ← Array.toList_inj]
  rw [hbytes, decode, String.fromUTF8?]
  split
  · rename_i hvalid
    rw [Option.some.injEq, ← String.toByteArray_inj, eq_comm]
    rfl
  · rename_i hinvalid
    simp only [reduceCtorEq, false_iff]
    intro htext
    exact hinvalid (htext ▸ text.isValidUTF8)

theorem read_eq_ok_iff :
    l.read = .ok vs ↔ ∃ text, encode text = l ∧ parse ',' text = .ok vs := by
  simp only [← decode_eq_some_iff, read]
  cases decode l with
  | none => simp
  | some text => cases hparse : parse ',' text <;> simp [hparse]

theorem read_eq_malformed_iff {e : ProgramText.Error} :
    l.read = .error (.malformed e) ↔ ∃ text, encode text = l ∧ parse ',' text = .error e := by
  simp only [← decode_eq_some_iff, read]
  cases decode l with
  | none => simp
  | some text => cases hparse : parse ',' text <;> simp [hparse]

theorem read_eq_notText_iff : l.read = .error .notText ↔ ∀ text, encode text ≠ l := by
  simp only [ne_eq, ← decode_eq_some_iff, read]
  cases decode l with
  | none => simp
  | some text => cases hparse : parse ',' text <;> simp [hparse]

/-! ## Lines of values -/

/-- Of all characters, only the newline has a newline among its bytes. -/
theorem newline_not_mem_utf8EncodeChar {c : Char} (h : c ≠ '\n') :
    newline ∉ String.utf8EncodeChar c := by
  have hval : c.val.toNat ≠ 10 := by
    intro hval
    exact h (Char.ext (UInt32.toNat_inj.1 hval))
  have hbyte (n : Nat) : newline = UInt8.ofNat n ↔ n % 256 = 10 := by
    rw [← UInt8.toNat_inj, UInt8.toNat_ofNat', eq_comm]
    rfl
  unfold String.utf8EncodeChar
  dsimp only
  split
  · rw [List.mem_singleton, hbyte]
    omega
  · split
    · simp only [List.mem_cons, List.not_mem_nil, or_false, hbyte]
      omega
    · split <;>
      · simp only [List.mem_cons, List.not_mem_nil, or_false, hbyte]
        omega

theorem newline_not_mem_encode (h : '\n' ∉ text.toList) : newline ∉ encode text := by
  intro hmem
  obtain ⟨c, hc, hbyte⟩ := List.mem_flatMap.1 hmem
  have hne : c ≠ '\n' := by
    rintro rfl
    exact h hc
  exact newline_not_mem_utf8EncodeChar hne hbyte

theorem toList_joined (vs : List Cell) :
    (joined vs).toList = [','].intercalate (vs.map fun v ↦ v.text.toList) := by
  rw [joined, String.toList_intercalate, List.map_map]
  rfl

theorem newline_not_mem_joined (vs : List Cell) : newline ∉ encode (joined vs) := by
  refine newline_not_mem_encode fun hmem ↦ ?_
  obtain hcomma | ⟨piece, hpiece, hc⟩ := mem_intercalate hmem
  · exact absurd hcomma (by decide)
  · obtain ⟨v, -, rfl⟩ := List.mem_map.1 hpiece
    exact Cell.not_mem_text (by decide) (by decide) hc

/-- Values with commas between them are read back, with blanks after them or not. -/
theorem parse_joined (vs : List Cell) {after : List Char} (hafter : Blank after)
    (htext : text.toList = (joined vs).toList ++ after) : parse ',' text = .ok vs := by
  have hpieces : List.Forall₂ Shows (vs.map fun v ↦ v.text.toList) vs := by
    rw [List.forall₂_map_left_iff, List.forall₂_same]
    exact fun v _ ↦ ⟨[], [], by simp, .nil, .nil⟩
  refine readCells_of_joined (by decide) (by decide)
    ⟨[], _, [], after, ?_, .nil, hpieces, .inl rfl, hafter⟩
  rw [htext, toList_joined]
  simp

theorem read_joined (vs : List Cell) : read (encode (joined vs)) = .ok vs :=
  read_eq_ok_iff.2 ⟨_, rfl, parse_joined vs .nil (List.append_nil _).symm⟩

theorem read_written (vs : List Cell) : (written vs).read = .ok vs := by
  have hencode : encode (joined vs ++ "\n") = written vs := by
    rw [encode, String.toList_append, List.flatMap_append]
    rfl
  have hblank : Blank ['\n'] := .cons (by decide) .nil
  refine read_eq_ok_iff.2 ⟨_, hencode, parse_joined vs hblank ?_⟩
  rw [String.toList_append]
  rfl

/-- The line of values can do without its newline, if there is a value. -/
theorem split_joined (h : vs ≠ []) : split (encode (joined vs)) = [encode (joined vs)] := by
  refine split_of_not_mem (fun hnil ↦ h ?_) (newline_not_mem_joined vs)
  have hread : read [] = .ok vs := hnil ▸ read_joined vs
  have hempty : read [] = .ok [] := rfl
  exact (Except.ok.inj (hempty.symm.trans hread)).symm

theorem split_flatMap_written (vss : List (List Cell)) (bytes : List UInt8) :
    split (vss.flatMap written ++ bytes) = vss.map written ++ split bytes := by
  induction vss with
  | nil => rfl
  | cons vs vss ih =>
      have hbytes : (vs :: vss).flatMap written ++ bytes =
          encode (joined vs) ++ newline :: (vss.flatMap written ++ bytes) := by
        simp [written]
      rw [hbytes, split_line_append (newline_not_mem_joined vs), ih]
      rfl

/-- Lines that are written for values are answered by these values in their order, and then come
the lines after them. -/
theorem map_read_split_written (vss : List (List Cell)) (bytes : List UInt8) :
    (split (vss.flatMap written ++ bytes)).map read =
      vss.map Except.ok ++ (split bytes).map read := by
  have hread : read ∘ written = Except.ok := funext read_written
  rw [split_flatMap_written, List.map_append, List.map_map, hread]

end Intcode.Line
