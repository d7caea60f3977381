import Intcode.Instruction.Basic

/-!
# Going through the parameters

To go through the parameters of an instruction is to relate it to another of the same opcode, one
parameter to one, or to fail at the first parameter that has no relative.
-/

namespace Intcode

section Bind

variable {ε α β : Type}

theorem bind_eq_ok_iff {x : Except ε α} {f : α → Except ε β} {b : β} :
    x >>= f = .ok b ↔ ∃ a, x = .ok a ∧ f a = .ok b := by
  cases x with
  | error e =>
      constructor
      · rintro ⟨⟩
      · rintro ⟨_, ⟨⟩, _⟩
  | ok a =>
      constructor
      · exact fun h ↦ ⟨a, rfl, h⟩
      · rintro ⟨_, ⟨⟩, h⟩
        exact h

theorem bind_eq_error_iff {x : Except ε α} {f : α → Except ε β} {e : ε} :
    x >>= f = .error e ↔ x = .error e ∨ ∃ a, x = .ok a ∧ f a = .error e := by
  cases x with
  | error e' =>
      constructor
      · rintro ⟨⟩
        exact .inl rfl
      · rintro (⟨⟨⟩⟩ | ⟨_, ⟨⟩, _⟩)
        rfl
  | ok a =>
      constructor
      · exact fun h ↦ .inr ⟨a, rfl, h⟩
      · rintro (⟨⟨⟩⟩ | ⟨_, ⟨⟩, h⟩)
        exact h

theorem pure_eq_ok_iff {a b : α} : (pure a : Except ε α) = .ok b ↔ a = b := by
  simp [pure, Except.pure]

end Bind

namespace Instruction

variable {ε α β γ δ : Type}

/-- Two instructions are alike if they have one opcode and their parameters are related one by
one, each under its number. -/
inductive Alike (R : Nat → α → γ → Prop) (S : Nat → β → δ → Prop) :
    Instruction α β → Instruction γ δ → Prop
  | binary {op : BinaryOp} {a b : α} {dst : β} {a' b' : γ} {dst' : δ} :
      R 1 a a' → R 2 b b' → S 3 dst dst' → Alike R S (.binary op a b dst) (.binary op a' b' dst')
  | input {dst : β} {dst' : δ} : S 1 dst dst' → Alike R S (.input dst) (.input dst')
  | output {a : α} {a' : γ} : R 1 a a' → Alike R S (.output a) (.output a')
  | jump {c : Condition} {a target : α} {a' target' : γ} :
      R 1 a a' → R 2 target target' → Alike R S (.jump c a target) (.jump c a' target')
  | adjustBase {a : α} {a' : γ} : R 1 a a' → Alike R S (.adjustBase a) (.adjustBase a')
  | halt : Alike R S .halt .halt

variable {read : Nat → α → Except ε γ} {write : Nat → β → Except ε δ}

theorem traverse_eq_ok_iff {i : Instruction α β} {j : Instruction γ δ} :
    i.traverse read write = .ok j ↔
      Alike (fun n a a' ↦ read n a = .ok a') (fun n b b' ↦ write n b = .ok b') i j := by
  constructor
  · intro h
    cases i with
    | binary op a b dst =>
        simp only [traverse, bind_eq_ok_iff, pure_eq_ok_iff] at h
        obtain ⟨a', ha, b', hb, dst', hd, rfl⟩ := h
        exact .binary ha hb hd
    | input dst =>
        simp only [traverse, bind_eq_ok_iff, pure_eq_ok_iff] at h
        obtain ⟨dst', hd, rfl⟩ := h
        exact .input hd
    | output a =>
        simp only [traverse, bind_eq_ok_iff, pure_eq_ok_iff] at h
        obtain ⟨a', ha, rfl⟩ := h
        exact .output ha
    | jump condition a target =>
        simp only [traverse, bind_eq_ok_iff, pure_eq_ok_iff] at h
        obtain ⟨a', ha, target', ht, rfl⟩ := h
        exact .jump ha ht
    | adjustBase a =>
        simp only [traverse, bind_eq_ok_iff, pure_eq_ok_iff] at h
        obtain ⟨a', ha, rfl⟩ := h
        exact .adjustBase ha
    | halt =>
        cases h
        exact .halt
  · intro h
    cases h with
    | binary ha hb hd => simp only [traverse, ha, hb, hd]; rfl
    | input hd => simp only [traverse, hd]; rfl
    | output ha => simp only [traverse, ha]; rfl
    | jump ha ht => simp only [traverse, ha, ht]; rfl
    | adjustBase ha => simp only [traverse, ha]; rfl
    | halt => rfl

/-- Only the numbers of the parameters that are there count. -/
theorem traverse_congr {m : Type → Type} [Monad m] {read read' : Nat → α → m γ}
    {write write' : Nat → β → m δ} (i : Instruction α β)
    (hread : ∀ n, 1 ≤ n → n ≤ i.opcode.arity → read n = read' n)
    (hwrite : ∀ n, 1 ≤ n → n ≤ i.opcode.arity → write n = write' n) :
    i.traverse read write = i.traverse read' write' := by
  cases i with
  | binary op a b dst =>
      simp only [traverse, hread 1 (by simp) (by simp [opcode, Opcode.arity]),
        hread 2 (by simp) (by simp [opcode, Opcode.arity]),
        hwrite 3 (by simp) (by simp [opcode, Opcode.arity])]
  | input dst => simp only [traverse, hwrite 1 (by simp) (by simp [opcode, Opcode.arity])]
  | output a => simp only [traverse, hread 1 (by simp) (by simp [opcode, Opcode.arity])]
  | jump condition a target =>
      simp only [traverse, hread 1 (by simp) (by simp [opcode, Opcode.arity]),
        hread 2 (by simp) (by simp [opcode, Opcode.arity])]
  | adjustBase a => simp only [traverse, hread 1 (by simp) (by simp [opcode, Opcode.arity])]
  | halt => rfl

/-- What is found at the parameters, in order, given their numbers. -/
def survey (read : Nat → α → γ) (write : Nat → β → γ) : Instruction α β → List γ
  | binary _ a b dst => [read 1 a, read 2 b, write 3 dst]
  | input dst => [write 1 dst]
  | output a => [read 1 a]
  | jump _ a target => [read 1 a, read 2 target]
  | adjustBase a => [read 1 a]
  | halt => []

end Instruction

/-- The error of a computation, if it fails. -/
def failure? {ε α : Type} : Except ε α → Option ε
  | .ok _ => none
  | .error e => some e

theorem Instruction.traverse_eq_error_iff {ε α β γ δ : Type} {read : Nat → α → Except ε γ}
    {write : Nat → β → Except ε δ} {i : Instruction α β} {e : ε} :
    i.traverse read write = .error e ↔
      (i.survey (fun n a ↦ failure? (read n a)) (fun n b ↦ failure? (write n b))).findSome? id =
        some e := by
  cases i with
  | binary op a b dst =>
      simp only [traverse, survey]
      cases read 1 a <;> cases read 2 b <;> cases write 3 dst <;>
        simp [failure?, bind, Except.bind, pure, Except.pure]
  | input dst =>
      simp only [traverse, survey]
      cases write 1 dst <;> simp [failure?, bind, Except.bind, pure, Except.pure]
  | output a =>
      simp only [traverse, survey]
      cases read 1 a <;> simp [failure?, bind, Except.bind, pure, Except.pure]
  | jump condition a target =>
      simp only [traverse, survey]
      cases read 1 a <;> cases read 2 target <;>
        simp [failure?, bind, Except.bind, pure, Except.pure]
  | adjustBase a =>
      simp only [traverse, survey]
      cases read 1 a <;> simp [failure?, bind, Except.bind, pure, Except.pure]
  | halt => simp [traverse, survey, pure, Except.pure]

theorem failure?_eq_some_iff {ε α : Type} {x : Except ε α} {e : ε} :
    failure? x = some e ↔ x = .error e := by
  cases x <;> simp [failure?]

/-- An error comes from one of the parameters. -/
theorem Instruction.exists_of_traverse_eq_error {ε α β γ δ : Type} {read : Nat → α → Except ε γ}
    {write : Nat → β → Except ε δ} {i : Instruction α β} {e : ε}
    (h : i.traverse read write = .error e) :
    (∃ n a, read n a = .error e) ∨ ∃ n b, write n b = .error e := by
  obtain ⟨x, hx, he⟩ := List.exists_of_findSome?_eq_some (traverse_eq_error_iff.1 h)
  obtain rfl : x = some e := he
  simp only [← failure?_eq_some_iff]
  cases i with
  | binary op a b dst =>
      simp only [survey, List.mem_cons, List.not_mem_nil, or_false] at hx
      obtain hx | hx | hx := hx
      · exact .inl ⟨1, a, hx.symm⟩
      · exact .inl ⟨2, b, hx.symm⟩
      · exact .inr ⟨3, dst, hx.symm⟩
  | input dst => exact .inr ⟨1, dst, (List.mem_singleton.1 hx).symm⟩
  | output a => exact .inl ⟨1, a, (List.mem_singleton.1 hx).symm⟩
  | jump condition a target =>
      simp only [survey, List.mem_cons, List.not_mem_nil, or_false] at hx
      obtain hx | hx := hx
      · exact .inl ⟨1, a, hx.symm⟩
      · exact .inl ⟨2, target, hx.symm⟩
  | adjustBase a => exact .inl ⟨1, a, (List.mem_singleton.1 hx).symm⟩
  | halt => exact absurd hx List.not_mem_nil

end Intcode
