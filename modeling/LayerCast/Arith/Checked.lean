/-!
# `LayerCast.Arith.Checked`: word arithmetic that reports overflow

Counters and sizes live in 64-bit words. A sum or product that leaves its word does not wrap. It
is a `Fault`, and the computation that needed it stops there. Values are kept as `Nat` and `Int`,
so the only trace of the word is the bound that each operation tests. A double that is to be a
length of time, but is none, is a fault as well.
-/

set_option autoImplicit false

namespace LayerCast

/-- Why an arithmetic step could not be carried out. -/
inductive Fault where
  | addOverflow
  | mulOverflow
  | divByZero
  | negativeSeconds
  | secondsOutOfRange
  deriving DecidableEq, Repr

/-- The wording of a fault, the same wherever it arises. -/
def Fault.message : Fault → String
  | .addOverflow => "attempt to add with overflow"
  | .mulOverflow => "attempt to multiply with overflow"
  | .divByZero => "attempt to divide by zero"
  | .negativeSeconds => "cannot convert float seconds to Duration: value is negative"
  | .secondsOutOfRange =>
    "cannot convert float seconds to Duration: value is either too big or NaN"

/-- A result, or the fault that prevented it. -/
abbrev Checked (α : Type) := Except Fault α

/-- The number of values of a 32-bit word. -/
def word32 : Nat := 4294967296

/-- The number of values of a 64-bit word. -/
def word64 : Nat := 18446744073709551616

/-- The number of non-negative values of a signed 64-bit word. -/
def signed64 : Nat := 9223372036854775808

example : word32 = 2 ^ 32 ∧ word64 = 2 ^ 64 ∧ signed64 = 2 ^ 63 := ⟨rfl, rfl, rfl⟩

namespace Checked

/-- The sum of two 64-bit words. -/
def add (a b : Nat) : Checked Nat :=
  if a + b < word64 then .ok (a + b) else .error .addOverflow

/-- The product of two 64-bit words. -/
def mul (a b : Nat) : Checked Nat :=
  if a * b < word64 then .ok (a * b) else .error .mulOverflow

/-- The sum of two signed 64-bit words of which the second is not negative, so that only the upper
end can be passed. -/
def addSigned (a b : Int) : Checked Int :=
  if a + b < signed64 then .ok (a + b) else .error .addOverflow

/-- The quotient `a / b`, rounded up. -/
def ceilDiv (a b : Nat) : Checked Nat :=
  if b = 0 then .error .divByZero else .ok ((a + b - 1) / b)

/-- A sum is a word, and then it is the sum, or there is none. -/
theorem add_eq_ok_iff {a b c : Nat} : add a b = .ok c ↔ a + b < word64 ∧ c = a + b := by
  unfold add
  split <;> rename_i h <;> simp [h, eq_comm]

/-- So is a product. -/
theorem mul_eq_ok_iff {a b c : Nat} : mul a b = .ok c ↔ a * b < word64 ∧ c = a * b := by
  unfold mul
  split <;> rename_i h <;> simp [h, eq_comm]

/-- A signed sum passes the upper end or is the sum. -/
theorem addSigned_eq_ok_iff {a b c : Int} :
    addSigned a b = .ok c ↔ a + b < signed64 ∧ c = a + b := by
  unfold addSigned
  split <;> rename_i h <;> simp [h, eq_comm]

/-- Everything can be divided, except by zero. -/
theorem ceilDiv_eq_ok_iff {a b c : Nat} :
    ceilDiv a b = .ok c ↔ b ≠ 0 ∧ c = (a + b - 1) / b := by
  unfold ceilDiv
  split <;> rename_i h <;> simp [h, eq_comm]

/-- A result that is there is the result. -/
theorem eq_ok_of_toOption {ε α : Type} {x : Except ε α} {a : α} (h : x.toOption = some a) :
    x = .ok a := by
  cases x with
  | error e => cases h
  | ok b => exact congrArg Except.ok (Option.some.inj h)

/-- What is computed from a result that is there, is computed from the result. -/
theorem exists_of_bind_toOption {ε α β : Type} {x : Except ε α} {f : α → Option β} {b : β}
    (h : x.toOption.bind f = some b) : ∃ a, x = .ok a ∧ f a = some b := by
  obtain ⟨a, ha, hb⟩ := Option.bind_eq_some_iff.mp h
  exact ⟨a, eq_ok_of_toOption ha, hb⟩

/-- The same where the rest of the computation cannot fail. -/
theorem exists_of_map_toOption {ε α β : Type} {x : Except ε α} {f : α → β} {b : β}
    (h : x.toOption.map f = some b) : ∃ a, x = .ok a ∧ f a = b := by
  obtain ⟨a, ha, hb⟩ := Option.map_eq_some_iff.mp h
  exact ⟨a, eq_ok_of_toOption ha, hb⟩

/-- A computation has a result where each of its two parts has one. -/
theorem bind_eq_ok_iff {α β : Type} {x : Checked α} {f : α → Checked β} {b : β} :
    x >>= f = .ok b ↔ ∃ a, x = .ok a ∧ f a = .ok b := by
  cases x with
  | error fault =>
      constructor
      · intro h
        cases h
      · rintro ⟨a, h, -⟩
        cases h
  | ok a =>
      constructor
      · intro h
        exact ⟨a, rfl, h⟩
      · rintro ⟨a', h, hf⟩
        cases h
        exact hf

/-- A result that is changed is the change of a result. -/
theorem map_eq_ok_iff {α β : Type} {x : Checked α} {f : α → β} {b : β} :
    x.map f = .ok b ↔ ∃ a, x = .ok a ∧ f a = b := by
  cases x <;> simp [Except.map]

/-- Results for all elements of a list are as many, and each is a result for one of them. -/
theorem mapM_eq_ok {α β : Type} {g : α → Checked β} {l : List α} {results : List β}
    (h : l.mapM g = .ok results) :
    results.length = l.length ∧ ∀ b ∈ results, ∃ a ∈ l, g a = .ok b := by
  induction l generalizing results with
  | nil =>
      obtain rfl := Except.ok.inj h
      exact ⟨rfl, fun b hb => absurd hb List.not_mem_nil⟩
  | cons a l ih =>
      rw [List.mapM_cons] at h
      obtain ⟨first, hfirst, h⟩ := bind_eq_ok_iff.mp h
      obtain ⟨rest, hrest, h⟩ := bind_eq_ok_iff.mp h
      obtain rfl := Except.ok.inj h
      obtain ⟨hlength, hmem⟩ := ih hrest
      refine ⟨congrArg (· + 1) hlength, fun b hb => ?_⟩
      rcases List.mem_cons.mp hb with rfl | hb
      · exact ⟨a, List.mem_cons_self, hfirst⟩
      · obtain ⟨a', ha', hb⟩ := hmem b hb
        exact ⟨a', List.mem_cons_of_mem a ha', hb⟩

end Checked

/-- A 64-bit word read as a signed one: the upper half of the range stands for negative numbers. -/
def asSigned (n : Nat) : Int :=
  if n < signed64 then n else (n : Int) - word64

/-- The lower half of the range reads the same with a sign. -/
theorem asSigned_of_lt {n : Nat} (h : n < signed64) : asSigned n = n := by
  simp [asSigned, h]

end LayerCast
