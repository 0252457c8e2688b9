import LayerCast.Arith.Checked

/-!
# `LayerCast.Arith.Binary64`: exact values of doubles

`Binary64.decode` splits the bits of a `Float` into sign, significand and power of two, so that
what depends on the exact value can be computed in `Nat`. `roundHalfEven` is the one rounding
rule: to the nearest integer, and a half goes to the even neighbour. Its two laws say so. Where a
double counts things, it is rounded up to a word instead (`Binary64.ceilWord`).
-/

set_option autoImplicit false

namespace LayerCast

/-- The nearest integer to `num / den`; of two equally near ones the even one. -/
def roundHalfEven (num den : Nat) : Nat :=
  let q := num / den
  let r := num % den
  if 2 * r < den then q
  else if den < 2 * r then q + 1
  else q + q % 2

/-- The rounded quotient is within half a unit of the exact one. -/
theorem roundHalfEven_near (num den : Nat) (h : 0 < den) :
    2 * num ≤ (2 * roundHalfEven num den + 1) * den ∧
      2 * (roundHalfEven num den * den) ≤ 2 * num + den := by
  have hdm := Nat.div_add_mod num den
  have hlt := Nat.mod_lt num h
  generalize hq : num / den = q at *
  generalize hr : num % den = r at *
  have hcomm : den * q = q * den := Nat.mul_comm _ _
  have hval : roundHalfEven num den = q ∧ 2 * r ≤ den ∨
      roundHalfEven num den = q + 1 ∧ den ≤ 2 * r := by
    simp only [roundHalfEven, hq, hr]
    rcases Nat.lt_trichotomy (2 * r) den with h1 | h1 | h1
    · rw [if_pos h1]
      omega
    · rw [if_neg (by omega), if_neg (by omega)]
      rcases Nat.mod_two_eq_zero_or_one q with h2 | h2 <;> rw [h2] <;> omega
    · rw [if_neg (by omega), if_pos h1]
      omega
  rcases hval with ⟨e, hb⟩ | ⟨e, hb⟩
  · rw [e, Nat.add_mul, Nat.mul_assoc]
    omega
  · rw [e, Nat.add_mul, Nat.add_mul, Nat.mul_assoc, Nat.mul_add, Nat.add_mul]
    omega

/-- A half goes to the even neighbour. -/
theorem roundHalfEven_tie (num den : Nat) (h : 2 * (num % den) = den) :
    roundHalfEven num den % 2 = 0 := by
  simp only [roundHalfEven]
  rw [if_neg (by omega), if_neg (by omega)]
  omega

namespace Binary64

/-- The exact value of a double. A finite one is `significand * 2 ^ shift / 2 ^ 1074`, negated if
the sign says so. -/
inductive Exact where
  | finite (negative : Bool) (significand shift : Nat)
  | infinite (negative : Bool)
  | nan
  deriving DecidableEq, Repr

/-- Reads the sign, exponent and fraction fields of a double. -/
def decode (x : Float) : Exact :=
  let bits := x.toBits.toNat
  let negative := bits / 9223372036854775808 == 1
  let exponent := bits / 4503599627370496 % 2048
  let fraction := bits % 4503599627370496
  if exponent = 2047 then
    if fraction = 0 then .infinite negative else .nan
  else if exponent = 0 then .finite negative fraction 0
  else .finite negative (fraction + 4503599627370496) (exponent - 1)

/-- The least 64-bit word that is not below a double. For a negative double and for one that is not
a number it is 0, and for one beyond all words the largest word. -/
def ceilWord (x : Float) : Nat :=
  match decode x with
  | .finite false significand shift =>
    min ((significand <<< shift + (1 <<< 1074 - 1)) / 1 <<< 1074) (word64 - 1)
  | .infinite false => word64 - 1
  | _ => 0

/-- Among the words, rounding up stays within one unit above the exact value. -/
theorem ceilWord_near {x : Float} {significand shift : Nat}
    (h : decode x = .finite false significand shift) (hword : ceilWord x < word64 - 1) :
    significand <<< shift ≤ ceilWord x * 1 <<< 1074 ∧
      ceilWord x * 1 <<< 1074 < significand <<< shift + 1 <<< 1074 := by
  have hpositive : 0 < 1 <<< 1074 := by decide
  unfold ceilWord at hword ⊢
  rw [h] at hword ⊢
  simp only at hword ⊢
  generalize significand <<< shift = value at *
  generalize 1 <<< 1074 = unit at *
  rw [Nat.min_eq_left (by omega)]
  have hdm := Nat.div_add_mod (value + (unit - 1)) unit
  have hlt := Nat.mod_lt (value + (unit - 1)) hpositive
  rw [Nat.mul_comm] at hdm
  omega

/-- The larger of two doubles; the first one if neither is larger. If one of them is not a number,
it is the other one. -/
def larger (a b : Float) : Float :=
  if a < b ∨ a.isNaN then b else a

/-- The smaller of two doubles; the first one if neither is smaller. If one of them is not a number,
it is the other one. -/
def smaller (a b : Float) : Float :=
  if b < a ∨ a.isNaN then b else a

/-- Goes a part of the way from `a` to `b`, but not below zero. -/
def approach (part a b : Float) : Float := larger (a + part * (b - a)) 0.0

end Binary64

end LayerCast
