import LayerCast.Arith.Checked
import LayerCast.Json.Value

/-!
# `LayerCast.Json.Decimal`: the double that a decimal number is read as

The digits are gathered into a 64-bit significand. Once the next digit would not fit, the rest of
the digits before the point only count towards the power of ten, and the rest of the digits after
it are dropped. The significand is then converted to a double and scaled by one correctly rounded
power of ten, or by several when the power has more than 308 zeros. The result is within a few
units of the last place of the written number, and equal to it whenever the significand and the
power are both exact.

A number too large for a double is not read at all; one too small is zero.
-/

set_option autoImplicit false

namespace LayerCast.Json

/-- Appends digits to a significand while it fits into 64 bits, and returns the digits left. -/
def gather (significand : Nat) : List Char → Nat × List Char
  | [] => (significand, [])
  | d :: ds =>
    let next := significand * 10 + (d.toNat - 48)
    if next < word64 then gather next ds else (significand, d :: ds)

/-- The largest power of ten that is a double. -/
def maxPower : Nat := 308

/-- The double nearest to a power of ten that is at most `10 ^ 308`. -/
def powerOfTen (n : Nat) : Float := Float.ofScientific 1 false n

/-- Divides by `10 ^ n`, in steps of `10 ^ 308`, until nothing is left. -/
def divideByPower (x : Float) (n : Nat) : Float :=
  if n ≤ maxPower then x / powerOfTen n
  else if x == 0.0 then x
  else divideByPower (x / powerOfTen maxPower) (n - maxPower)
termination_by n
decreasing_by
  unfold maxPower at *
  omega

/-- The double `x * 10 ^ exponent`, if it is one. -/
def scale (x : Float) (exponent : Int) : Option Float :=
  match exponent with
  | .ofNat n =>
    if n ≤ maxPower then
      let y := x * powerOfTen n
      if y.isInf then none else some y
    else if x == 0.0 then some x
    else none
  | .negSucc n => some (divideByPower x (n + 1))

/-- The largest exponent that is read as a number, `2 ^ 31 - 1`. -/
def maxExponent : Nat := 2147483647

/-- The double that a number without its sign is read as. -/
def Numeral.magnitude? (n : Numeral) : Option Float :=
  let (head, extra) := gather 0 n.whole
  let (significand, dropped) := gather head n.fraction
  let base : Int := (extra.length : Int) - (n.fraction.length - dropped.length : Nat)
  let x := significand.toUInt64.toFloat
  match n.exponent with
  | none => scale x base
  | some (negative, digits) =>
    let e := digitsValue digits
    if e ≤ maxExponent then scale x (if negative then base - e else base + e)
    else if significand = 0 || negative then some 0.0
    else none

/-- The double that a number is read as. -/
def Numeral.toFloat? (n : Numeral) : Option Float :=
  n.magnitude?.map fun x => if n.negative then -x else x

end LayerCast.Json
