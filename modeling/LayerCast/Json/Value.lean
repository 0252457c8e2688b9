/-!
# `LayerCast.Json.Value`: raw JSON trees

A JSON text as it is written: an object keeps its members in order and with repetitions, and a
number keeps its digits, since what a digit string means depends on the field it is read for. A
string whose escapes name half of a surrogate pair is no text; it is kept as `none` and is only an
error where the text is asked for.
-/

set_option autoImplicit false

namespace LayerCast.Json

/-- A number as written: sign, digits before the point, digits after it (none without a point),
and the digits of the exponent with its sign. -/
structure Numeral where
  negative : Bool
  whole : List Char
  fraction : List Char
  exponent : Option (Bool × List Char)
  deriving DecidableEq, Repr

/-- A JSON value. -/
inductive Value where
  | null
  | bool (b : Bool)
  | number (n : Numeral)
  | text (s : Option String)
  | array (items : List Value)
  | object (members : List (Option String × Value))
  deriving Repr

/-- Whether a number is written as an integer, without point and exponent. -/
def Numeral.isInteger (n : Numeral) : Bool :=
  n.fraction.isEmpty && n.exponent.isNone

/-- The value of a string of decimal digits. -/
def digitsValue (ds : List Char) : Nat :=
  ds.foldl (fun acc d => acc * 10 + (d.toNat - 48)) 0

/-- The natural number that is written. A minus sign excludes one, also before a zero. -/
def Numeral.toNat? (n : Numeral) : Option Nat :=
  if n.isInteger && !n.negative then some (digitsValue n.whole) else none

end LayerCast.Json
