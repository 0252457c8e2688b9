import LayerCast.Json.Printer

/-!
# `LayerCast.Json.Encode`: values as JSON trees

A JSON number is read as a double by many readers. So an integer that a double may not hold is
written as a text of its digits, and a double as its bits.
-/

set_option autoImplicit false

namespace LayerCast.Json.Value

/-- The largest integer up to which every integer is a double. -/
def maxExact : Nat := 9007199254740991

/-- A text. -/
def ofString (s : String) : Value := .text (some s)

/-- An integer, as a text if it is large. -/
def ofNat (n : Nat) : Value :=
  if n ≤ maxExact then .number (.ofNat n) else ofString (toString n)

/-- The bits of a double in hexadecimal digits. -/
def ofFloat (x : Float) : Value := ofString (Hex.padded 16 x.toBits.toNat)

/-- A value that may be missing. -/
def ofOption {α : Type} (encode : α → Value) : Option α → Value
  | some a => encode a
  | none => .null

/-- An object with the given members. -/
def ofFields (fields : List (String × Value)) : Value :=
  .object (fields.map fun (key, v) => (some key, v))

end LayerCast.Json.Value
