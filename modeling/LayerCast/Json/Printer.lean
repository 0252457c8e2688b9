import LayerCast.Arith.Hex
import LayerCast.Json.Value

/-!
# `LayerCast.Json.Printer`: writing JSON trees

A tree is written without blanks. In a text, the quote, the backslash and the control characters
are escaped, and every other character stands for itself. The writers append to what is written
already, so that a tree is written in one pass.
-/

set_option autoImplicit false

namespace LayerCast.Json

/-- Appends a character of a text. -/
def writeChar (out : String) (c : Char) : String :=
  if c = '"' then out ++ "\\\""
  else if c = '\\' then out ++ "\\\\"
  else if c.toNat < 32 then out ++ "\\u" ++ Hex.padded 4 c.toNat
  else out.push c

/-- Appends a text in quotes. -/
def writeText (out s : String) : String := (s.foldl writeChar (out.push '"')).push '"'

/-- The digits of a natural number. -/
def Numeral.ofNat (n : Nat) : Numeral :=
  { negative := false, whole := Nat.toDigits 10 n, fraction := [], exponent := none }

/-- The text of a number. -/
def Numeral.text (n : Numeral) : String :=
  let sign := if n.negative then ['-'] else []
  let fraction := if n.fraction.isEmpty then [] else '.' :: n.fraction
  let exponent :=
    match n.exponent with
    | some (negative, ds) => 'e' :: (if negative then ['-'] else []) ++ ds
    | none => []
  String.ofList (sign ++ n.whole ++ fraction ++ exponent)

namespace Value

mutual

/-- Appends a value. A string that is no text is written as `null`. -/
def write (out : String) : Value → String
  | .null => out ++ "null"
  | .bool b => out ++ (if b then "true" else "false")
  | .number n => out ++ n.text
  | .text none => out ++ "null"
  | .text (some s) => writeText out s
  | .array [] => out ++ "[]"
  | .array (v :: rest) => (writeItems (write (out.push '[') v) rest).push ']'
  | .object [] => out ++ "\x7b\x7d"
  | .object (m :: rest) => (writeMembers (writeMember (out.push '\x7b') m) rest).push '\x7d'

/-- Appends items, each behind a comma. -/
def writeItems (out : String) : List Value → String
  | [] => out
  | v :: rest => writeItems (write (out.push ',') v) rest

/-- Appends one member of an object. -/
def writeMember (out : String) : Option String × Value → String
  | (key, v) => write ((writeText out (key.getD "")).push ':') v

/-- Appends members, each behind a comma. -/
def writeMembers (out : String) : List (Option String × Value) → String
  | [] => out
  | m :: rest => writeMembers (writeMember (out.push ',') m) rest

end

/-- The text of a value. -/
def print (v : Value) : String := write "" v

end Value

end LayerCast.Json
