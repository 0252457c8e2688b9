/-!
# `LayerCast.Arith.Hex`: hexadecimal text and checksums of bytes

Words and bytes are shown in lower case hexadecimal digits. A long run of bytes is shown by its
checksum, the 64-bit FNV-1a hash.
-/

set_option autoImplicit false

namespace LayerCast.Hex

/-- The digits of a number, with leading zeros up to a width. -/
def padded (width n : Nat) : String :=
  let ds := Nat.toDigits 16 n
  String.ofList (List.replicate (width - ds.length) '0' ++ ds)

/-- Two digits for each byte. -/
def ofBytes (bytes : ByteArray) : String :=
  bytes.foldl (fun text b => text ++ padded 2 b.toNat) ""

/-- The value of a digit of either case. -/
def digitValue (c : Char) : Nat :=
  if c.isDigit then c.toNat - 48 else if 'a' ≤ c then c.toNat - 87 else c.toNat - 55

/-- Appends the bytes that pairs of digits stand for. A digit left over is not looked at. -/
def appendPairs (bytes : ByteArray) : List Char → ByteArray
  | a :: b :: rest => appendPairs (bytes.push (digitValue a * 16 + digitValue b).toUInt8) rest
  | _ => bytes

/-- The bytes that pairs of digits stand for. -/
def toBytes (text : String) : ByteArray := appendPairs ByteArray.empty text.toList

/-- The FNV-1a hash of bytes. -/
def checksum (bytes : ByteArray) : UInt64 :=
  bytes.foldl (fun h b => (h ^^^ b.toUInt64) * 0x100000001b3) 0xcbf29ce484222325

end LayerCast.Hex
