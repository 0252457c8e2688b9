import LayerCast.Content.Name

/-!
# `LayerCast.Network.Packet`: what passes over a face

An `Interest` asks for one chunk by name. The network answers with data, with an explicit refusal
or not at all, and a `Reply` may come late, out of order or more than once.

Chunk 0 of a segment carries the length of the segment as four bytes, the highest first
(`Length.encode`, `Length.decode?`).
-/

set_option autoImplicit false

namespace LayerCast

/-- A request for one chunk. -/
structure Interest where
  name : ChunkName
  /-- How long the network keeps the request, in nanoseconds. -/
  lifetime : Nat
  deriving DecidableEq, Repr

/-- Why the network refuses a request. -/
inductive NackReason where
  /-- Overload on the path; the request may be repeated. -/
  | congestion
  /-- The network will not serve this content. -/
  | rejected
  deriving DecidableEq, Repr

/-- The content of a reply. -/
inductive ReplyBody where
  | data (bytes : ByteArray)
  | nack (reason : NackReason)

/-- An answer to an interest, under the name of what it answers. -/
structure Reply where
  name : ChunkName
  body : ReplyBody

namespace Length

/-- A length below `2 ^ 32` as four bytes, the highest first. -/
def encode (n : Nat) : ByteArray :=
  ⟨#[(n / 16777216).toUInt8, (n / 65536).toUInt8, (n / 256).toUInt8, n.toUInt8]⟩

/-- The length in the first four bytes; none if there are fewer. -/
def decode? (bytes : ByteArray) : Option Nat :=
  match (bytes.extract 0 4).data.toList with
  | [a, b, c, d] => some (((a.toNat * 256 + b.toNat) * 256 + c.toNat) * 256 + d.toNat)
  | _ => none

end Length

end LayerCast
