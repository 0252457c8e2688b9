import LayerCast.Clock.Span
import LayerCast.Content.Name

/-!
# `LayerCast.Content.Segment`: segments and their deliveries

A `Segment` is one time interval of one quality layer, the unit that a policy asks for and the
pool fetches. A `Delivery` is a segment whose bytes have arrived, with the counts of the transfer
that brought them.
-/

set_option autoImplicit false

namespace LayerCast

/-- One time interval of one representation of the content. -/
structure Segment where
  uri : String
  /-- Size in bytes, when the manifest tells it. -/
  size : Option Nat
  /-- Playback time in nanoseconds. -/
  duration : Nat
  /-- Quality level; the base layer is level 0. -/
  level : Nat
  /-- Bits per second. -/
  bandwidth : Nat
  representation : String
  /-- Position in playback order within the period. -/
  number : Nat
  deriving DecidableEq, Repr

namespace Segment

/-- The name under which the chunks of the segment are requested. -/
def name (s : Segment) : String := contentName s.uri

/-- The short text that stands for a segment in reports. -/
def label (s : Segment) : String :=
  s.representation ++ "#" ++ toString s.number ++ "@L" ++ toString s.level

end Segment

/-- What happened to the requests of one transfer. -/
structure Tally where
  /-- Interests sent, repeated ones included. -/
  interests : Nat := 0
  /-- Chunks accepted. -/
  data : Nat := 0
  /-- Data for chunks that had arrived before. -/
  duplicates : Nat := 0
  timeouts : Nat := 0
  /-- Requests refused because of congestion. -/
  nacks : Nat := 0
  deriving DecidableEq, Repr

namespace Tally

/-- Interests beyond one for each accepted chunk. -/
def retransmissions (t : Tally) : Nat := t.interests - t.data

/-- Column by column sum of two tallies; the columns are 64-bit words. -/
def add (a b : Tally) : Checked Tally := do
  let interests ← Checked.add a.interests b.interests
  let data ← Checked.add a.data b.data
  let duplicates ← Checked.add a.duplicates b.duplicates
  let timeouts ← Checked.add a.timeouts b.timeouts
  let nacks ← Checked.add a.nacks b.nacks
  return { interests, data, duplicates, timeouts, nacks }

end Tally

/-- The distance from 1 to the next double, below which a transfer counts as instantaneous. -/
def instantaneous : Float := 2.220446049250313e-16

/-- Bits per second of `size` bytes in `elapsed` nanoseconds, cut off at the largest 64-bit word. -/
def throughput (size elapsed : Nat) : Nat :=
  let seconds := Span.toSeconds elapsed
  if seconds ≤ instantaneous then word64 - 1
  else (size.toUInt64.toFloat * 8.0 / seconds).toUInt64.toNat

/-- Bytes are compared by the array that they are. -/
local instance decidableEqBytes : DecidableEq ByteArray :=
  fun _ _ => decidable_of_iff _ ByteArray.ext_iff.symm

/-- A segment that has arrived. -/
structure Delivery where
  segment : Segment
  bytes : ByteArray
  /-- When the transfer was started. -/
  started : Nat
  /-- How long it took, in nanoseconds. -/
  elapsed : Nat
  tally : Tally
  deriving DecidableEq

namespace Delivery

/-- The goodput of the transfer in bits per second. -/
def throughput (d : Delivery) : Nat := LayerCast.throughput d.bytes.size d.elapsed

end Delivery

end LayerCast
