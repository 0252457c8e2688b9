import LayerCast.Content.Segment

/-!
# `LayerCast.Playback.Report`: the summary of one playback

A report lists the layers that arrived and the stalls, and sums up. The sums are 64-bit words, so
they are `Checked`.
-/

set_option autoImplicit false

namespace LayerCast

/-- A layer that arrived during playback. -/
structure LayerRecord where
  segment : Segment
  /-- Size in bytes. -/
  bytes : Nat
  /-- How long the transfer took, in nanoseconds. -/
  elapsed : Nat
  tally : Tally
  deriving DecidableEq, Repr

/-- What a report keeps of a delivery. -/
def Delivery.toRecord (d : Delivery) : LayerRecord :=
  { segment := d.segment, bytes := d.bytes.size, elapsed := d.elapsed, tally := d.tally }

/-- A moment at which playback had nothing to play. -/
structure StallRecord where
  /-- The time since playback was started, in nanoseconds. -/
  offset : Nat
  /-- The segment that should have been playing. -/
  number : Nat
  deriving DecidableEq, Repr

/-- The summary of one playback. -/
structure Report where
  records : List LayerRecord := []
  stalls : List StallRecord := []
  /-- Number of layers lost to rejections, the rejected ones included. -/
  shedLayers : Nat := 0
  /-- Playback time that was consumed, in nanoseconds. -/
  played : Nat := 0
  /-- Whether playback came to the end of the content. -/
  completed : Bool := false
  deriving DecidableEq, Repr

namespace Report

/-- The bytes of all layers. -/
def bytes (r : Report) : Checked Nat :=
  r.records.foldlM (fun sum record => Checked.add sum record.bytes) 0

/-- Number of segments with a base layer. -/
def segments (r : Report) : Nat := (r.records.filter (·.segment.level == 0)).length

/-- The mean number of layers for each base layer. -/
def meanLayers (r : Report) : Float :=
  if r.segments = 0 then 0.0
  else r.records.length.toUInt64.toFloat / r.segments.toUInt64.toFloat

/-- The highest level that arrived. -/
def highest? (r : Report) : Option Nat := (r.records.map (·.segment.level)).max?

/-- The sum of all tallies. -/
def totals (r : Report) : Checked Tally :=
  r.records.foldlM (fun sum record => sum.add record.tally) {}

end Report

end LayerCast
