import LayerCast.Settings.Basic

/-!
# `LayerCast.Transfer.RoundTrip`: round trip times and timeouts

A request that is answered gives a sample of the round trip time, but only if the chunk was
requested once: after a repetition nobody can tell which request the answer belongs to. The
samples are smoothed into a mean and a deviation, and the timeout follows from both. Every failure
doubles the timeout, up to 64 times, until the next sample. With a gain that is no part of 1 the
smoothed values can grow out of all bounds, and the estimate can fail.
-/

set_option autoImplicit false

namespace LayerCast

/-- A request that waits for its answer. -/
structure Sent where
  /-- When it was sent last. -/
  time : Nat
  /-- Whether it was sent before. -/
  repeated : Bool
  deriving DecidableEq, Repr

/-- The round trip estimate of one fetcher. -/
structure RoundTrip where
  settings : RoundTripSettings
  /-- The smoothed round trip time in nanoseconds, after the first sample. -/
  mean : Option Nat := none
  /-- The smoothed deviation in nanoseconds. -/
  deviation : Nat := 0
  /-- The backoff factor, a power of two. -/
  multiplier : Nat := 1
  /-- The requests that wait for an answer, by chunk. -/
  outstanding : List (Nat × Sent) := []

namespace RoundTrip

/-- The largest backoff factor. -/
def maxMultiplier : Nat := 64

/-- An estimate before any sample. -/
def ofSettings (settings : RoundTripSettings) : RoundTrip := { settings }

/-- The waiting requests without that for `chunk`. -/
def without (outstanding : List (Nat × Sent)) (chunk : Nat) : List (Nat × Sent) :=
  outstanding.filter (·.1 != chunk)

/-- Notes a request for a chunk. -/
def sent (r : RoundTrip) (chunk now : Nat) : RoundTrip :=
  let repeated := (r.outstanding.lookup chunk).isSome
  { r with outstanding := (chunk, ⟨now, repeated⟩) :: without r.outstanding chunk }

/-- Takes a sample into the estimate. The gain may be any number, and with one above 1 the mean and
the deviation can leave the range of lengths of time, which is a fault. -/
def measure (r : RoundTrip) (sample : Nat) : Checked RoundTrip :=
  match r.mean with
  | none => .ok { r with mean := some sample, deviation := sample / 2, multiplier := 1 }
  | some mean => do
    let gain := r.settings.gain
    let error := (Span.toSeconds sample - Span.toSeconds mean).abs
    let mean ← Span.ofSeconds
      (Binary64.approach gain (Span.toSeconds mean) (Span.toSeconds sample))
    let deviation ← Span.ofSeconds
      (Binary64.approach gain (Span.toSeconds r.deviation) error)
    return { r with mean := some mean, deviation, multiplier := 1 }

/-- Notes the answer to a request, and takes a sample if the request was sent once. -/
def ack (r : RoundTrip) (chunk now : Nat) : Checked (Option Nat × RoundTrip) :=
  match r.outstanding.lookup chunk with
  | none => .ok (none, r)
  | some s =>
    let r := { r with outstanding := without r.outstanding chunk }
    if s.repeated then .ok (none, r)
    else do
      let sample := Instant.since now s.time
      return (some sample, ← r.measure sample)

/-- Doubles the timeout. -/
def backOff (r : RoundTrip) : RoundTrip :=
  { r with multiplier := min (r.multiplier * 2) maxMultiplier }

/-- The smoothed round trip time, or what is assumed before the first sample. -/
def smoothed (r : RoundTrip) : Nat := r.mean.getD r.settings.initial

/-- The retransmission timeout with its backoff. That a sum or product which leaves the range of
lengths of time is a fault is left out here: none does as long as the gain is a part of 1
(`Fetcher.Workable.timeout_lt`), and where a fetcher is shown not to fail, the gain is one. -/
def timeout (r : RoundTrip) : Nat :=
  let base :=
    match r.mean with
    | some mean => mean + r.deviation * 4
    | none => r.settings.initial
  max base r.settings.minTimeout * r.multiplier

/-- The timer of the next request: the timeout, up to the largest one allowed. -/
def timer (r : RoundTrip) : Nat := min r.timeout r.settings.maxTimer

/-- Forgets the waiting requests and keeps the estimate. -/
def forget (r : RoundTrip) : RoundTrip := { r with outstanding := [] }

end RoundTrip

end LayerCast
