import LayerCast.Error
import LayerCast.Clock.Span

/-!
# `LayerCast.Settings.Basic`: the settings of a player

The settings are plain records, one for each part of the player, with the values that hold when
nothing else is said. Lengths of time are whole milliseconds. `PlayerSettings.defect?` names the
first contradiction; a player is only built from settings without one.
-/

set_option autoImplicit false

namespace LayerCast

/-- How a congestion window reacts to the network. -/
inductive WindowRule where
  /-- Slow start below the threshold, linear growth above it, halving on congestion. -/
  | aimd
  /-- A fixed window. -/
  | static
  deriving DecidableEq, Repr

/-- Settings of a congestion window. -/
structure WindowSettings where
  rule : WindowRule := .aimd
  /-- Bits per second of the link; the ceiling of the window follows from it. -/
  linkRate : Nat := 10000000
  /-- Bytes of header in every packet, beside the payload. -/
  packetOverhead : Nat := 50
  /-- The size to start with; none starts at the ceiling. -/
  initialSize : Option Nat := none
  deriving Repr

/-- Settings of a round trip estimator. -/
structure RoundTripSettings where
  /-- The round trip that is assumed before the first sample. -/
  initialMillis : Nat := 500
  /-- Lower bound of a retransmission timeout, before backoff. -/
  minTimeoutMillis : Nat := 100
  /-- Upper bound of a single timer. -/
  maxTimerMillis : Nat := 1000
  /-- Weight of a new sample in the mean and in the deviation. -/
  gain : Float := 0.125
  deriving Repr

/-- Settings of a fetcher. -/
structure FetchSettings where
  /-- Bytes in every data chunk but the last. -/
  chunkPayload : Nat := 4096
  /-- Number of chunks that is assumed until the length is known. -/
  chunkGuess : Nat := 10
  /-- Give up on a segment once one chunk was requested more often than this. -/
  retryLimit : Option Nat := none
  window : WindowSettings := {}
  roundTrip : RoundTripSettings := {}
  deriving Repr

/-- The built-in policies. -/
inductive PolicyKind where
  | layered
  | rateBased
  | bufferBased
  | alwaysLowest
  | alwaysBest
  deriving DecidableEq, Repr

/-- Settings of the policy that chooses what is fetched next. -/
structure PolicySettings where
  kind : PolicyKind := .layered
  /-- Buffered segments wanted on the top layer. -/
  gamma : Nat := 3
  /-- Growth of the wanted number for each layer below the top: at first, and at least. -/
  alpha : Float := 3.0
  /-- Upper bound of the growth after failures. -/
  alphaLimit : Float := 6.0
  /-- Number of past deliveries that the rate-based policy averages. -/
  rateHistory : Nat := 10
  /-- Below this fill the buffer-based policy takes the lowest representation. -/
  reservoirMillis : Nat := 4000
  /-- This much above the reservoir it takes the best one. -/
  cushionMillis : Nat := 10000
  deriving Repr

/-- Settings of a player. -/
structure PlayerSettings where
  /-- Capacity of the playback buffer. -/
  maxBufferMillis : Nat := 20000
  /-- Playback time that is consumed at a time. -/
  tickMillis : Nat := 1000
  /-- Time between the start and the first tick. -/
  firstTickMillis : Nat := 2000
  /-- Number of fetchers. -/
  poolSize : Nat := 4
  fetch : FetchSettings := {}
  policy : PolicySettings := {}
  deriving Repr

/-- Why settings cannot be used. -/
inductive SettingsDefect where
  | zeroBuffer
  | zeroTick
  | emptyPool
  | zeroPayload
  | zeroGuess
  | zeroTimer
  | limitBelowAlpha
  | faceCount (expected got : Nat)
  | noFetchers
  deriving DecidableEq, Repr

namespace SettingsDefect

/-- The sentence that names the defect. -/
def reason : SettingsDefect → String
  | .zeroBuffer => "max_buffer_ms must be positive"
  | .zeroTick => "consume_interval_ms must be positive"
  | .emptyPool => "pool_size must be positive"
  | .zeroPayload => "max_chunk_payload must be positive"
  | .zeroGuess => "initial_chunk_guess must be positive"
  | .zeroTimer => "max_rto_ms must be positive"
  | .limitBelowAlpha => "alpha_limit must not be below alpha"
  | .faceCount expected got =>
    "expected " ++ toString expected ++ " faces, got " ++ toString got
  | .noFetchers => "download manager needs at least one downloader"

/-- The defect as an error. -/
def toError (d : SettingsDefect) : Error := .configuration d.reason

end SettingsDefect

namespace RoundTripSettings

/-- The round trip that is assumed before the first sample, in nanoseconds. -/
def initial (s : RoundTripSettings) : Nat := Span.ofMillis s.initialMillis

/-- Lower bound of a retransmission timeout, in nanoseconds. -/
def minTimeout (s : RoundTripSettings) : Nat := Span.ofMillis s.minTimeoutMillis

/-- Upper bound of a single timer, in nanoseconds. -/
def maxTimer (s : RoundTripSettings) : Nat := Span.ofMillis s.maxTimerMillis

end RoundTripSettings

namespace PlayerSettings

/-- Capacity of the playback buffer, in nanoseconds. -/
def maxBuffer (s : PlayerSettings) : Nat := Span.ofMillis s.maxBufferMillis

/-- Playback time that is consumed at a time, in nanoseconds. -/
def tick (s : PlayerSettings) : Nat := Span.ofMillis s.tickMillis

/-- Time between the start and the first tick, in nanoseconds. -/
def firstTick (s : PlayerSettings) : Nat := Span.ofMillis s.firstTickMillis

/-- The first contradiction in the settings. -/
def defect? (s : PlayerSettings) : Option SettingsDefect :=
  if s.maxBufferMillis = 0 then some .zeroBuffer
  else if s.tickMillis = 0 then some .zeroTick
  else if s.poolSize = 0 then some .emptyPool
  else if s.fetch.chunkPayload = 0 then some .zeroPayload
  else if s.fetch.chunkGuess = 0 then some .zeroGuess
  else if s.fetch.roundTrip.maxTimerMillis = 0 then some .zeroTimer
  else if s.policy.alphaLimit < s.policy.alpha then some .limitBelowAlpha
  else none

/-- The settings themselves, if nothing in them contradicts itself. -/
def validate (s : PlayerSettings) : Except SettingsDefect PlayerSettings :=
  match s.defect? with
  | some d => .error d
  | none => .ok s

end PlayerSettings

end LayerCast
