import LayerCast.Settings.Basic
import LayerCast.Json.Encode
import LayerCast.Json.Record

/-!
# `LayerCast.Settings.Text`: settings written as JSON

Every field may be left out and then has its default. A field is only left out by not writing it:
`null` is a value, and only the fields that may be absent on purpose take it.

Settings are written with all their fields. Beside a length in milliseconds, whose name ends in
`_ms`, stands the same length in nanoseconds.
-/

set_option autoImplicit false

namespace LayerCast

open Json

/-- The names of the window rules. -/
def WindowRule.names : List (String × WindowRule) :=
  [("aimd", .aimd), ("static", .static)]

/-- The names of the policies. -/
def PolicyKind.names : List (String × PolicyKind) :=
  [("layered", .layered), ("rate_based", .rateBased), ("buffer_based", .bufferBased),
    ("always_lowest", .alwaysLowest), ("always_best", .alwaysBest)]

/-- The name of one of several choices. -/
def nameIn {α : Type} [DecidableEq α] (names : List (String × α)) (a : α) : String :=
  match names.find? (·.2 = a) with
  | some (name, _) => name
  | none => ""

/-- The name of a window rule. -/
def WindowRule.name : WindowRule → String := nameIn WindowRule.names

/-- The name of a policy in settings. -/
def PolicyKind.name : PolicyKind → String := nameIn PolicyKind.names

/-! ### Reading -/

/-- Reads a window rule. -/
def WindowRule.ofJson? : Value → Option WindowRule := Value.choice? WindowRule.names

/-- Reads the name of a policy. -/
def PolicyKind.ofJson? : Value → Option PolicyKind := Value.choice? PolicyKind.names

/-- Reads the settings of a congestion window. -/
def WindowSettings.ofJson? (v : Value) : Option WindowSettings := do
  let d : WindowSettings := {}
  match ← v.fields? ["policy", "link_bitrate_bps", "packet_overhead", "initial_window"] with
  | [rule, linkRate, overhead, initial] =>
    return {
      rule := ← orElse d.rule WindowRule.ofJson? rule
      linkRate := ← orElse d.linkRate Value.word64? linkRate
      packetOverhead := ← orElse d.packetOverhead Value.word64? overhead
      initialSize := ← orElse d.initialSize (Value.optional? Value.word32?) initial }
  | _ => none

/-- Reads the settings of a round trip estimator. -/
def RoundTripSettings.ofJson? (v : Value) : Option RoundTripSettings := do
  let d : RoundTripSettings := {}
  match ← v.fields? ["initial_rtt_ms", "min_rto_ms", "max_rto_ms", "gain"] with
  | [initial, minTimeout, maxTimer, gain] =>
    return {
      initialMillis := ← orElse d.initialMillis Value.word64? initial
      minTimeoutMillis := ← orElse d.minTimeoutMillis Value.word64? minTimeout
      maxTimerMillis := ← orElse d.maxTimerMillis Value.word64? maxTimer
      gain := ← orElse d.gain Value.float? gain }
  | _ => none

/-- Reads the settings of a fetcher. -/
def FetchSettings.ofJson? (v : Value) : Option FetchSettings := do
  let d : FetchSettings := {}
  match ← v.fields?
      ["max_chunk_payload", "initial_chunk_guess", "chunk_retry_limit", "window", "rtt"] with
  | [payload, guess, limit, window, roundTrip] =>
    return {
      chunkPayload := ← orElse d.chunkPayload Value.word64? payload
      chunkGuess := ← orElse d.chunkGuess Value.word32? guess
      retryLimit := ← orElse d.retryLimit (Value.optional? Value.word32?) limit
      window := ← orElse d.window WindowSettings.ofJson? window
      roundTrip := ← orElse d.roundTrip RoundTripSettings.ofJson? roundTrip }
  | _ => none

/-- Reads the settings of a policy. -/
def PolicySettings.ofJson? (v : Value) : Option PolicySettings := do
  let d : PolicySettings := {}
  match ← v.fields?
      ["kind", "gamma", "alpha", "alpha_limit", "rate_history", "reservoir_ms", "cushion_ms"] with
  | [kind, gamma, alpha, alphaLimit, history, reservoir, cushion] =>
    return {
      kind := ← orElse d.kind PolicyKind.ofJson? kind
      gamma := ← orElse d.gamma Value.word32? gamma
      alpha := ← orElse d.alpha Value.float? alpha
      alphaLimit := ← orElse d.alphaLimit Value.float? alphaLimit
      rateHistory := ← orElse d.rateHistory Value.word64? history
      reservoirMillis := ← orElse d.reservoirMillis Value.word64? reservoir
      cushionMillis := ← orElse d.cushionMillis Value.word64? cushion }
  | _ => none

namespace PlayerSettings

/-- Reads the settings of a player. -/
def ofJson? (v : Value) : Option PlayerSettings := do
  let d : PlayerSettings := {}
  match ← v.fields?
      ["max_buffer_ms", "consume_interval_ms", "initial_consume_delay_ms", "pool_size",
        "downloader", "adaptation"] with
  | [maxBuffer, tick, firstTick, poolSize, fetch, policy] =>
    return {
      maxBufferMillis := ← orElse d.maxBufferMillis Value.word64? maxBuffer
      tickMillis := ← orElse d.tickMillis Value.word64? tick
      firstTickMillis := ← orElse d.firstTickMillis Value.word64? firstTick
      poolSize := ← orElse d.poolSize Value.word64? poolSize
      fetch := ← orElse d.fetch FetchSettings.ofJson? fetch
      policy := ← orElse d.policy PolicySettings.ofJson? policy }
  | _ => none

/-- Reads a settings text and checks the settings. -/
def parse (s : String) : Except Error PlayerSettings :=
  match (Value.parse? s).bind ofJson? with
  | none => .error .json
  | some settings => settings.validate.mapError SettingsDefect.toError

end PlayerSettings

/-! ### Writing -/

/-- Writes the settings of a congestion window. -/
def WindowSettings.toJson (s : WindowSettings) : Value :=
  .ofFields [
    ("policy", .ofString s.rule.name),
    ("link_bitrate_bps", .ofNat s.linkRate),
    ("packet_overhead", .ofNat s.packetOverhead),
    ("initial_window", .ofOption .ofNat s.initialSize)]

/-- Writes the settings of a round trip estimator. -/
def RoundTripSettings.toJson (s : RoundTripSettings) : Value :=
  .ofFields [
    ("initial_rtt_ms", .ofNat s.initialMillis),
    ("initial_rtt", .ofNat s.initial),
    ("min_rto_ms", .ofNat s.minTimeoutMillis),
    ("min_rto", .ofNat s.minTimeout),
    ("max_rto_ms", .ofNat s.maxTimerMillis),
    ("max_rto", .ofNat s.maxTimer),
    ("gain", .ofFloat s.gain)]

/-- Writes the settings of a fetcher. -/
def FetchSettings.toJson (s : FetchSettings) : Value :=
  .ofFields [
    ("max_chunk_payload", .ofNat s.chunkPayload),
    ("initial_chunk_guess", .ofNat s.chunkGuess),
    ("chunk_retry_limit", .ofOption .ofNat s.retryLimit),
    ("window", s.window.toJson),
    ("rtt", s.roundTrip.toJson)]

/-- Writes the settings of a policy. -/
def PolicySettings.toJson (s : PolicySettings) : Value :=
  .ofFields [
    ("kind", .ofString s.kind.name),
    ("gamma", .ofNat s.gamma),
    ("alpha", .ofFloat s.alpha),
    ("alpha_limit", .ofFloat s.alphaLimit),
    ("rate_history", .ofNat s.rateHistory),
    ("reservoir_ms", .ofNat s.reservoirMillis),
    ("cushion_ms", .ofNat s.cushionMillis)]

/-- Writes the settings of a player. -/
def PlayerSettings.toJson (s : PlayerSettings) : Value :=
  .ofFields [
    ("max_buffer_ms", .ofNat s.maxBufferMillis),
    ("max_buffer", .ofNat s.maxBuffer),
    ("consume_interval_ms", .ofNat s.tickMillis),
    ("consume_interval", .ofNat s.tick),
    ("initial_consume_delay_ms", .ofNat s.firstTickMillis),
    ("initial_consume_delay", .ofNat s.firstTick),
    ("pool_size", .ofNat s.poolSize),
    ("downloader", s.fetch.toJson),
    ("adaptation", s.policy.toJson)]

end LayerCast
