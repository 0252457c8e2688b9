import LayerCast.Json.Encode
import LayerCast.Json.Record
import LayerCast.Network.Producer

/-!
# `LayerCast.Network.ProducerText`: producer settings written as JSON

As with the settings of a player, a field that is not written has its default.
-/

set_option autoImplicit false

namespace LayerCast

open Json

/-- Reads the settings of a producer. -/
def ProducerSettings.ofJson? (v : Value) : Option ProducerSettings := do
  let d : ProducerSettings := {}
  match ← v.fields?
      ["latency_ms", "jitter_ms", "max_chunk_payload", "link_bitrate_bps", "loss_rate",
        "congestion_nack_rate", "reject_from_level"] with
  | [latency, jitter, payload, linkRate, loss, congestion, rejectFrom] =>
    return {
      latencyMillis := ← orElse d.latencyMillis Value.word64? latency
      jitterMillis := ← orElse d.jitterMillis Value.word64? jitter
      chunkPayload := ← orElse d.chunkPayload Value.word64? payload
      linkRate := ← orElse d.linkRate (Value.optional? Value.word64?) linkRate
      lossRate := ← orElse d.lossRate Value.float? loss
      congestionRate := ← orElse d.congestionRate Value.float? congestion
      rejectFrom := ← orElse d.rejectFrom (Value.optional? Value.word32?) rejectFrom }
  | _ => none

/-- Writes the settings of a producer. -/
def ProducerSettings.toJson (s : ProducerSettings) : Value :=
  .ofFields [
    ("latency_ms", .ofNat s.latencyMillis),
    ("jitter_ms", .ofNat s.jitterMillis),
    ("max_chunk_payload", .ofNat s.chunkPayload),
    ("link_bitrate_bps", .ofOption .ofNat s.linkRate),
    ("loss_rate", .ofFloat s.lossRate),
    ("congestion_nack_rate", .ofFloat s.congestionRate),
    ("reject_from_level", .ofOption .ofNat s.rejectFrom)]

end LayerCast
