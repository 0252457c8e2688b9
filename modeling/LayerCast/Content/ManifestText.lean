import LayerCast.Content.Manifest
import LayerCast.Json.Record

/-!
# `LayerCast.Content.ManifestText`: manifests written as JSON

A manifest text has the members `base_url` and `periods`, and may have `current_period`. A
manifest that was read is normalized before it is handed out (`Manifest.parse`);
`Manifest.ofJson?` alone only looks at the fields.
-/

set_option autoImplicit false

namespace LayerCast

open Json

/-- Reads a representation. Only the sizes may be missing. -/
def Representation.ofJson? (v : Value) : Option Representation := do
  match ← v.fields? ["id", "bandwidth", "segment_duration_ms", "media", "sizes"] with
  | [id, bandwidth, duration, media, sizes] =>
    return {
      id := ← required Value.text? id
      bandwidth := ← required Value.word64? bandwidth
      segmentMillis := ← required Value.word64? duration
      media := (← required (Value.list? Value.text?) media).toArray
      sizes := (← orElse [] (Value.list? Value.word64?) sizes).toArray }
  | _ => none

/-- Reads a period. -/
def Period.ofJson? (v : Value) : Option Period := do
  match ← v.fields? ["representations"] with
  | [representations] =>
    return ⟨← required (Value.list? Representation.ofJson?) representations⟩
  | _ => none

namespace Manifest

/-- Reads the fields of a manifest. -/
def ofJson? (v : Value) : Option Manifest := do
  match ← v.fields? ["base_url", "periods", "current_period"] with
  | [baseUrl, periods, current] =>
    return {
      baseUrl := ← required Value.text? baseUrl
      periods := ← required (Value.list? Period.ofJson?) periods
      currentPeriod := ← orElse 0 Value.word64? current }
  | _ => none

/-- Reads a manifest text and normalizes the manifest. -/
def parse (s : String) : Except Error Manifest :=
  match (Value.parse? s).bind ofJson? with
  | none => .error .json
  | some m => m.normalize.mapError ManifestDefect.toError

end Manifest

end LayerCast
