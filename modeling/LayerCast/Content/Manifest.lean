import LayerCast.Arith.SortOn
import LayerCast.Error
import LayerCast.Content.Segment

/-!
# `LayerCast.Content.Manifest`: what there is to play

A manifest lists periods, and a period lists representations, each with the paths of its segments.
In a normalized manifest the representations stand in the order of their bandwidth, so that the
index of one is its quality level, and every one of them has segments of positive length.

`Manifest.segment?` is the one way from a level and a number to a segment. It answers for the
numbers that every representation of the period can serve, so that the layers of one segment are
there together or not at all.
-/

set_option autoImplicit false

namespace LayerCast

/-- One encoding of the content; for layered content, one quality layer. -/
structure Representation where
  id : String
  /-- Bits per second, those of the lower layers included. -/
  bandwidth : Nat
  /-- Playback time of every segment, in milliseconds. -/
  segmentMillis : Nat
  /-- Paths of the segments in playback order. -/
  media : Array String
  /-- Sizes of the segments in bytes, as far as they are known. -/
  sizes : Array Nat := #[]
  deriving DecidableEq, Repr

namespace Representation

/-- Playback time of every segment, in nanoseconds. -/
def duration (r : Representation) : Nat := Span.ofMillis r.segmentMillis

end Representation

/-- A stretch of content with one set of representations. -/
structure Period where
  representations : List Representation
  deriving DecidableEq, Repr

/-- The description of the content. -/
structure Manifest where
  baseUrl : String
  periods : List Period
  currentPeriod : Nat := 0
  deriving DecidableEq, Repr

/-- Why a manifest cannot be played. -/
inductive ManifestDefect where
  | noPeriods
  | periodOutOfRange (current count : Nat)
  | noRepresentations (period : Nat)
  | noMedia (representation : String) (period : Nat)
  | zeroDuration (representation : String)
  | noSegments (period : Nat)
  deriving DecidableEq, Repr

namespace ManifestDefect

/-- The sentence that names the defect. -/
def reason : ManifestDefect → String
  | .noPeriods => "manifest has no periods"
  | .periodOutOfRange current count =>
    "current period " ++ toString current ++ " out of range (" ++ toString count ++ " periods)"
  | .noRepresentations period => "period " ++ toString period ++ " has no representations"
  | .noMedia representation period =>
    "representation " ++ representation ++ " of period " ++ toString period ++ " has no segments"
  | .zeroDuration representation =>
    "representation " ++ representation ++ " has a zero segment duration"
  | .noSegments period => "period " ++ toString period ++ " has no segments"

/-- The defect as an error. -/
def toError (d : ManifestDefect) : Error := .manifest d.reason

end ManifestDefect

namespace Period

/-- The defect of a period, if it has one. Missing segments come before zero durations. -/
def defect? (p : Period) (index : Nat) : Option ManifestDefect :=
  if p.representations.isEmpty then some (.noRepresentations index)
  else
    match p.representations.find? (·.media.isEmpty) with
    | some r => some (.noMedia r.id index)
    | none => (p.representations.find? (·.segmentMillis == 0)).map (.zeroDuration ·.id)

/-- Puts the representations into the order of their bandwidth; equal ones keep their order. -/
def sort (p : Period) : Period :=
  { p with representations := sortOn Representation.bandwidth p.representations }

/-- The number of segments that every representation can serve. -/
def totalSegments (p : Period) : Nat :=
  match p.representations with
  | [] => 0
  | r :: rest => rest.foldl (fun least r => min least r.media.size) r.media.size

end Period

namespace Manifest

/-- The first defect of a manifest: of its period index, then of its periods in their order. -/
def defect? (m : Manifest) : Option ManifestDefect :=
  if m.periods.isEmpty then some .noPeriods
  else if m.periods.length ≤ m.currentPeriod then
    some (.periodOutOfRange m.currentPeriod m.periods.length)
  else m.periods.zipIdx.findSome? fun (p, index) => p.defect? index

/-- Checks a manifest and sorts the representations of every period. -/
def normalize (m : Manifest) : Except ManifestDefect Manifest :=
  match m.defect? with
  | some d => .error d
  | none => .ok { m with periods := m.periods.map Period.sort }

/-- A manifest that starts with the first of its periods. -/
def ofPeriods (baseUrl : String) (periods : List Period) : Except ManifestDefect Manifest :=
  normalize { baseUrl, periods }

/-- The representation at `level` of uniform content. -/
def uniformLayer (segments millis bandwidth level : Nat) : Checked Representation := do
  let bits ← Checked.mul bandwidth millis
  let bandwidth ← Checked.mul bandwidth (level + 1)
  return {
    id := "L" ++ toString level
    bandwidth
    segmentMillis := millis
    media := (Array.range segments).map fun n =>
      "L" ++ toString level ++ "/seg_" ++ toString n ++ ".svc"
    sizes := Array.replicate segments (bits / 1000 / 8) }

/-- Uniform content of one period: level `l` has `l + 1` times the given bandwidth, and every
segment has the bytes that the bandwidth of one layer yields in its playback time. -/
def uniform (baseUrl : String) (levels segments duration bandwidth : Nat) :
    Checked (Except ManifestDefect Manifest) := do
  let layer := uniformLayer segments (Span.millisWord duration) bandwidth
  let representations ← (List.range levels).mapM layer
  return ofPeriods baseUrl [⟨representations⟩]

/-- The representations of a period, none for a period that is not there. -/
def representations (m : Manifest) (period : Nat) : List Representation :=
  match m.periods[period]? with
  | some p => p.representations
  | none => []

/-- The number of segments that every representation of a period can serve. -/
def totalSegments (m : Manifest) (period : Nat) : Nat :=
  Period.totalSegments ⟨m.representations period⟩

/-- The number of segments of the current period. -/
def currentTotal (m : Manifest) : Nat := m.totalSegments m.currentPeriod

/-- The number of quality levels of the current period. -/
def levels (m : Manifest) : Nat := (m.representations m.currentPeriod).length

/-- Whether `://` occurs in a text. -/
def hasScheme : List Char → Bool
  | [] => false
  | c :: rest => [':', '/', '/'].isPrefixOf (c :: rest) || hasScheme rest

/-- Whether a path names its place by itself, without the base URL. -/
def isAbsolute (path : String) : Bool := path.toList.head? == some '/' || hasScheme path.toList

/-- Joins a base URL and a relative path by one slash. -/
def join (baseUrl path : String) : String :=
  String.ofList ((baseUrl.toList.reverse.dropWhile (· == '/')).reverse) ++ "/" ++ path

/-- The URI of a segment. -/
def segmentUri? (m : Manifest) (period level number : Nat) : Option String := do
  let r ← (m.representations period)[level]?
  let path ← r.media[number]?
  return if isAbsolute path then path else join m.baseUrl path

/-- The playback time of the segments of a level, in nanoseconds. -/
def segmentDuration? (m : Manifest) (period level : Nat) : Option Nat :=
  (m.representations period)[level]?.map Representation.duration

/-- The size of a segment, if the manifest tells it. -/
def segmentSize? (m : Manifest) (period level number : Nat) : Option Nat := do
  let r ← (m.representations period)[level]?
  r.sizes[number]?

/-- The segment at a level and number of the current period, none past the end of the content. -/
def segment? (m : Manifest) (level number : Nat) : Option Segment :=
  if m.currentTotal ≤ number then none
  else do
    let r ← (m.representations m.currentPeriod)[level]?
    let uri ← m.segmentUri? m.currentPeriod level number
    return {
      uri
      size := m.segmentSize? m.currentPeriod level number
      duration := r.duration
      level
      bandwidth := r.bandwidth
      representation := r.id
      number }

end Manifest

end LayerCast
