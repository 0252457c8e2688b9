import Std.Data.HashMap
import LayerCast.Content.Manifest
import LayerCast.Network.Packet

/-!
# `LayerCast.Network.Producer`: a source of content

A producer holds a catalog of contents by name and answers interests from it: chunk 0 carries the
length of a content, and the chunks behind it carry its bytes, all zero, in pieces of fixed size
(`Content.chunk`). It may refuse the upper layers, and it may be set to lose or to refuse
everything. How long an answer takes is for the link that carries it.
-/

set_option autoImplicit false

namespace LayerCast

/-- The settings of a producer. -/
structure ProducerSettings where
  /-- Delay of every reply. -/
  latencyMillis : Nat := 20
  /-- Extra delay, below this bound. A bound of 1 leaves no choice. -/
  jitterMillis : Nat := 0
  /-- Bytes in every data chunk but the last. -/
  chunkPayload : Nat := 4096
  /-- Bits per second of each link; none for a link that takes no time. -/
  linkRate : Option Nat := none
  /-- From 1 on every interest is lost; at 0 and below none is. -/
  lossRate : Float := 0.0
  /-- From 1 on every interest is refused because of congestion; at 0 and below none is. -/
  congestionRate : Float := 0.0
  /-- Layers from this level on are refused. -/
  rejectFrom : Option Nat := none
  deriving Repr

/-- One entry of a catalog. -/
structure Content where
  /-- Size in bytes. -/
  size : Nat
  level : Nat
  deriving DecidableEq, Repr

namespace Content

/-- The answer to an interest for chunk 0. A length that does not fit into four bytes cannot be
told, and the content is refused. -/
def length (c : Content) : ReplyBody :=
  if c.size < word32 then .data (Length.encode c.size) else .nack .rejected

/-- The answer to an interest for the data chunk that begins at an offset, none past the end. -/
def piece (c : Content) (payload offset : Nat) : Option ReplyBody :=
  if c.size ≤ offset then none
  else some (.data ⟨Array.replicate (min payload (c.size - offset)) 0⟩)

/-- The answer to an interest for a chunk. -/
def chunk (c : Content) (payload number : Nat) : Checked (Option ReplyBody) :=
  if number = 0 then .ok (some c.length)
  else do
    let offset ← Checked.mul (number - 1) payload
    return c.piece payload offset

end Content

/-- A producer. -/
structure Producer where
  settings : ProducerSettings
  catalog : Std.HashMap String Content := {}

namespace Producer

/-- Publishes a content under the name of a URI, in place of one that had this name. -/
def insert (p : Producer) (uri : String) (size level : Nat) : Producer :=
  { p with catalog := p.catalog.insert (contentName uri) ⟨size, level⟩ }

/-- Publishes a segment. A segment of unknown size has the bytes that its bandwidth yields in its
playback time. -/
def publish (p : Producer) (s : Segment) : Checked Producer := do
  let size ←
    match s.size with
    | some size => .ok size
    | none => (Checked.mul s.bandwidth (Span.millisWord s.duration)).map (· / 8000)
  return p.insert s.uri size s.level

/-- The segments of the current period, level by level. -/
def segmentsOf (m : Manifest) : List Segment :=
  (List.range m.levels).flatMap fun level =>
    (List.range m.currentTotal).filterMap fun number => m.segment? level number

/-- A producer of every segment of the current period. -/
def ofManifest (settings : ProducerSettings) (m : Manifest) : Checked Producer :=
  (segmentsOf m).foldlM publish { settings }

/-- Whether contents of a level are refused. -/
def refuses (p : Producer) (level : Nat) : Bool :=
  match p.settings.rejectFrom with
  | some bound => bound ≤ level
  | none => false

/-- The answer that the catalog gives; none is silence. -/
def respond (p : Producer) (name : ChunkName) : Checked (Option ReplyBody) :=
  match p.catalog[name.segment]? with
  | none => .ok none
  | some content =>
    if p.refuses content.level then .ok (some (.nack .rejected))
    else content.chunk p.settings.chunkPayload name.chunk

/-- The answer that the network lets through. Loss comes before congestion. -/
def react (p : Producer) (name : ChunkName) : Checked (Option ReplyBody) :=
  if 1.0 ≤ p.settings.lossRate then .ok none
  else if 1.0 ≤ p.settings.congestionRate then .ok (some (.nack .congestion))
  else p.respond name

end Producer

end LayerCast
