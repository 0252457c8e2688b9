import LayerCast.Network.Channel
import LayerCast.Network.Producer
import LayerCast.Network.Script
import LayerCast.Simulation.Transit

/-!
# `LayerCast.Simulation.Face`: one attachment to a simulated network

A face takes interests and delivers replies on a clock of whole milliseconds. Behind it is a
script, or a producer at the far end of a link.

A script answers at once, and its replies can be read from the moment at which they arrive. A
producer works at its own pace: the interests of a moment wait in a backlog until the client can do
nothing more at that moment, and so do replies that arrive then. `Face.settle` is the point at
which the far end has its turn.

A face that is closed takes no more interests. Replies on their way still arrive, and only then the
client sees the end.
-/

set_option autoImplicit false

namespace LayerCast

/-- What is behind a face. -/
inductive Source where
  /-- A script, with the number of attempts at each chunk so far. -/
  | scripted (script : Script) (attempts : Std.HashMap ChunkName Nat)
  /-- A producer, with the moment at which its link is free and the interests that wait, the
  latest first. -/
  | served (producer : Producer) (freeAt : Nat) (backlog : List ChunkName)

/-- A face. -/
structure Face where
  source : Source
  isOpen : Bool := true
  /-- Every interest with its time, the latest first. -/
  log : List (Nat × Interest) := []
  /-- Replies on their way. -/
  transit : Transit := {}
  /-- Replies that have arrived, the earliest first. -/
  inbox : List Reply := []

namespace Face

/-- A face with a script behind it. -/
def ofScript (s : Script) : Face := { source := .scripted s {} }

/-- A face with a producer behind it. -/
def ofProducer (p : Producer) : Face := { source := .served p 0 [] }

/-! ### Sending -/

/-- Sends a reply on its way. -/
def schedule (face : Face) (time : Nat) (r : Reply) : Face :=
  { face with transit := face.transit.insert time r }

/-- Closes a face. -/
def close (face : Face) : Face := { face with isOpen := false }

/-- The client sends an interest. Tells whether the face takes it. -/
def express (face : Face) (now : Nat) (i : Interest) : Bool × Face :=
  let face := { face with log := (now, i) :: face.log }
  if !face.isOpen then (false, face)
  else
    match face.source with
    | .served producer freeAt backlog =>
      (true, { face with source := .served producer freeAt (i.name :: backlog) })
    | .scripted script attempts =>
      let attempt := attempts.getD i.name 0 + 1
      let face := { face with source := .scripted script (attempts.insert i.name attempt) }
      match script.answer i.name attempt with
      | .close => (false, face.close)
      | .replies rs =>
        (true, rs.foldl (fun face (delay, r) => face.schedule (now + Span.ofMillis delay) r) face)

/-! ### Receiving -/

/-- What a closed face shows when nothing is left, and an open one when nothing is there. -/
def nothing (face : Face) : Received :=
  if face.isOpen || !face.transit.isEmpty then .pending else .closed

/-- Delivers the first replies on their way as long as the times of their arrival pass a test.
Tells whether there were any. -/
def deliver (face : Face) (test : Nat → Bool) : Bool × Face :=
  match face.transit.takeWhile test with
  | ([], _) => (false, face)
  | (arrived, transit) => (true, { face with inbox := face.inbox ++ arrived.map (·.2), transit })

/-- What can be read at a moment: the replies of a script are there as soon as they arrive. -/
def refresh (face : Face) (now : Nat) : Face :=
  match face.source with
  | .scripted .. => (face.deliver (· ≤ now)).2
  | .served .. => face

/-- The client looks for a reply. -/
def receive (face : Face) (now : Nat) : Received × Face :=
  let face := face.refresh now
  match face.inbox with
  | r :: rest => (.reply r, { face with inbox := rest })
  | [] => (face.nothing, face)

/-- The next arrival after `now`. -/
def nextArrival? (face : Face) (now : Nat) : Option Nat := face.transit.next? now

/-! ### The far end -/

/-- Carries a reply over a link that is free from `freeAt` on. Returns when the link is free
again, and how long the reply waits for its last bit; none for a link that never carries it.
Refusals take no time, and neither does a link without a rate. -/
def carry? (rate : Option Nat) (freeAt now : Nat) : ReplyBody → Option (Nat × Nat)
  | .nack _ => some (freeAt, 0)
  | .data bytes =>
    match rate with
    | none => some (freeAt, 0)
    | some rate => do
      let time ← Span.ofSeconds? (bytes.size.toUInt64.toFloat * 8.0 / rate.toUInt64.toFloat)
      let done := max freeAt now + time
      return (done, done - now)

/-- A producer answers one interest over a link that is free from `freeAt` on. Returns when the
link is free again; none if the producer cannot go on. -/
def serve? (producer : Producer) (now : Nat) (face : Face) (freeAt : Nat) (name : ChunkName) :
    Option (Face × Nat) :=
  match producer.react name with
  | .error _ => none
  | .ok none => some (face, freeAt)
  | .ok (some body) => do
    let (freeAt, wait) ← carry? producer.settings.linkRate freeAt now body
    let latency := Span.ofMillis producer.settings.latencyMillis
    return (face.schedule (Instant.after now (latency + wait)) ⟨name, body⟩, freeAt)

/-- A producer answers the interests that have waited, in their order. Where it cannot go on, the
face is closed and the other interests are lost. -/
def serveAll (producer : Producer) (now : Nat) (face : Face) (freeAt : Nat) :
    List ChunkName → Face
  | [] => { face with source := .served producer freeAt [] }
  | name :: rest =>
    match serve? producer now face freeAt name with
    | some (face, freeAt) => serveAll producer now face freeAt rest
    | none => { face with source := .served producer freeAt [], isOpen := false }

/-- The far end has its turn. Tells whether it has left something to see for the client. -/
def settle (face : Face) (now : Nat) : Bool × Face :=
  match face.source with
  | .scripted .. => (false, face)
  | .served producer freeAt backlog =>
    let served := if face.isOpen then serveAll producer now face freeAt backlog.reverse else face
    let (arrived, settled) := served.deliver (· ≤ now)
    (arrived || settled.isOpen != face.isOpen, settled)

/-- Time passes from `now` to `later` while nobody reads. What arrives just then comes after
whoever waits for that moment. -/
def pass (face : Face) (now later : Nat) : Face :=
  match face.source with
  | .scripted .. => face
  | .served .. => if now < later then ((face.settle now).2.deliver (· < later)).2 else face

end Face

end LayerCast
