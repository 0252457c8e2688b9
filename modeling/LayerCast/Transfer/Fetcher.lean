import LayerCast.Content.Segment
import LayerCast.Network.Packet
import LayerCast.Transfer.ChunkTable
import LayerCast.Transfer.RoundTrip
import LayerCast.Transfer.Timers
import LayerCast.Transfer.Window

/-!
# `LayerCast.Transfer.Fetcher`: the transfer of one segment

A fetcher brings one segment at a time. It asks for chunk 0, which tells the length, and for the
data chunks behind it, whose number is guessed until chunk 0 is there. Requests are paced, their
number is bounded by the congestion window, and each one arms a retransmission timer. A timeout or
a congestion refusal puts the chunk back in line and shrinks the window, at most once per
timeout; data lets the window grow, as rarely.

The fetcher is a state, and everything that can happen to it is a `Wake`: a reply, the end of the
face, an expired timer, or the pacing tick. `Fetcher.due?` says which one is next at a moment and
`Fetcher.handle` carries it out. Interests go into `outbox`, from where whoever drives the fetcher
hands them to the face, and what the owner of the fetcher has to know goes into `events`.
-/

set_option autoImplicit false

namespace LayerCast

/-- What a fetcher tells its owner. -/
inductive FetchEvent where
  /-- Every byte has arrived, and the delivery can be taken. -/
  | finished
  /-- The network refused the segment, or a chunk was requested too often. -/
  | rejected
  /-- Every chunk is requested; from here on the transfer only drains. -/
  | soonFinished
  deriving DecidableEq, Repr

/-- What a fetcher is doing. -/
inductive FetchPhase where
  | idle
  | downloading
  | finished
  | aborted
  deriving DecidableEq, Repr

/-- The state of one transfer. -/
structure Transfer where
  segment : Segment
  /-- The name of the segment, under which its chunks are requested. -/
  name : String
  chunks : ChunkTable
  /-- Bytes still to come. It starts at -1; chunk 0 adds the length and 1, and every data chunk
  subtracts its size, so that it is 0 only when chunk 0 and all bytes are there. -/
  remaining : Int := -1
  /-- The data chunks that have arrived, the highest number first. -/
  parts : List (Nat × ByteArray) := []
  /-- When the transfer was started. -/
  started : Nat
  tally : Tally := {}
  /-- Whether the owner was told that every chunk is requested. -/
  drained : Bool := false

/-- A fetcher. -/
structure Fetcher where
  id : Nat
  settings : FetchSettings
  /-- The window that a transfer starts with when nobody has installed one. -/
  freshWindow : Window
  window : Option Window
  roundTrip : RoundTrip
  phase : FetchPhase := .idle
  transfer : Option Transfer := none
  timers : Timers := {}
  /-- The moment of the next pacing tick. -/
  pacing : Option Nat := none
  lastCongestion : Option Nat := none
  lastIncrease : Option Nat := none
  /-- Events that the owner has not taken yet, the oldest first. -/
  events : List FetchEvent := []
  completed : Option Delivery := none
  faceClosed : Bool := false
  /-- Interests that the face has not been handed yet, the oldest first. -/
  outbox : List Interest := []

/-- What can happen to a fetcher. -/
inductive Wake where
  /-- A reply has arrived. -/
  | reply (r : Reply)
  /-- The face has ended. -/
  | faceEnd
  /-- The retransmission timer of a chunk has expired. -/
  | timer (chunk : Nat)
  /-- It is time for the next request. -/
  | tick

namespace Fetcher

/-- The time between the start of a transfer and its first pacing tick, in nanoseconds. -/
def firstTick : Nat := Span.perMilli

/-- A fetcher that has nothing to do. -/
def ofSettings (id : Nat) (settings : FetchSettings) : Checked Fetcher := do
  let window ← Window.ofSettings settings.window settings.chunkPayload
  return {
    id
    settings
    freshWindow := window
    window := some window
    roundTrip := RoundTrip.ofSettings settings.roundTrip }

/-- The segment of the present or last transfer. -/
def segment? (f : Fetcher) : Option Segment := f.transfer.map (·.segment)

/-- Whether a transfer is running. -/
def isBusy (f : Fetcher) : Bool := f.phase == .downloading

/-- Whether the last transfer came to its end. -/
def isFinished (f : Fetcher) : Bool := f.phase == .finished

/-- Takes the oldest event, if there is one. -/
def takeEvent? (f : Fetcher) : Option (FetchEvent × Fetcher) :=
  match f.events with
  | [] => none
  | e :: rest => some (e, { f with events := rest })

/-- Takes the delivery away. -/
def takeCompleted (f : Fetcher) : Option Delivery × Fetcher :=
  (f.completed, { f with completed := none })

/-- Hands the fetcher a window. -/
def installWindow (f : Fetcher) (window : Window) : Fetcher :=
  { f with window := some window }

/-- Takes the window away. -/
def releaseWindow (f : Fetcher) : Option Window × Fetcher :=
  (f.window, { f with window := none })

/-- Disarms the retransmission timers and the pacing tick. -/
def stopTimers (f : Fetcher) : Fetcher :=
  { f with timers := {}, pacing := none }

/-- Drops all that belongs to one transfer. The window and the round trip estimate stay. -/
def clear (f : Fetcher) : Fetcher :=
  { f.stopTimers with
    roundTrip := f.roundTrip.forget
    transfer := none
    completed := none
    events := [] }

/-- Drops the transfer and returns to idleness. -/
def reset (f : Fetcher) : Fetcher := { f.clear with phase := .idle }

/-- Gives up the transfer: all chunks that have not arrived, and all timers. -/
def abort (f : Fetcher) : Fetcher :=
  { f.stopTimers with
    transfer := f.transfer.map fun t => { t with chunks := t.chunks.abort }
    phase := if f.phase = .downloading then .aborted else f.phase }

/-- Tells the owner something. -/
def emit (f : Fetcher) (e : FetchEvent) : Fetcher :=
  { f with events := f.events ++ [e] }

/-- Gives up the transfer and says so. -/
def reject (f : Fetcher) : Fetcher := f.abort.emit .rejected

/-- Whether a chunk that was requested so often may be requested again. -/
def mayRequest (f : Fetcher) (attempts : Nat) : Bool :=
  match f.settings.retryLimit with
  | some limit => attempts ≤ limit
  | none => true

/-- Sends an interest for a chunk and arms its timer, or gives up when the chunk was requested
too often. -/
def request (f : Fetcher) (now chunk : Nat) : Fetcher :=
  match f.transfer with
  | none => f
  | some t =>
    if !f.mayRequest (t.chunks.attemptsOf chunk) then f.reject
    else
      match t.chunks.request? chunk with
      | none => f
      | some chunks =>
        let timer := f.roundTrip.timer
        { f with
          transfer := some { t with
            chunks
            tally := { t.tally with interests := t.tally.interests + 1 } }
          roundTrip := f.roundTrip.sent chunk now
          timers := f.timers.arm chunk (Instant.after now timer)
          outbox := f.outbox ++ [⟨⟨t.name, chunk⟩, timer⟩] }

/-- Starts a transfer in place of whatever was there. -/
def begin (f : Fetcher) (now : Nat) (segment : Segment) : Fetcher :=
  let f := { f.clear with
    window := some (f.window.getD f.freshWindow)
    transfer := some {
      segment
      name := segment.name
      chunks := ChunkTable.ofSize f.settings.chunkGuess
      started := now }
    phase := .downloading }
  { f.request now 0 with pacing := some (Instant.after now firstTick) }

/-- Starts a transfer unless one is running. -/
def start? (f : Fetcher) (now : Nat) (segment : Segment) : Option Fetcher :=
  if f.isBusy then none else some (f.begin now segment)

/-- The time between two requests, in nanoseconds. -/
def pacingInterval (f : Fetcher) : Nat :=
  match f.window with
  | some w => w.pacing
  | none => firstTick

/-- Sets the next pacing tick if a chunk has to be requested, and says so the first time that none
has to be. -/
def scheduleNext (f : Fetcher) (now : Nat) : Fetcher :=
  if f.phase ≠ .downloading ∨ f.pacing.isSome then f
  else
    match f.transfer with
    | none => f
    | some t =>
      match t.chunks.nextNeeded with
      | some _ => { f with pacing := some (Instant.after now f.pacingInterval) }
      | none =>
        if t.drained then f
        else { f with transfer := some { t with drained := true } }.emit .soonFinished

/-- The number of requests that may be out. -/
def windowSize (f : Fetcher) : Nat :=
  match f.window with
  | some w => w.size
  | none => 1

/-- The pacing tick: requests the next chunk, if the window has room. Without room the next reply
or timeout sets the tick again. -/
def onTick (f : Fetcher) (now : Nat) : Fetcher :=
  match f.transfer with
  | none => f
  | some t =>
    if f.windowSize ≤ t.chunks.inFlight then f
    else
      match t.chunks.nextNeeded with
      | some chunk => (f.request now chunk).scheduleNext now
      | none => f.scheduleNext now

/-- Whether `time` lies within one timeout before `now`. -/
def isRecent (f : Fetcher) (now : Nat) : Option Nat → Bool
  | some time => Instant.since now time ≤ f.roundTrip.timeout
  | none => false

/-- Shrinks the window, at most once per timeout. -/
def shrinkWindow (f : Fetcher) (now : Nat) : Fetcher :=
  if f.isRecent now f.lastCongestion then f
  else
    let inFlight :=
      match f.transfer with
      | some t => t.chunks.inFlight
      | none => 0
    { f with
      lastCongestion := some now
      window := f.window.map fun w => w.shrink.setThreshold inFlight }

/-- Lets the window grow, at most once per timeout and not within one of congestion. -/
def growWindow (f : Fetcher) (now : Nat) : Fetcher :=
  if f.isRecent now f.lastIncrease || f.isRecent now f.lastCongestion then f
  else { f with lastIncrease := some now, window := f.window.map Window.grow }

/-- The bytes of the data chunks in the order of their numbers. -/
def assemble (parts : List (Nat × ByteArray)) : ByteArray :=
  parts.foldr (fun part bytes => bytes ++ part.2) ByteArray.empty

/-- Puts a data chunk among those that have arrived. -/
def insertPart (chunk : Nat) (bytes : ByteArray) :
    List (Nat × ByteArray) → List (Nat × ByteArray)
  | [] => [(chunk, bytes)]
  | part :: rest =>
    if part.1 < chunk then (chunk, bytes) :: part :: rest
    else if part.1 = chunk then (chunk, bytes) :: rest
    else part :: insertPart chunk bytes rest

/-- Ends a transfer whose bytes are all there. -/
def finish (f : Fetcher) (now : Nat) : Fetcher :=
  match f.transfer with
  | none => f.stopTimers
  | some t =>
    { f.stopTimers with
      completed := some {
        segment := t.segment
        bytes := assemble t.parts
        started := t.started
        elapsed := Instant.since now t.started
        tally := t.tally }
      phase := .finished }.emit .finished

/-- A chunk 0 that is too short to hold a length counts as a timeout of the request. -/
def onMalformedLength (f : Fetcher) (now : Nat) (t : Transfer) : Fetcher :=
  match t.chunks.timeOut? 0 with
  | none => f
  | some chunks =>
    { f with
      transfer := some { t with
        chunks
        tally := { t.tally with timeouts := t.tally.timeouts + 1 } }
      timers := f.timers.cancel 0 }.scheduleNext now

/-- Chunk 0 has told the length: the table gets its true size. -/
def onLength (f : Fetcher) (t : Transfer) (length : Nat) : Checked Fetcher := do
  let count ← Checked.ceilDiv length f.settings.chunkPayload
  let (dropped, chunks) := t.chunks.resize (count + 1)
  return { f with
    transfer := some { t with chunks, remaining := t.remaining + (length + 1) }
    timers := f.timers.cancelAll dropped }

/-- A data chunk has brought its bytes. -/
def onPart (f : Fetcher) (t : Transfer) (chunk : Nat) (bytes : ByteArray) : Fetcher :=
  { f with transfer := some { t with
      remaining := t.remaining - bytes.size
      parts := insertPart chunk bytes t.parts } }

/-- Ends a transfer whose bytes are all there, and goes on with one that lacks some. -/
def proceed (f : Fetcher) (now : Nat) : Fetcher :=
  match f.transfer with
  | some t => if t.remaining = 0 then f.finish now else f.scheduleNext now
  | none => f.scheduleNext now

/-- What follows the acceptance of any chunk: its timer ends, the round trip is sampled, the
window grows, and the transfer ends or goes on. -/
def afterData (f : Fetcher) (now chunk : Nat) : Checked Fetcher := do
  let (_, roundTrip) ← f.roundTrip.ack chunk now
  return ({ f with timers := f.timers.cancel chunk, roundTrip }.growWindow now).proceed now

/-- Data for a chunk that is wanted is accepted once; all other data is only counted. -/
def accept (f : Fetcher) (now : Nat) (t : Transfer) (chunk : Nat) (bytes : ByteArray)
    (length : Option Nat) : Checked Fetcher :=
  match t.chunks.receive chunk with
  | (.duplicate, _) =>
    .ok { f with transfer := some { t with
      tally := { t.tally with duplicates := t.tally.duplicates + 1 } } }
  | (.ignored, _) => .ok f
  | (.new _, chunks) => do
    let t := { t with chunks, tally := { t.tally with data := t.tally.data + 1 } }
    let f ←
      match length with
      | some length => f.onLength t length
      | none => .ok (f.onPart t chunk bytes)
    f.afterData now chunk

/-- Data has arrived. -/
def onData (f : Fetcher) (now : Nat) (t : Transfer) (chunk : Nat) (bytes : ByteArray) :
    Checked Fetcher :=
  if chunk = 0 then
    match Length.decode? bytes with
    | none => .ok (f.onMalformedLength now t)
    | some length => f.accept now t 0 bytes (some length)
  else f.accept now t chunk bytes none

/-- A request was in vain: the chunk is put back in line and the window shrinks. -/
def onSetback (f : Fetcher) (now : Nat) (t : Transfer) (chunk : Nat) (tally : Tally) : Fetcher :=
  match t.chunks.timeOut? chunk with
  | none => f
  | some chunks =>
    let f := { f with
      transfer := some { t with chunks, tally }
      timers := f.timers.cancel chunk }
    let f := f.shrinkWindow now
    { f with roundTrip := f.roundTrip.backOff }.scheduleNext now

/-- The network has refused the segment. A refusal of a chunk that is not out is late and means
nothing. -/
def onRejection (f : Fetcher) (t : Transfer) (chunk : Nat) : Fetcher :=
  if t.chunks.status? chunk = some .requested then f.reject else f

/-- A reply has arrived. Only the replies to the present transfer count. -/
def onReply (f : Fetcher) (now : Nat) (r : Reply) : Checked Fetcher :=
  if f.phase ≠ .downloading then .ok f
  else
    match f.transfer with
    | none => .ok f
    | some t =>
      if r.name.segment ≠ t.name then .ok f
      else
        match r.body with
        | .data bytes => f.onData now t r.name.chunk bytes
        | .nack .congestion =>
          .ok (f.onSetback now t r.name.chunk { t.tally with nacks := t.tally.nacks + 1 })
        | .nack .rejected => .ok (f.onRejection t r.name.chunk)

/-- A retransmission timer has expired. -/
def onTimer (f : Fetcher) (now chunk : Nat) : Fetcher :=
  let f := { f with timers := f.timers.expire chunk }
  match f.transfer with
  | none => f
  | some t => f.onSetback now t chunk { t.tally with timeouts := t.tally.timeouts + 1 }

/-- Carries out what has happened. -/
def handle (f : Fetcher) (now : Nat) : Wake → Checked Fetcher
  | .reply r => f.onReply now r
  | .faceEnd => .ok { f with faceClosed := true }
  | .timer chunk => .ok (f.onTimer now chunk)
  | .tick => .ok ({ f with pacing := none }.onTick now)

/-- What happens next to a running transfer at a moment when no reply is there: an expired timer
comes before the pacing tick. -/
def due? (f : Fetcher) (now : Nat) : Option Wake :=
  match f.timers.expired? now with
  | some chunk => some (.timer chunk)
  | none =>
    match f.pacing with
    | some time => if time ≤ now then some .tick else none
    | none => none

/-- The next moment at which something is due without a reply. -/
def nextDue? (f : Fetcher) : Option Nat :=
  match f.timers.next?, f.pacing with
  | some a, some b => some (min a b)
  | some a, none => some a
  | none, b => b

end Fetcher

end LayerCast
