import LayerCast.Playback.Buffer
import LayerCast.Playback.Holdings
import LayerCast.Playback.Journal
import LayerCast.Playback.Report
import LayerCast.Policy.Adaptation
import LayerCast.Transfer.Pool

/-!
# `LayerCast.Playback.Player`: the playback loop

A player asks its policy for the next batch of layers and hands it to the pool, credits finished
batches to the playback buffer, and consumes the buffer in ticks of fixed length. One batch is out
at a time. Three things drive it: the start (`Player.play`), the events of the pool
(`Player.onPoolEvent`), and the ticks (`Player.consume`). After each of them it looks whether the
next batch can be requested (`Player.stream`).

When a tick finds too little in the buffer, the player salvages what is usable of the batch that is
out. Only if that does not help, the tick is a stall.
-/

set_option autoImplicit false

namespace LayerCast

/-- A player. -/
structure Player where
  settings : PlayerSettings
  manifest : Manifest
  policy : Adaptation
  pool : Pool
  buffer : PlayoutBuffer
  holdings : Holdings := {}
  playing : Bool := false
  /-- The number of the segment of which a batch is out. -/
  pending : Option Nat := none
  /-- Whether the policy has come to the end of the content. -/
  allDownloaded : Bool := false
  /-- When playback was started last. -/
  started : Option Nat := none
  report : Report := {}
  /-- The notices that nobody has taken yet, with their times, the latest first. -/
  notices : List (Nat × Notice) := []

namespace Player

/-- A player for so many faces, if they are as many as the settings say, the settings do not
contradict themselves, and there is something to play. -/
def ofSettings (settings : PlayerSettings) (manifest : Manifest) (faces : Nat) :
    Checked (Except Error Player) :=
  match settings.validate with
  | .error d => .ok (.error d.toError)
  | .ok settings =>
    if faces ≠ settings.poolSize then
      .ok (.error (SettingsDefect.faceCount settings.poolSize faces).toError)
    else
      match Policy.build settings.policy manifest with
      | .error d => .ok (.error d.toError)
      | .ok policy => do
        match ← Pool.ofSettings faces settings.fetch with
        | .error d => return .error d.toError
        | .ok pool =>
          return .ok {
            settings
            manifest
            policy := .builtIn policy
            pool
            buffer := { capacity := settings.maxBuffer } }

/-- Another policy decides for the player from here on. -/
def adopt (p : Player) (policy : Adaptation) : Player := { p with policy }

/-- The name of what a player is doing. -/
def stateName (p : Player) : String := if p.playing then "playing" else "stopped"

/-- Gives a notice. -/
def tell (p : Player) (now : Nat) (notice : Notice) : Player :=
  { p with notices := (now, notice) :: p.notices }

/-- Takes the notices, the oldest first. -/
def takeNotices (p : Player) : List (Nat × Notice) × Player :=
  (p.notices.reverse, { p with notices := [] })

/-! ### Requesting -/

/-- The playback time that a request needs room for: that of a segment of the lowest level. -/
def nextDuration (p : Player) : Nat :=
  (p.manifest.segmentDuration? p.manifest.currentPeriod 0).getD 0

/-- Hands a batch to the pool. -/
def request (p : Player) (now : Nat) (first : Segment) (batch : List Segment) : Player :=
  let level := batch.foldl (fun top s => max top s.level) 0
  let p := p.tell now (.requested first.number level)
  { p with pending := some first.number, pool := p.pool.enqueue now batch }

/-- Requests the next batch, unless one is out, there is no room, or the content is at its end. -/
def stream (p : Player) (now : Nat) : Checked Player :=
  if !p.playing || p.pending.isSome || p.allDownloaded || !p.buffer.hasRoom p.nextDuration then
    .ok p
  else do
    let (batch, policy) ← p.policy.next p.manifest p.buffer p.holdings
    let p := { p with policy }
    match batch with
    | [] =>
      let exhausted ← p.policy.isExhausted p.manifest p.holdings
      return if exhausted then { p with allDownloaded := true } else p
    | first :: _ => return p.request now first batch

/-! ### Starting and stopping -/

/-- Starts playback and requests the first batch. -/
def play (p : Player) (now : Nat) : Checked Player :=
  if p.playing then .ok p
  else
    ({ p with playing := true, allDownloaded := false, started := some now }.tell now
      .started).stream now

/-- Stops playback and gives up every transfer. -/
def stop (p : Player) (now : Nat) : Player :=
  if !p.playing then p
  else { p with playing := false, pending := none, pool := p.pool.stop }.tell now .stopped

/-- Takes the report and begins a new one. -/
def takeReport (p : Player) : Report × Player := (p.report, { p with report := {} })

/-! ### Taking in -/

/-- Puts a delivered layer on record, under the number of its batch. -/
def takeInLayer (now number : Nat) (p : Player) (d : Delivery) : Player :=
  { p with
    holdings := (p.holdings.record? d.segment.level number).getD p.holdings
    policy := p.policy.delivered d.throughput
    report := { p.report with records := p.report.records ++ [d.toRecord] } }.tell now
      (.downloaded d)

/-- Credits a segment with its playback time, once and if there is room. Nothing is done about a
buffer that would not take the time of a segment that was queued for playout. -/
def credit (p : Player) (number duration : Nat) : Player :=
  if p.buffer.hasRoom duration then
    match p.holdings.schedule? number duration with
    | none => p
    | some holdings => { p with holdings, buffer := (p.buffer.add? duration).getD p.buffer }
  else p

/-- Takes in the layers of one segment. A segment of layered content is credited only if its base
layer is there. -/
def takeIn (p : Player) (now : Nat) (deliveries : List Delivery) : Player :=
  match deliveries with
  | [] => p
  | first :: _ =>
    let number := first.segment.number
    let playable := !p.policy.isLayered || deliveries.any (·.segment.level == 0)
    let p := deliveries.foldl (takeInLayer now number) p
    if playable then p.credit number first.segment.duration else p

/-- Carries out what the pool has told. -/
def onPoolEvent (p : Player) (now : Nat) : PoolEvent → Checked Player
  | .batchComplete =>
    let (finished, pool) := p.pool.takeFinished
    let p := { p with pool }.takeIn now finished
    { p with pending := none }.stream now
  | .layersShed failed shed =>
    .ok { p with
      report := { p.report with shedLayers := p.report.shedLayers + (shed.length + 1) }
      policy := p.policy.failed failed }

/-! ### Consuming -/

/-- What one tick has come to. -/
structure Ticked where
  /-- The numbers of the segments that were played to their end, in order. -/
  numbers : List Nat := []
  /-- Whether playback goes on. -/
  goesOn : Bool := true
  player : Player

/-- Accounts for consumed playback time. Returns the numbers of the segments that were played to
their end, in order. -/
def played (p : Player) (time : Nat) : List Nat × Player :=
  let (numbers, holdings) := p.holdings.advance time
  (numbers, { p with
    report := { p.report with played := p.report.played + time }
    holdings })

/-- Ends playback at the end of the content. -/
def complete (p : Player) : Player :=
  { p with report := { p.report with completed := true } }

/-- Takes a salvage in: what was dropped has to be requested again, and what is usable is
taken in. An empty salvage leaves the batch out. -/
def takeSalvage (p : Player) (now : Nat) (s : Salvage) : Player :=
  if s.isEmpty then p
  else
    let policy := s.dropped.foldl Adaptation.abandoned p.policy
    { p with policy, pending := none }.takeIn now s.usable

/-- Notes that there was nothing to play, and goes on requesting. -/
def stall (p : Player) (now : Nat) : Checked Player := do
  let number ←
    match p.holdings.lastConsumed with
    | some n => Checked.add n 1
    | none => .ok 0
  let offset :=
    match p.started with
    | some started => Instant.since now started
    | none => 0
  let p := p.tell now (.stalled number p.buffer.filled)
  let stalls := p.report.stalls ++ [⟨offset, number⟩]
  { p with report := { p.report with stalls } }.stream now

/-- A tick that the buffer has covered: the time is consumed. -/
def consumed (p : Player) (now : Nat) (buffer : PlayoutBuffer) : Checked Ticked := do
  let (numbers, p) := { p with buffer }.played p.settings.tick
  let player ← p.stream now
  return { numbers, player }

/-- The time of a tick is consumed if the buffer covers it, and else the tick is a stall. -/
def consumeOrStall (p : Player) (now : Nat) : Checked Ticked :=
  match p.buffer.consume? p.settings.tick with
  | some buffer => p.consumed now buffer
  | none => do
    let player ← p.stall now
    return { player }

/-- A tick that finds too little in the buffer: what is usable of the batch that is out may help. -/
def onUnderrun (p : Player) (now : Nat) : Checked Ticked := do
  let (salvage, pool) ← p.pool.salvage
  ({ p with pool }.takeSalvage now salvage).consumeOrStall now

/-- One tick. The rest of the content may be shorter than a tick. -/
def consume (p : Player) (now : Nat) : Checked Ticked :=
  if !p.playing then .ok { goesOn := false, player := p }
  else if p.allDownloaded && p.buffer.isEmpty then .ok { goesOn := false, player := p.complete }
  else
    match p.buffer.consume? p.settings.tick with
    | some buffer => p.consumed now buffer
    | none =>
      if p.allDownloaded then
        let (rest, buffer) := p.buffer.drain
        let (numbers, p) := { p with buffer }.played rest
        .ok { numbers, goesOn := false, player := p.complete }
      else p.onUnderrun now

end Player

end LayerCast
