import LayerCast.Arith.SortOn
import LayerCast.Transfer.Fetcher

/-!
# `LayerCast.Transfer.Pool`: the transfer of one batch of layers

A batch holds the layers of one segment that are wanted together. The pool hands them out to its
fetchers, lowest level first, and a fetcher that becomes free takes the next layer. At any time a
layer of the batch is queued, with a fetcher, or finished. It leaves the pool when the finished
layers are taken, and otherwise only by one of three explicit steps: a rejection sheds the rejected
layer and all layers above it (`Pool.shedFrom`), a salvage keeps the finished layers up to the
first gap and drops the rest (`Pool.salvage`), and `Pool.stop` gives up everything.

The congestion window travels with the work. A fetcher that finishes leaves its window to the
pool, and the next one to start takes it. A fetcher that starts while nobody has left a window
starts with a copy of the last one left.
-/

set_option autoImplicit false

namespace LayerCast

/-- What a pool tells its owner. -/
inductive PoolEvent where
  /-- Every layer of the batch is finished or shed. -/
  | batchComplete
  /-- A layer was rejected, and all layers from its level on were given up with it. -/
  | layersShed (failed : Segment) (shed : List Segment)
  deriving DecidableEq, Repr

/-- What a salvage yields. -/
structure Salvage where
  /-- The finished layers from the lowest level of the batch up to the first gap. -/
  usable : List Delivery := []
  /-- The other layers of the batch. They have to be requested again to be played. -/
  dropped : List Segment := []

namespace Salvage

/-- Whether a salvage has left the batch as it was. -/
def isEmpty (s : Salvage) : Bool := s.usable.isEmpty && s.dropped.isEmpty

end Salvage

/-- The fetchers and the batch they work on. -/
structure Pool where
  fetchers : List Fetcher
  /-- The layers that wait for a fetcher. -/
  queue : List Segment := []
  /-- The layers that have arrived, in the order of their arrival. -/
  finished : List Delivery := []
  /-- The lowest level of the batch. -/
  base : Option Nat := none
  /-- The window that the last fetcher to finish has left, until another one takes it. -/
  pooled : Option Window := none
  /-- The window that was left last, also after it was taken. -/
  lastReleased : Option Window := none
  /-- Events that the owner has not taken yet, the oldest first. -/
  events : List PoolEvent := []

namespace Pool

/-! ### The order of levels -/

/-- Segments in the order of their levels; equal ones keep their order. -/
def byLevel (segments : List Segment) : List Segment := sortOn Segment.level segments

/-- Deliveries in the order of their levels; equal ones keep their order. -/
def deliveriesByLevel (deliveries : List Delivery) : List Delivery :=
  sortOn (·.segment.level) deliveries

/-- To order segments by their levels loses none. -/
theorem byLevel_perm (segments : List Segment) : (byLevel segments).Perm segments :=
  sortOn_perm _ _

/-- To order deliveries by their levels loses none. -/
theorem deliveriesByLevel_perm (deliveries : List Delivery) :
    (deliveriesByLevel deliveries).Perm deliveries :=
  sortOn_perm _ _

/-- Deliveries are handed over from the lowest level up. -/
theorem deliveriesByLevel_sorted (deliveries : List Delivery) :
    (deliveriesByLevel deliveries).Pairwise fun d e => d.segment.level ≤ e.segment.level :=
  pairwise_sortOn _ _

/-! ### Construction and views -/

/-- A pool of so many fetchers. -/
def ofSettings (count : Nat) (settings : FetchSettings) :
    Checked (Except SettingsDefect Pool) :=
  if count = 0 then .ok (.error .noFetchers)
  else do
    let fetchers ← (List.range count).mapM (Fetcher.ofSettings · settings)
    return .ok { fetchers }

/-- Whether no fetcher is busy. -/
def isQuiet (p : Pool) : Bool := p.fetchers.all (!·.isBusy)

/-- Whether no fetcher is busy and no layer waits. -/
def isIdle (p : Pool) : Bool := p.queue.isEmpty && p.isQuiet

/-- Tells the owner something. -/
def emit (p : Pool) (e : PoolEvent) : Pool := { p with events := p.events ++ [e] }

/-- Takes the oldest event, if there is one. -/
def takeEvent? (p : Pool) : Option (PoolEvent × Pool) :=
  match p.events with
  | [] => none
  | e :: rest => some (e, { p with events := rest })

/-! ### Handing out -/

/-- Hands queued layers to the fetchers that are free, both in their order. The first one to start
takes the window that was left, the others a copy of the last one left. -/
def handOut (now : Nat) (last : Option Window) :
    List Fetcher → List Segment → Option Window →
      List Fetcher × List Segment × Option Window
  | [], queue, pooled => ([], queue, pooled)
  | fetchers, [], pooled => (fetchers, [], pooled)
  | f :: rest, s :: queue, pooled =>
    if f.isBusy then
      let (rest, queue, pooled) := handOut now last rest (s :: queue) pooled
      (f :: rest, queue, pooled)
    else
      let free := f.reset
      let ready :=
        match pooled.or last with
        | some window => free.installWindow window
        | none => free
      let (rest, queue, pooled) := handOut now last rest queue none
      (ready.begin now s :: rest, queue, pooled)

/-- Handing out neither adds nor removes fetchers. -/
theorem length_handOut (now : Nat) (last : Option Window) (fetchers : List Fetcher)
    (queue : List Segment) (pooled : Option Window) :
    (handOut now last fetchers queue pooled).1.length = fetchers.length := by
  induction fetchers generalizing queue pooled with
  | nil => simp [handOut]
  | cons f rest ih =>
    cases queue with
    | nil => simp [handOut]
    | cons s queue =>
      unfold handOut
      split <;> simp [ih]

/-- Starts queued layers on every fetcher that is free. -/
def dispatch (p : Pool) (now : Nat) : Pool :=
  let (fetchers, queue, pooled) := handOut now p.lastReleased p.fetchers p.queue p.pooled
  { p with fetchers, queue, pooled }

/-- Queues the layers of a batch, lowest level first. They start at once when no fetcher is busy,
and else as fetchers become free. -/
def enqueue (p : Pool) (now : Nat) (segments : List Segment) : Pool :=
  let sorted := byLevel segments
  let base :=
    match sorted with
    | [] => p.base
    | s :: _ => some (match p.base with | some b => min b s.level | none => s.level)
  let p := { p with base, queue := p.queue ++ sorted }
  if p.isQuiet then p.dispatch now else p

/-- Ends the batch once nothing of it is queued or on its way. -/
def checkComplete (p : Pool) : Pool :=
  if p.isIdle then { p with base := none }.emit .batchComplete else p

/-! ### What the fetchers report -/

/-- A fetcher has finished: its delivery and its window go to the pool, and free fetchers take
what waits. -/
def onFinished (p : Pool) (now id : Nat) (f : Fetcher) : Pool :=
  let (completed, f) := f.takeCompleted
  let (window, f) := f.releaseWindow
  let p := { p with
    fetchers := p.fetchers.set id f.reset
    finished := p.finished ++ completed.toList
    pooled := window.or p.pooled
    lastReleased := window.or p.lastReleased }
  (p.dispatch now).checkComplete

/-- Whether a fetcher has a layer from `level` on, still running or with the owner not told yet
that it has finished. -/
def holdsFrom (level : Nat) (f : Fetcher) : Bool :=
  match f.segment? with
  | some s => (f.isBusy || f.isFinished) && level ≤ s.level
  | none => false

/-- Gives up every layer from `level` on, and all that waits. Returns what was given up. -/
def shedFrom (p : Pool) (level : Nat) : List Segment × Pool :=
  let running := (p.fetchers.filter (holdsFrom level)).filterMap Fetcher.segment?
  let arrived := (p.finished.filter (level ≤ ·.segment.level)).map Delivery.segment
  (byLevel (p.queue ++ running ++ arrived), { p with
    fetchers := p.fetchers.map fun f => if holdsFrom level f then f.reset else f
    queue := []
    finished := p.finished.filter (·.segment.level < level) })

/-- A layer was rejected: it is shed with every layer above it. -/
def onRejected (p : Pool) (id : Nat) (f : Fetcher) : Pool :=
  let p := { p with fetchers := p.fetchers.set id f.reset }
  match f.segment? with
  | none => p
  | some failed =>
    let (shed, p) := p.shedFrom failed.level
    (p.emit (.layersShed failed shed)).checkComplete

/-- What fetcher `id` has told the pool is carried out. -/
def onEvent (p : Pool) (now id : Nat) (e : FetchEvent) : Pool :=
  match p.fetchers[id]? with
  | none => p
  | some f =>
    match e with
    | .finished => p.onFinished now id f
    | .soonFinished => p.dispatch now
    | .rejected => p.onRejected id f

/-! ### Turns -/

/-- What the pool has to tell, if there is anything. -/
def announce (p : Pool) : Option PoolEvent × Pool :=
  match p.takeEvent? with
  | some (e, p) => (some e, p)
  | none => (none, p)

/-- The pool with one fetcher replaced. -/
def place (p : Pool) (id : Nat) (f : Fetcher) : Pool :=
  { p with fetchers := p.fetchers.set id f }

/-- A fetcher has handled something, and what it tells is carried out. -/
def listen (p : Pool) (now id : Nat) (f : Fetcher) : Pool :=
  match f.takeEvent? with
  | some (e, f) => (p.place id f).onEvent now id e
  | none => p.place id f

/-- One turn: the pool tells what it has to tell, or else one of its busy fetchers handles
something. -/
def poll (p : Pool) (now id : Nat) (w : Wake) : Checked (Option PoolEvent × Pool) :=
  match p.takeEvent?, p.fetchers[id]? with
  | some (e, p), _ => .ok (some e, p)
  | none, none => .ok (none, p)
  | none, some f =>
    if f.isBusy then do
      let f ← f.handle now w
      return (p.listen now id f).announce
    else .ok (none, p)

/-! ### Taking results -/

/-- Takes the layers that are finished, in the order of their levels. -/
def takeFinished (p : Pool) : List Delivery × Pool :=
  (deliveriesByLevel p.finished, { p with finished := [] })

/-- Splits deliveries in the order of their levels at the first one that is not the next level
after `expected`, which has to be the level of the first. Levels are 32-bit words. -/
def splitAtGap (expected : Nat) : List Delivery → Checked (List Delivery × List Delivery)
  | [] => .ok ([], [])
  | d :: rest =>
    if d.segment.level = expected then
      if expected + 1 < word32 then do
        let (run, others) ← splitAtGap (expected + 1) rest
        return (d :: run, others)
      else .error .addOverflow
    else .ok ([], d :: rest)

/-- Moves the deliveries that the fetchers still hold to the finished layers. -/
def collect (p : Pool) : Pool :=
  { p with
    finished := p.finished ++ p.fetchers.filterMap (·.takeCompleted.1)
    fetchers := p.fetchers.map (·.takeCompleted.2) }

/-- Whether the lowest level of the batch is among the finished layers, and which it is. -/
def finishedBase? (p : Pool) : Option Nat :=
  p.base.filter fun base => p.finished.any (·.segment.level == base)

/-- Saves what is usable of a batch that takes too long. As long as the lowest level is missing
nothing is usable and the batch goes on. Else the finished layers up to the first gap are returned,
and every other layer is dropped. -/
def salvage (p : Pool) : Checked (Salvage × Pool) :=
  let p := p.collect
  match p.finishedBase? with
  | none => .ok ({}, p)
  | some base => do
    let (usable, beyond) ← splitAtGap base (deliveriesByLevel p.finished)
    let running := (p.fetchers.filter Fetcher.isBusy).filterMap Fetcher.segment?
    let dropped := byLevel (beyond.map Delivery.segment ++ running ++ p.queue)
    return ({ usable, dropped }, { p with
      fetchers := p.fetchers.map Fetcher.reset
      queue := []
      finished := []
      base := none
      events := [] })

/-- Gives up everything. The windows stay. -/
def stop (p : Pool) : Pool :=
  { p with
    fetchers := p.fetchers.map Fetcher.reset
    queue := []
    finished := []
    base := none
    events := [] }

end Pool

end LayerCast
