/-!
# `LayerCast.Transfer.ChunkTable`: the chunks of one segment

A chunk is requested, and requested again after a timeout, until it is received or the transfer is
given up. `ChunkTable` keeps the status of every chunk, the number of its requests, and the number
of requests that are still out. The operations that can be refused give back a table only when
they changed it.
-/

set_option autoImplicit false

namespace LayerCast

/-- Where a chunk stands. -/
inductive ChunkStatus where
  /-- Not requested yet. -/
  | untouched
  /-- Requested, and the request is still out. -/
  | requested
  | received
  /-- Requested in vain, to be requested again. -/
  | timedOut
  /-- Given up together with the transfer. -/
  | aborted
  deriving DecidableEq, Repr

namespace ChunkStatus

/-- The name of a status. -/
def name : ChunkStatus → String
  | .untouched => "not-initiated"
  | .requested => "requested"
  | .received => "received"
  | .timedOut => "timeout"
  | .aborted => "aborted"

/-- Whether a chunk has to be requested, for the first time or again. -/
def isNeeded : ChunkStatus → Bool
  | .untouched | .timedOut => true
  | _ => false

end ChunkStatus

/-- What the arrival of a chunk means. -/
inductive Arrival where
  /-- The first arrival, with a request still out or after its timeout. -/
  | new (wasRequested : Bool)
  /-- The chunk is there already. -/
  | duplicate
  /-- The chunk was never requested, is given up, or lies beyond the table. -/
  | ignored
  deriving DecidableEq, Repr

/-- The chunks of one segment, numbered from 0. -/
structure ChunkTable where
  status : Array ChunkStatus
  /-- How often each chunk was requested. -/
  attempts : Array Nat
  /-- Number of requested chunks. -/
  inFlight : Nat
  deriving DecidableEq, Repr

namespace ChunkTable

/-- A table of chunks that were not requested yet. -/
def ofSize (n : Nat) : ChunkTable :=
  { status := Array.replicate n .untouched, attempts := Array.replicate n 0, inFlight := 0 }

/-- Number of chunks. -/
def size (t : ChunkTable) : Nat := t.status.size

/-- The status of a chunk, none beyond the table. -/
def status? (t : ChunkTable) (chunk : Nat) : Option ChunkStatus := t.status[chunk]?

/-- How often a chunk was requested. -/
def attemptsOf (t : ChunkTable) (chunk : Nat) : Nat := (t.attempts[chunk]?).getD 0

/-- The first chunk that has to be requested. -/
def nextNeeded (t : ChunkTable) : Option Nat := t.status.findIdx? ChunkStatus.isNeeded

/-- Notes a request for a chunk that has to be requested. -/
def request? (t : ChunkTable) (chunk : Nat) : Option ChunkTable :=
  match t.status? chunk with
  | some .untouched | some .timedOut =>
    some {
      status := t.status.setIfInBounds chunk .requested
      attempts := t.attempts.modify chunk (· + 1)
      inFlight := t.inFlight + 1 }
  | _ => none

/-- Notes that a request which is still out was in vain. -/
def timeOut? (t : ChunkTable) (chunk : Nat) : Option ChunkTable :=
  match t.status? chunk with
  | some .requested =>
    some { t with
      status := t.status.setIfInBounds chunk .timedOut
      inFlight := t.inFlight - 1 }
  | _ => none

/-- Notes the arrival of a chunk. -/
def receive (t : ChunkTable) (chunk : Nat) : Arrival × ChunkTable :=
  match t.status? chunk with
  | some .received => (.duplicate, t)
  | some .requested =>
    (.new true, { t with
      status := t.status.setIfInBounds chunk .received
      inFlight := t.inFlight - 1 })
  | some .timedOut =>
    (.new false, { t with status := t.status.setIfInBounds chunk .received })
  | _ => (.ignored, t)

/-- The requested chunks from number `n` on, in their order. -/
def requestedFrom (t : ChunkTable) (n : Nat) : List Nat :=
  (List.range t.size).filter fun chunk => n ≤ chunk && t.status? chunk == some .requested

/-- Makes the table `n` chunks long, and returns the requested chunks that fall off its end. -/
def resize (t : ChunkTable) (n : Nat) : List Nat × ChunkTable :=
  let dropped := t.requestedFrom n
  (dropped, {
    status := t.status.take n ++ Array.replicate (n - t.status.size) .untouched
    attempts := t.attempts.take n ++ Array.replicate (n - t.attempts.size) 0
    inFlight := t.inFlight - dropped.length })

/-- Gives up every chunk that has not arrived. -/
def abort (t : ChunkTable) : ChunkTable :=
  { t with
    status := t.status.map fun s => if s = .received then .received else .aborted
    inFlight := 0 }

/-- A fresh table has the size that is asked for. -/
theorem size_ofSize (n : Nat) : (ofSize n).size = n := by
  simp [ofSize, size]

/-- A resized table has its new size. -/
theorem size_resize (t : ChunkTable) (n : Nat) : (t.resize n).2.size = n := by
  simp [resize, size]
  omega

/-- To give up changes no size. -/
theorem size_abort (t : ChunkTable) : t.abort.size = t.size := by
  simp [abort, size]

end ChunkTable

end LayerCast
