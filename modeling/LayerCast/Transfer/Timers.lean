import LayerCast.Clock.Span

/-!
# `LayerCast.Transfer.Timers`: retransmission timers

The armed timers stand in a queue, which hands out a key for each of them and knows nothing of
chunks but to name the one whose timer has expired. Of the timers that have expired the one set to
the earliest moment comes first. A timer that is gone gives its key free, so that a later one may
get the same key.

To disarm a timer one needs its key. So the key of the timer that was armed last is kept for every
chunk, apart from the queue, and has to be forgotten together with the timer.
-/

set_option autoImplicit false

namespace LayerCast

/-- An armed timer. -/
structure Timer where
  key : Nat
  chunk : Nat
  /-- The moment of expiry. -/
  expiry : Nat
  deriving DecidableEq, Repr

/-- The timers of a transfer. -/
structure Timers where
  /-- The armed timers in the order in which they were armed. -/
  queue : List Timer := []
  /-- The key of the timer that was armed last, by chunk. -/
  keys : List (Nat × Nat) := []
  deriving DecidableEq, Repr

namespace Timers

/-- The chunks of the armed timers. -/
def chunks (t : Timers) : List Nat := t.queue.map Timer.chunk

/-- A key that no armed timer has. -/
def freeKey (queue : List Timer) : Nat := queue.foldr (fun timer key => max (timer.key + 1) key) 0

/-- Takes the timer with a key out of the queue, if there is one. -/
def remove (t : Timers) (key : Nat) : Timers :=
  { t with queue := t.queue.filter (·.key != key) }

/-- Forgets the key that is kept for a chunk. -/
def forget (t : Timers) (chunk : Nat) : Timers :=
  { t with keys := t.keys.filter (·.1 != chunk) }

/-- Disarms the timer of a chunk. -/
def cancel (t : Timers) (chunk : Nat) : Timers :=
  match t.keys.lookup chunk with
  | none => t
  | some key => (t.forget chunk).remove key

/-- Arms a timer for a chunk, in place of the one that was armed for it before. A queue of timers
looks ahead for `2 ^ 36` milliseconds only, which is more than two years, and cannot hold a timer
that is set to a later moment. That limit is left out here: a timer may be set to any moment. -/
def arm (t : Timers) (chunk expiry : Nat) : Timers :=
  let key := freeKey t.queue
  let armed : Timers := {
    queue := t.queue ++ [⟨key, chunk, expiry⟩]
    keys := (chunk, key) :: (t.forget chunk).keys }
  match t.keys.lookup chunk with
  | none => armed
  | some stale => armed.remove stale

/-- Disarms the timers of several chunks. -/
def cancelAll (t : Timers) (chunks : List Nat) : Timers := chunks.foldl cancel t

/-- The timer that expires first. -/
def earliest? : List Timer → Option Timer
  | [] => none
  | timer :: rest =>
    some (rest.foldl (fun best timer => if timer.expiry < best.expiry then timer else best) timer)

/-- The expired timer of a chunk leaves the queue, and its key is forgotten. -/
def expire (t : Timers) (chunk : Nat) : Timers :=
  match earliest? (t.queue.filter (·.chunk == chunk)) with
  | none => t.forget chunk
  | some timer => { t.forget chunk with queue := t.queue.erase timer }

/-- The chunk whose timer has expired first. -/
def expired? (t : Timers) (now : Nat) : Option Nat :=
  (earliest? t.queue).bind fun timer => if timer.expiry ≤ now then some timer.chunk else none

/-- The moment at which the next timer expires. -/
def next? (t : Timers) : Option Nat := (earliest? t.queue).map Timer.expiry

end Timers

end LayerCast
