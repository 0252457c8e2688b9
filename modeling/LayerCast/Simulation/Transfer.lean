import LayerCast.Simulation.Engine
import LayerCast.Simulation.Face
import LayerCast.Transfer.Pool

/-!
# `LayerCast.Simulation.Transfer`: fetchers and pools at work

Fetchers are joined to the faces they send on. At any moment a fetcher first hands its events to
its owner, then reads a reply, then carries out what is due; what it sends leaves at once. In a
pool the fetchers have their turns in order, and after each step the first one comes again.
-/

set_option autoImplicit false

namespace LayerCast

/-- A fetcher with its face. -/
structure Attached where
  fetcher : Fetcher
  face : Face

namespace Attached

/-- Hands one interest to the face. A face that does not take it counts as closed. -/
def send (now : Nat) (a : Attached) (i : Interest) : Attached :=
  let (taken, face) := a.face.express now i
  { face, fetcher := if taken then a.fetcher else { a.fetcher with faceClosed := true } }

/-- Hands the interests of a fetcher to its face. -/
def flush (now : Nat) (a : Attached) : Attached :=
  a.fetcher.outbox.foldl (send now) { a with fetcher := { a.fetcher with outbox := [] } }

/-- Lets a fetcher handle something. -/
def handle (now : Nat) (a : Attached) (wake : Wake) : Checked Attached := do
  let fetcher ← a.fetcher.handle now wake
  return flush now { a with fetcher }

/-- What happens next to a fetcher that has a transfer running. -/
def wake? (now : Nat) (a : Attached) : Option Wake × Attached :=
  match a.face.receive now with
  | (.reply r, face) => (some (.reply r), { a with face })
  | (.closed, face) => (some .faceEnd, { a with face })
  | (.pending, _) => (a.fetcher.due? now, a)

/-- What a fetcher does next, with its face as it is then. There is nothing to do without a transfer
that is running, and nothing but an error where the face has closed. -/
def next? (now : Nat) (a : Attached) : Option (Except Error Wake × Face) :=
  if a.fetcher.faceClosed then some (.error (.faceClosed a.fetcher.id), a.face)
  else if !a.fetcher.isBusy then none
  else
    match a.wake? now with
    | (none, _) => none
    | (some wake, a) => some (.ok wake, a.face)

/-- The next step of a fetcher. -/
def act (now : Nat) (a : Attached) : Checked (Move Attached (Except Error FetchEvent)) :=
  match a.fetcher.takeEvent? with
  | some (e, fetcher) => .ok (.event (.ok e) { a with fetcher })
  | none =>
    match a.next? now with
    | none => .ok .idle
    | some (.error e, face) => .ok (.event (.error e) { a with face })
    | some (.ok wake, face) => return .advance (← { a with face }.handle now wake)

/-- The turn of the far end. -/
def settle (now : Nat) (a : Attached) : Bool × Attached :=
  let (news, face) := a.face.settle now
  (news, { a with face })

/-- The next moment at which something is due. -/
def nextDue? (now : Nat) (a : Attached) : Option Nat :=
  earlier? (after? now a.fetcher.nextDue?) (a.face.nextArrival? now)

/-- A fetcher as a client of the clock. -/
def client : Client Attached (Except Error FetchEvent) := { act, settle, nextDue? }

end Attached

/-- A pool with the faces of its fetchers. -/
structure AttachedPool where
  pool : Pool
  faces : List Face

namespace AttachedPool

/-- Every fetcher with its face. -/
def members (a : AttachedPool) : List Attached := List.zipWith Attached.mk a.pool.fetchers a.faces

/-- The pool with its fetchers and faces replaced. -/
def withMembers (a : AttachedPool) (members : List Attached) : AttachedPool :=
  { pool := { a.pool with fetchers := members.map Attached.fetcher }
    faces := members.map Attached.face }

/-- Hands all interests of the fetchers to their faces. -/
def flush (now : Nat) (a : AttachedPool) : AttachedPool :=
  a.withMembers (a.members.map (Attached.flush now))

/-- The first fetcher that has something to do: its number, what it does, and its face as it is
then. -/
def firstNext? (now : Nat) : List Attached → Option (Nat × Except Error Wake × Face)
  | [] => none
  | a :: rest =>
    match a.next? now with
    | some (wake, face) => some (0, wake, face)
    | none => (firstNext? now rest).map fun (id, wake, face) => (id + 1, wake, face)

/-- The next step of a pool. What its fetchers send is still to be handed to their faces. -/
def act (now : Nat) (a : AttachedPool) : Checked (Move AttachedPool (Except Error PoolEvent)) :=
  match a.pool.takeEvent? with
  | some (e, pool) => .ok (.event (.ok e) { a with pool })
  | none =>
    match firstNext? now a.members with
    | none => .ok .idle
    | some (id, .error e, face) => .ok (.event (.error e) { a with faces := a.faces.set id face })
    | some (id, .ok wake, face) => do
      let (e, pool) ← a.pool.poll now id wake
      let a := { pool, faces := a.faces.set id face }
      match e with
      | some e => return .event (.ok e) a
      | none => return .advance a

/-- The turn of the far end. -/
def settle (now : Nat) (a : AttachedPool) : Bool × AttachedPool :=
  let turns := a.faces.map (·.settle now)
  (turns.any (·.1), { a with faces := turns.map (·.2) })

/-- The next moment at which something is due. -/
def nextDue? (now : Nat) (a : AttachedPool) : Option Nat :=
  a.members.foldl (fun first m => earlier? first (m.nextDue? now)) none

/-- A pool as a client of the clock: what is sent leaves at once. -/
def client : Client AttachedPool (Except Error PoolEvent) :=
  { act := fun now a => return (← a.act now).map (flush now), settle, nextDue? }

end AttachedPool

end LayerCast
