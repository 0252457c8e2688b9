import LayerCast.Playback.Player
import LayerCast.Simulation.Transfer

/-!
# `LayerCast.Simulation.Playback`: a player at work

A run of a player begins with `Player.play` and goes on until playback is over, fails, or is
cancelled. At any moment the events of the pool come before the tick that is due. Whatever ends a
run, the player is stopped then, and only playback that came to its end yields its report.
-/

set_option autoImplicit false

namespace LayerCast

/-- A player with the faces of its fetchers, and the moment of the next tick. -/
structure AttachedPlayer where
  player : Player
  faces : List Face
  nextTick : Nat := 0

namespace AttachedPlayer

/-- The pool with its faces. -/
def attachedPool (a : AttachedPlayer) : AttachedPool := ⟨a.player.pool, a.faces⟩

/-- The player with its pool and faces replaced. -/
def withPool (a : AttachedPlayer) (p : AttachedPool) : AttachedPlayer :=
  { a with player := { a.player with pool := p.pool }, faces := p.faces }

/-- Hands all interests of the fetchers to their faces. -/
def flush (now : Nat) (a : AttachedPlayer) : AttachedPlayer :=
  a.withPool (a.attachedPool.flush now)

/-- Starts playback. -/
def play (now : Nat) (a : AttachedPlayer) : Checked AttachedPlayer := do
  let player ← a.player.play now
  return flush now { a with player }

/-- Stops playback. -/
def stop (now : Nat) (a : AttachedPlayer) : AttachedPlayer :=
  { a with player := a.player.stop now }

/-- A tick that is due. -/
def tick (now : Nat) (a : AttachedPlayer) :
    Checked (Move AttachedPlayer (Except Error Unit)) := do
  let t ← a.player.consume now
  let a := flush now { a with player := t.player, nextTick := now + a.player.settings.tick }
  return if t.goesOn then .advance a else .event (.ok ()) a

/-- The next step of a player. -/
def act (now : Nat) (a : AttachedPlayer) :
    Checked (Move AttachedPlayer (Except Error Unit)) := do
  match ← a.attachedPool.act now with
  | .advance p => return .advance (flush now (a.withPool p))
  | .event (.error e) p => return .event (.error e) (a.withPool p)
  | .event (.ok e) p =>
    let a := a.withPool p
    let player ← a.player.onPoolEvent now e
    return .advance (flush now { a with player })
  | .idle => if a.nextTick ≤ now then a.tick now else return .idle

/-- The turn of the far end. -/
def settle (now : Nat) (a : AttachedPlayer) : Bool × AttachedPlayer :=
  let (news, p) := a.attachedPool.settle now
  (news, a.withPool p)

/-- The next moment at which something is due. -/
def nextDue? (now : Nat) (a : AttachedPlayer) : Option Nat :=
  earlier? (after? now (some a.nextTick)) (a.attachedPool.nextDue? now)

/-- A player as a client of the clock. -/
def client : Client AttachedPlayer (Except Error Unit) := { act, settle, nextDue? }

/-- The end of a run: the player is stopped, and a report is handed out at the end of the content.
Without an event the run was cancelled. -/
def finish (now : Nat) (a : AttachedPlayer) (ended : Option (Except Error Unit)) :
    Except Error Report × AttachedPlayer :=
  let a := a.stop now
  match ended with
  | some (.ok ()) =>
    let (report, player) := a.player.takeReport
    (.ok report, { a with player })
  | some (.error e) => (.error e, a)
  | none => (.error .cancelled, a)

/-- What a run of a player has come to. -/
structure Outcome where
  time : Nat
  result : Except Error Report
  state : AttachedPlayer
  ending : Ending

/-- Plays until the end of the content or for `length` nanoseconds at most. A run of length 0 is
cancelled before anything but its start. -/
def run (steps now length : Nat) (a : AttachedPlayer) : Checked Outcome := do
  let a ← a.play now
  if length = 0 then
    let (result, state) := a.finish now none
    return { time := now, result, state, ending := .deadline }
  else
    let a := { a with nextTick := Instant.after now a.player.settings.firstTick }
    let r ← client.drive (fun _ => true) (now + length) steps now a []
    let (result, state) := r.state.finish r.time (r.events.head?.map (·.2))
    return { time := r.time, result, state, ending := r.ending }

end AttachedPlayer

end LayerCast
