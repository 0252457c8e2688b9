import LayerCast.Proofs.Playback.Run

/-!
# `LayerCast.Proofs.Playback.Life`: a player from its first playback to its last

The cues of `LayerCast.Proofs.Playback.Run` drive one playback. The owner of a player starts and
stops playbacks, takes what there is to be taken, and may give the player another policy, built in
or not. A life of a player is any number of such deeds and of cues, in any order (`Player.live`).

A `Past` keeps what a player has credited in its life and what it has played according to the
reports that were taken from it. What is credited on a cue depends on what the pool hands over then,
which is `Player.intake`.
-/

set_option autoImplicit false

namespace LayerCast

/-- What the owner of a player can do, and what can happen to the player. -/
inductive Deed where
  /-- Playback is started. -/
  | play (now : Nat)
  /-- Something happens to the player. -/
  | cue (c : Cue)
  /-- Playback is stopped. -/
  | stop (now : Nat)
  /-- The report is taken. -/
  | takeReport
  /-- The notices are taken. -/
  | takeNotices
  /-- Another policy decides from here on. -/
  | adopt (policy : Adaptation)

/-- What a player has behind it. -/
structure Past where
  /-- The segments that were credited, with their playback time, the latest first. -/
  credited : List Unplayed := []
  /-- The playback time that was consumed, according to the reports that were taken. -/
  played : Nat := 0

/-- The deliveries that a pool hands over with what it tells. -/
def Pool.handover (p : Pool) : Option PoolEvent → List Delivery
  | some .batchComplete => p.takeFinished.1
  | _ => []

namespace Player

/-- Whether a tick finds too little in the buffer while there is more to come. -/
def runsLow (p : Player) : Bool :=
  p.playing && !p.allDownloaded && (p.buffer.consume? p.settings.tick).isNone

/-- What is usable of the batch that is out, when the buffer runs low. -/
def salvaged (p : Player) : List Delivery :=
  if p.runsLow then
    match p.pool.salvage with
    | .ok (s, _) => s.usable
    | .error _ => []
  else []

/-- The deliveries that the pool hands over on a cue: the layers of a batch that is complete, or
what is usable of a batch. -/
def intake (p : Player) : Cue → List Delivery
  | .network now id w =>
    match p.pool.poll now id w with
    | .ok (e, pool) => pool.handover e
    | .error _ => []
  | .tick _ =>
    match p.pool.announce with
    | (some e, pool) => pool.handover (some e)
    | (none, _) => p.salvaged
  | .sent _ => []

section
variable {p : Player} {now id : Nat} {w : Wake} {r : Pool}

/-- What happens to a fetcher hands over what its pool tells then. -/
theorem intake_network {e : Option PoolEvent} (h : p.pool.poll now id w = .ok (e, r)) :
    p.intake (.network now id w) = r.handover e := by
  simp only [intake, h]

/-- On a tick, an event that is still to be told comes first. -/
theorem intake_tick_some {e : PoolEvent} (h : p.pool.announce = (some e, r)) :
    p.intake (.tick now) = r.handover (some e) := by
  simp only [intake, h]

/-- On a tick without one, what is usable of the batch is taken if the buffer runs low. -/
theorem intake_tick_none (h : p.pool.announce = (none, r)) :
    p.intake (.tick now) = p.salvaged := by
  simp only [intake, h]

end

/-- The segment that is credited when deliveries are taken in, if one is: it can be played, there
is room for it, and it is queued for playout. -/
def credits (p : Player) : List Delivery → List Unplayed
  | [] => []
  | first :: rest =>
    let number := first.segment.number
    let duration := first.segment.duration
    if (!p.policy.isLayered || (first :: rest).any (·.segment.level == 0)) &&
        p.buffer.hasRoom duration && (p.holdings.schedule? number duration).isSome then
      [⟨number, duration⟩]
    else []

/-- A player after a deed, and what is behind it then. -/
def does (p : Player) (past : Past) : Deed → Checked (Past × Player)
  | .play now => do
    let p ← p.play now
    return (past, p)
  | .cue c => do
    let t ← p.heed c
    return ({ past with credited := p.credits (p.intake c) ++ past.credited }, t.player)
  | .stop now => .ok (past, p.stop now)
  | .takeReport =>
    let (report, p) := p.takeReport
    .ok ({ past with played := past.played + report.played }, p)
  | .takeNotices => .ok (past, p.takeNotices.2)
  | .adopt policy => .ok (past, p.adopt policy)

/-- A player after several deeds, and what is behind it then. -/
def live (p : Player) (past : Past) : List Deed → Checked (Past × Player)
  | [] => .ok (past, p)
  | deed :: rest => do
    let (past, p) ← p.does past deed
    p.live past rest

end Player

end LayerCast
