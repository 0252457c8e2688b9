import Mathlib.Logic.Relation
import LayerCast.Proofs.Playback.Course
import LayerCast.Proofs.Playback.Life

/-!
# `LayerCast.Proofs.Playback.Changes`: the changes of a player

Starts, stops, cues and ticks have many branches, but whatever happens to a player comes to a few
kinds of `Change`, one after another. `Player.Changes` is any number of them. A cue is made of
changes (`changes_heed`), and so are a performance (`changes_perform`) and a life in which the
player keeps its policy (`changes_live`). What every change keeps is true all the time. That is so
of what the policy keeps through all of its calls (`Change.policy`).

A change says which turn of the pool it comes from, but not what is noted in the report. Where it
matters what was played or credited, the functions of the player are looked at themselves, as in
`LayerCast.Proofs.Playback.Gapless` and `LayerCast.Proofs.Playback.Stock`.
-/

set_option autoImplicit false

namespace LayerCast.Player

/-- What everything that happens to a player is made of. -/
inductive Change (p : Player) : Player → Prop
  /-- The report and the notices are written or taken. -/
  | noted (report : Report) (notices : List (Nat × Notice)) : Change p { p with report, notices }
  /-- Playback is started. -/
  | started (now : Nat) :
      Change p { p with playing := true, allDownloaded := false, started := some now }
  /-- Playback is stopped, and every transfer is given up. -/
  | stopped : Change p { p with playing := false, pending := none, pool := p.pool.stop }
  /-- The player looks whether it can request the next batch. -/
  | streamed {q : Player} (now : Nat) (result : Streamed p now q) : Change p q
  /-- The faces take what the fetchers send. -/
  | sent (closed : Nat → Bool) : Change p { p with pool := p.pool.afterSent closed }
  /-- The pool has a turn of which nothing is told. -/
  | turned {r : Pool} (settled : r.Settled) (size : r.size = p.pool.size)
      (turn : Pool.Turn p.pool none r) : Change p { p with pool := r }
  /-- The pool tells of a rejection. -/
  | shed {r : Pool} {failed : Segment} {shed : List Segment} (settled : r.Settled)
      (size : r.size = p.pool.size) (turn : Pool.Turn p.pool (some (.layersShed failed shed)) r) :
      Change p { p with pool := r, policy := p.policy.failed failed }
  /-- The pool tells the end of a batch, and what has arrived of it is taken in. -/
  | finished {r : Pool} (now : Nat) (settled : r.Settled) (size : r.size = p.pool.size)
      (turn : Pool.Turn p.pool (some .batchComplete) r) :
      Change p { ({ p with pool := r.takeFinished.2 } : Player).takeIn now r.takeFinished.1 with
        pending := none }
  /-- What is usable of a batch is taken in. -/
  | salvaged {r : Pool} {s : Salvage} (now : Nat) (saved : p.pool.salvage = .ok (s, r)) :
      Change p (({ p with pool := r } : Player).takeSalvage now s)
  /-- Time that is there is played: a tick, or all of it. -/
  | played (time : Nat) (there : time ≤ p.buffer.filled)
      (whole : time = p.settings.tick ∨ time = p.buffer.filled) :
      Change p (({ p with
        buffer := { p.buffer with filled := p.buffer.filled - time } } : Player).played time).2

/-- Any number of changes. -/
def Changes : Player → Player → Prop := Relation.ReflTransGen Change

variable {p q : Player} {now : Nat} {t : Ticked}

/-- One change is a sequence of changes. -/
theorem Change.changes (h : p.Change q) : p.Changes q := Relation.ReflTransGen.single h

/-- Sequences of changes can be joined. -/
theorem Changes.trans {r : Player} (hp : p.Changes q) (hq : q.Changes r) : p.Changes r :=
  Relation.ReflTransGen.trans hp hq

/-- A change leaves the pool settled. -/
theorem Change.settled (hchange : p.Change q) (h : p.pool.Settled) : q.pool.Settled := by
  -- A change that brings a new pool has its being settled with it.
  cases hchange with
  | noted | started | played => exact h
  | stopped => exact (Pool.stop_spec p.pool).1
  | streamed now result =>
      cases result with
      | waits | nothing => exact h
      | requested policy first rest => exact (Pool.enqueue_spec h now (first :: rest)).1
  | sent closed => exact Pool.settled_afterSent h closed
  | turned settled | shed settled => exact settled
  | finished now settled =>
      show (takeIn _ now _).pool.Settled
      rw [(takeIn_eq ..).1]
      exact (Pool.takeFinished_spec settled).1
  | salvaged now saved =>
      rw [(takeSalvage_eq ..).1]
      exact (Pool.salvage_spec h saved).1

/-- So does any number of changes. -/
theorem Changes.settled (hchanges : p.Changes q) (h : p.pool.Settled) : q.pool.Settled := by
  induction hchanges with
  | refl => exact h
  | tail _ hchange ih => exact hchange.settled ih

/-- A change leaves the number of fetchers. -/
theorem Change.size (h : p.Change q) : q.pool.size = p.pool.size := by
  cases h with
  | noted | started | played => rfl
  | stopped => exact Pool.size_stop p.pool
  | streamed now result =>
      cases result with
      | waits | nothing => rfl
      | requested policy first rest => exact Pool.size_enqueue p.pool now (first :: rest)
  | sent closed => exact Pool.size_afterSent p.pool closed
  | turned settled size | shed settled size => exact size
  | finished now settled size =>
      show (takeIn _ now _).pool.size = _
      rw [(takeIn_eq ..).1]
      exact size
  | salvaged now saved =>
      rw [(takeSalvage_eq ..).1]
      exact Pool.size_salvage saved

/-- So does any number of changes, whatever the pool was doing. -/
theorem Changes.size (h : p.Changes q) : q.pool.size = p.pool.size := by
  induction h with
  | refl => rfl
  | tail _ hchange ih => exact hchange.size.trans ih

/-! ### What a policy keeps -/

/-- Taking in tells the policy what has arrived. -/
theorem policy_takeIn {keeps : Adaptation → Prop} (hkept : Adaptation.Kept keeps)
    (h : keeps p.policy) (ds : List Delivery) : keeps (p.takeIn now ds).policy := by
  obtain ⟨buffer, holdings, notices, -, htaken⟩ := takeIn_form p now ds
  rw [htaken]
  exact hkept.foldl_delivered _ h

/-- **A change** leaves what a policy keeps. -/
theorem Change.policy {keeps : Adaptation → Prop} (hchange : p.Change q)
    (hkept : Adaptation.Kept keeps) (h : keeps p.policy) : keeps q.policy := by
  cases hchange with
  | noted | started | stopped | sent | turned | played => exact h
  | streamed now result =>
      cases result with
      | waits => exact h
      | nothing policy exhausted free more asked => exact hkept.next asked h
      | requested policy first rest free more asked => exact hkept.next asked h
  | @shed r failed => exact hkept.failed failed h
  | @finished r => exact policy_takeIn (p := { p with pool := r.takeFinished.2 }) hkept h _
  | @salvaged r s =>
      unfold Player.takeSalvage
      split
      · exact h
      · exact policy_takeIn hkept (hkept.foldl_abandoned s.dropped h) s.usable

/-! ### Starts and stops -/

/-- To stream is one change. -/
theorem changes_stream (h : p.stream now = .ok q) : p.Changes q :=
  (Change.streamed now (stream_cases h)).changes

/-- To play is to start, to note that, and to stream, unless the player plays already. -/
theorem changes_play (h : p.play now = .ok q) : p.Changes q := by
  unfold Player.play at h
  split at h
  · obtain rfl := Except.ok.inj h
    exact .refl
  · exact (Change.started now).changes.trans ((Change.noted _ _).changes.trans (changes_stream h))

/-- To stop is to end playback and to note that, unless it has ended already. -/
theorem changes_stop (p : Player) (now : Nat) : p.Changes (p.stop now) := by
  unfold Player.stop
  split
  · exact .refl
  · exact Change.stopped.changes.trans (Change.noted _ _).changes

/-! ### Ticks -/

/-- A tick for which there is time plays it and streams. -/
theorem changes_consumed {buffer : PlayoutBuffer}
    (hbuffer : p.buffer.consume? p.settings.tick = some buffer)
    (ht : p.consumed now buffer = .ok t) : p.Changes t.player := by
  obtain ⟨hthere, rfl⟩ := PlayoutBuffer.consume?_eq_some_iff.mp hbuffer
  obtain ⟨q, hstream, ht⟩ := Checked.bind_eq_ok_iff.mp ht
  obtain rfl := Except.ok.inj ht
  exact (Change.played p.settings.tick hthere (.inl rfl)).changes.trans (changes_stream hstream)

/-- A tick that finds no time notes a stall and streams. -/
theorem changes_consumeOrStall (ht : p.consumeOrStall now = .ok t) : p.Changes t.player := by
  unfold Player.consumeOrStall at ht
  split at ht
  · rename_i buffer hbuffer
    exact changes_consumed hbuffer ht
  · obtain ⟨q, hstall, ht⟩ := Checked.bind_eq_ok_iff.mp ht
    obtain rfl := Except.ok.inj ht
    obtain ⟨stalls, notices, hstream⟩ := stream_of_stall hstall
    exact (Change.noted _ _).changes.trans (changes_stream hstream)

/-- Whatever a tick does is made of changes. -/
theorem changes_consume (ht : p.consume now = .ok t) : p.Changes t.player := by
  cases consume_cases ht with
  | stopped => exact .refl
  | ended => exact (Change.noted _ _).changes
  | covered playing there ticked => exact changes_consumed there ticked
  | drained =>
      have hplayed : p.Change (({ p with buffer := p.buffer.drain.2 } : Player).played
          p.buffer.drain.1).2 := by
        have hchange := Change.played p.buffer.filled (Nat.le_refl _) (.inr rfl)
        rwa [Nat.sub_self] at hchange
      exact hplayed.changes.trans (Change.noted _ _).changes
  | underrun playing more short saved ticked =>
      exact (Change.salvaged now saved).changes.trans (changes_consumeOrStall ticked)

/-! ### Cues -/

/-- Carrying out what the pool has told. -/
theorem changes_hear {r : Pool} {e : Option PoolEvent} (hr : r.Settled)
    (hsize : r.size = p.pool.size) (hturn : Pool.Turn p.pool e r)
    (ht : ({ p with pool := r } : Player).hear now e = .ok t) : p.Changes t.player := by
  cases e with
  | none =>
      obtain rfl := Except.ok.inj ht
      exact (Change.turned hr hsize hturn).changes
  | some e =>
      obtain ⟨q, hq, ht⟩ := Checked.bind_eq_ok_iff.mp ht
      obtain rfl := Except.ok.inj ht
      cases e with
      | batchComplete =>
          exact (Change.finished now hr hsize hturn).changes.trans (changes_stream hq)
      | layersShed failed shed =>
          obtain rfl := Except.ok.inj hq
          exact (Change.shed hr hsize hturn).changes.trans (Change.noted _ _).changes

/-- **What happens on a cue** is made of changes. -/
theorem changes_heed (h : p.pool.Settled) {cue : Cue} (ht : p.heed cue = .ok t) :
    p.Changes t.player := by
  cases cue with
  | network now id w =>
      obtain ⟨⟨e, r⟩, hpoll, ht⟩ := Checked.bind_eq_ok_iff.mp ht
      obtain ⟨hr, hturn⟩ := Pool.poll_turn h hpoll
      exact changes_hear hr (Pool.size_poll hpoll) hturn ht
  | tick now =>
      rw [Player.heed] at ht
      rcases h.events with hsilent | hnews
      · rw [Pool.announce_nil hsilent] at ht
        exact changes_consume ht
      · -- The end of a batch is still to be told, and the tick waits.
        rw [Pool.announce_cons hnews] at ht
        exact changes_hear (r := { p.pool with events := [] }) ⟨h.fetchers, .inl rfl⟩ rfl
          (.announced hnews) ht
  | sent closed =>
      obtain rfl := Except.ok.inj ht
      exact (Change.sent closed).changes

/-- Any number of cues. -/
theorem changes_perform (cues : List Cue) (h : p.pool.Settled) (ht : p.perform cues = .ok t) :
    p.Changes t.player := by
  induction cues generalizing p t with
  | nil =>
      obtain rfl := Except.ok.inj ht
      exact .refl
  | cons cue rest ih =>
      obtain ⟨first, hfirst, ⟨-, rfl⟩ | ⟨later, -, hlater, rfl⟩⟩ := perform_cons ht
      · exact changes_heed h hfirst
      · have hchanges := changes_heed h hfirst
        have hrest : first.player.Changes later.player := ih (hchanges.settled h) hlater
        exact hchanges.trans hrest

/-! ### Lives -/

variable {before after : Past}

/-- A deed is made of changes, unless it is to adopt another policy. -/
theorem changes_does {deed : Deed} (h : p.pool.Settled) (hkeeps : ∀ policy, deed ≠ .adopt policy)
    (hq : p.does before deed = .ok (after, q)) : p.Changes q := by
  cases deed with
  | play now =>
      obtain ⟨q', hplay, hq⟩ := Checked.bind_eq_ok_iff.mp hq
      obtain ⟨-, rfl⟩ := Prod.mk.inj (Except.ok.inj hq)
      exact changes_play hplay
  | cue c =>
      obtain ⟨t, ht, hq⟩ := Checked.bind_eq_ok_iff.mp hq
      obtain ⟨-, rfl⟩ := Prod.mk.inj (Except.ok.inj hq)
      exact changes_heed h ht
  | stop now =>
      obtain ⟨-, rfl⟩ := Prod.mk.inj (Except.ok.inj hq)
      exact changes_stop p now
  -- What the owner takes is only noted.
  | takeReport | takeNotices =>
      obtain ⟨-, rfl⟩ := Prod.mk.inj (Except.ok.inj hq)
      exact (Change.noted _ _).changes
  | adopt policy => exact absurd rfl (hkeeps policy)

/-- **A life** in which the player keeps its policy is made of changes. -/
theorem changes_live (deeds : List Deed) (h : p.pool.Settled)
    (hkeeps : ∀ policy, Deed.adopt policy ∉ deeds) (hq : p.live before deeds = .ok (after, q)) :
    p.Changes q := by
  -- Induction on the deeds, from any player with any past.
  induction deeds generalizing p before with
  | nil =>
      obtain ⟨-, rfl⟩ := Prod.mk.inj (Except.ok.inj hq)
      exact .refl
  | cons deed rest ih =>
      obtain ⟨⟨between, p'⟩, hdeed, hrest⟩ := Checked.bind_eq_ok_iff.mp hq
      have hfirst : ∀ policy, deed ≠ .adopt policy := fun policy hadopt =>
        hkeeps policy (hadopt ▸ List.mem_cons_self)
      have hchanges := changes_does h hfirst hdeed
      exact hchanges.trans (ih (hchanges.settled h)
        (fun policy hadopt => hkeeps policy (List.mem_cons_of_mem _ hadopt)) hrest)

end LayerCast.Player
