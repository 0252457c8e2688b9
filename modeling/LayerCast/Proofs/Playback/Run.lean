import LayerCast.Playback.Player
import LayerCast.Proofs.Pool.Turn

/-!
# `LayerCast.Proofs.Playback.Run`: what can happen to a player

A playing player is driven by cues. Something happens on the network and one of the fetchers
handles it (`Cue.network`), a tick is due (`Cue.tick`), or the faces take what the fetchers send
(`Cue.sent`). The network is free to do what it likes: a cue may name any fetcher, any reply and any
time, so that a list of cues stands for a network that loses, delays, reorders or refuses anything.

What the pool tells is carried out at once. The events of the pool come before a tick: where the
pool still has something to tell, a tick has to wait until that is carried out. `Player.perform` is
playback from the first cue to the last one, or to the end of playback.

Requesting and ticks are the two steps with many branches. `Streamed` and `Consumed` list what they
can come to (`stream_cases`, `consume_cases`), for statements that have nothing to do with what a
policy asks for.
-/

set_option autoImplicit false

namespace LayerCast

/-- Settings are accepted exactly if they have no defect, and are not changed. -/
theorem PlayerSettings.validate_eq_ok_iff {s checked : PlayerSettings} :
    s.validate = .ok checked ↔ s.defect? = none ∧ s = checked := by
  unfold validate
  cases s.defect? with
  | none => simp
  | some d => simp

/-- What can happen to a player while it plays. -/
inductive Cue where
  /-- The pool has a turn, in which something may happen to one of its fetchers. -/
  | network (now id : Nat) (w : Wake)
  /-- A tick is due. -/
  | tick (now : Nat)
  /-- The fetchers hand their interests to the faces, some of which turn out closed. -/
  | sent (closed : Nat → Bool)

namespace Player

/-- Carries out what the pool has told, if it has told anything. -/
def hear (p : Player) (now : Nat) : Option PoolEvent → Checked Ticked
  | none => .ok { player := p }
  | some e => do
    let player ← p.onPoolEvent now e
    return { player }

/-- What a player does on a cue. -/
def heed (p : Player) : Cue → Checked Ticked
  | .network now id w => do
    let (e, pool) ← p.pool.poll now id w
    { p with pool }.hear now e
  | .tick now =>
    match p.pool.announce with
    | (some e, pool) => { p with pool }.hear now (some e)
    | (none, _) => p.consume now
  | .sent closed => .ok { player := { p with pool := p.pool.afterSent closed } }

/-- What a player does on several cues, up to the end of playback, with the numbers of all segments
that were played to their end. -/
def perform (p : Player) : List Cue → Checked Ticked
  | [] => .ok { player := p }
  | cue :: rest => do
    let t ← p.heed cue
    if t.goesOn then
      let later ← t.player.perform rest
      return { later with numbers := t.numbers ++ later.numbers }
    else return t

/-- A new player has a policy for its content and a pool with a fetcher for each face, and nothing
has happened to it. -/
theorem ofSettings_eq_ok {settings : PlayerSettings} {m : Manifest} {faces : Nat} {p : Player}
    (h : Player.ofSettings settings m faces = .ok (.ok p)) :
    ∃ policy pool, Policy.build settings.policy m = .ok policy ∧
      Pool.ofSettings faces settings.fetch = .ok (.ok pool) ∧
      p = {
        settings, manifest := m, policy := .builtIn policy, pool
        buffer := { capacity := settings.maxBuffer } } := by
  unfold Player.ofSettings at h
  split at h
  · cases h
  · rename_i checked hvalid
    -- What is checked is not changed.
    obtain ⟨-, rfl⟩ := PlayerSettings.validate_eq_ok_iff.mp hvalid
    split at h
    · cases h
    · split at h
      · cases h
      · rename_i policy hpolicy
        obtain ⟨pool?, hpool, h⟩ := Checked.bind_eq_ok_iff.mp h
        cases pool? with
        | error d => cases h
        | ok pool => exact ⟨policy, pool, hpolicy, hpool, (Except.ok.inj (Except.ok.inj h)).symm⟩

/-! ### What requests and ticks come to -/

section
variable {p q : Player} {now : Nat}

/-- What requesting can come to. -/
inductive Streamed (p : Player) (now : Nat) : Player → Prop
  /-- It is not the time to request anything. -/
  | waits (full : p.playing = true → p.pending = none → p.allDownloaded = false →
      p.buffer.hasRoom p.nextDuration = false) : Streamed p now p
  /-- The policy asks for nothing, perhaps because the content is at its end. -/
  | nothing (policy : Adaptation) (exhausted : Bool) (free : p.pending = none)
      (more : p.allDownloaded = false)
      (asked : p.policy.next p.manifest p.buffer p.holdings = .ok ([], policy))
      (answered : policy.isExhausted p.manifest p.holdings = .ok exhausted) :
      Streamed p now { p with policy, allDownloaded := exhausted }
  /-- A batch is requested, while none is out and there is room for a segment. -/
  | requested (policy : Adaptation) (first : Segment) (rest : List Segment)
      (free : p.pending = none) (more : p.allDownloaded = false)
      (asked : p.policy.next p.manifest p.buffer p.holdings = .ok (first :: rest, policy))
      (room : p.buffer.hasRoom p.nextDuration = true) :
      Streamed p now (({ p with policy } : Player).request now first (first :: rest))

/-- These are all the ways in which streaming goes on. -/
theorem stream_cases (h : p.stream now = .ok q) : Streamed p now q := by
  unfold Player.stream at h
  split at h
  · rename_i hwaits
    obtain rfl := Except.ok.inj h
    refine .waits fun playing free more => ?_
    simpa [playing, free, more] using hwaits
  · rename_i hready
    simp only [Bool.or_eq_true, not_or, Bool.not_eq_true, Bool.not_eq_false',
      Option.isSome_eq_false_iff, Option.isNone_iff_eq_none] at hready
    obtain ⟨⟨⟨-, free⟩, more⟩, room⟩ := hready
    obtain ⟨⟨batch, policy⟩, asked, h⟩ := Checked.bind_eq_ok_iff.mp h
    cases batch with
    | nil =>
        obtain ⟨exhausted, answered, h⟩ := Checked.bind_eq_ok_iff.mp h
        -- Nothing new has been downloaded, so that the flag may be written as it is.
        have hsame : ({ p with policy } : Player) = { p with policy, allDownloaded := false } := by
          rw [← more]
        have hq : q = { p with policy, allDownloaded := exhausted } := by
          refine (Except.ok.inj h).symm.trans ?_
          cases exhausted with
          | true => rfl
          | false => exact hsame
        rw [hq]
        exact .nothing policy exhausted free more asked answered
    | cons first rest =>
        obtain rfl := Except.ok.inj h
        exact .requested policy first rest free more asked room

/-- What a tick can come to. -/
inductive Consumed (p : Player) (now : Nat) : Ticked → Prop
  /-- There is no playback. -/
  | stopped (idle : p.playing = false) : Consumed p now { goesOn := false, player := p }
  /-- Everything was played before. -/
  | ended (all : p.allDownloaded = true) (empty : p.buffer.filled = 0) :
      Consumed p now { goesOn := false, player := p.complete }
  /-- The buffer covers the tick. -/
  | covered {buffer : PlayoutBuffer} {t : Ticked} (playing : p.playing = true)
      (there : p.buffer.consume? p.settings.tick = some buffer)
      (ticked : p.consumed now buffer = .ok t) : Consumed p now t
  /-- The rest of the content is shorter than a tick. -/
  | drained (all : p.allDownloaded = true) :
      Consumed p now {
        numbers := (({ p with buffer := p.buffer.drain.2 } : Player).played p.buffer.drain.1).1
        goesOn := false
        player :=
          (({ p with buffer := p.buffer.drain.2 } : Player).played p.buffer.drain.1).2.complete }
  /-- The buffer does not cover the tick, and what is usable of a batch may help. -/
  | underrun {s : Salvage} {r : Pool} {t : Ticked} (playing : p.playing = true)
      (more : p.allDownloaded = false) (short : p.buffer.consume? p.settings.tick = none)
      (saved : p.pool.salvage = .ok (s, r))
      (ticked : (({ p with pool := r } : Player).takeSalvage now s).consumeOrStall now = .ok t) :
      Consumed p now t

/-- These are all the ways in which a tick is spent. -/
theorem consume_cases {t : Ticked} (h : p.consume now = .ok t) : Consumed p now t := by
  -- One case for each test of the tick, in their order.
  unfold Player.consume at h
  split at h
  · rename_i hidle
    obtain rfl := Except.ok.inj h
    exact .stopped (by simpa using hidle)
  · rename_i hplaying
    split at h
    · rename_i hend
      obtain rfl := Except.ok.inj h
      obtain ⟨hall, hempty⟩ := Bool.and_eq_true_iff.mp hend
      exact .ended hall (beq_iff_eq.mp hempty)
    · split at h
      · rename_i buffer hbuffer
        exact .covered (by simpa using hplaying) hbuffer h
      · rename_i hshort
        split at h
        · rename_i hall
          obtain rfl := Except.ok.inj h
          exact .drained hall
        · rename_i hmore
          obtain ⟨⟨s, r⟩, hsalvage, h⟩ := Checked.bind_eq_ok_iff.mp h
          exact .underrun (by simpa using hplaying) (by simpa using hmore) hshort hsalvage h

end

/-! ### Performances -/

/-- A performance ends with its first cue, or goes on behind it. -/
theorem perform_cons {p : Player} {cue : Cue} {rest : List Cue} {t : Ticked}
    (h : p.perform (cue :: rest) = .ok t) :
    ∃ first, p.heed cue = .ok first ∧
      ((first.goesOn = false ∧ t = first) ∨
        ∃ later, first.goesOn = true ∧ first.player.perform rest = .ok later ∧
          t = { later with numbers := first.numbers ++ later.numbers }) := by
  obtain ⟨first, hfirst, h⟩ := Checked.bind_eq_ok_iff.mp h
  refine ⟨first, hfirst, ?_⟩
  split at h
  · rename_i hgoesOn
    obtain ⟨later, hlater, h⟩ := Checked.bind_eq_ok_iff.mp h
    exact .inr ⟨later, hgoesOn, hlater, (Except.ok.inj h).symm⟩
  · rename_i hends
    exact .inl ⟨Bool.eq_false_iff.mpr hends, (Except.ok.inj h).symm⟩

/-- A performance that goes on can be followed by another one. -/
theorem perform_append {p : Player} {cues later : List Cue} {t u : Ticked}
    (ht : p.perform cues = .ok t) (hgoesOn : t.goesOn = true)
    (hu : t.player.perform later = .ok u) :
    p.perform (cues ++ later) = .ok { u with numbers := t.numbers ++ u.numbers } := by
  induction cues generalizing p t with
  | nil =>
      obtain rfl := Except.ok.inj ht
      exact hu
  | cons cue rest ih =>
      obtain ⟨first, hfirst, ⟨hends, rfl⟩ | ⟨last, hfirstGoesOn, hlast, rfl⟩⟩ := perform_cons ht
      · rw [hends] at hgoesOn
        cases hgoesOn
      · have hrest := ih hlast hgoesOn hu
        rw [List.cons_append, perform, hfirst]
        show (if first.goesOn then _ else _) = _
        rw [if_pos hfirstGoesOn, hrest, List.append_assoc]
        rfl

end Player

end LayerCast
