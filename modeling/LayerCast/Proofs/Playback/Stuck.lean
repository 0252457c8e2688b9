import LayerCast.Proofs.Playback.Progress

/-!
# `LayerCast.Proofs.Playback.Stuck`: playback that is stuck stays stuck

`progress` says when a tick leaves a player with something to wait for. A player without that is
`Stuck`, however it came to it (`stuck_of_tick`). Nothing that happens changes this (`Stuck.heed`):
every tick is a stall, nothing is requested and nothing is played, so that playback never ends
(`stuck_forever`). Only its owner can stop it.
-/

set_option autoImplicit false

namespace LayerCast

/-- A built-in policy that asks for nothing has learnt nothing from being asked. -/
theorem Adaptation.same_of_next_nil {a a' : Adaptation} {m : Manifest} {b : PlayoutBuffer}
    {h : Holdings} (hbuiltIn : a.nature.builtIn = true) (hnext : a.next m b h = .ok ([], a')) :
    a' = a := by
  obtain ⟨p, rfl⟩ := builtIn_nature hbuiltIn
  obtain ⟨p', rfl, hanswer⟩ := next_builtIn hnext
  cases Policy.next_cases hanswer <;> rfl

namespace Player

variable {p q : Player} {now : Nat} {t : Ticked}

/-- A playing player with nothing out, less than a tick in its buffer, and nothing to request. -/
structure Stuck (p : Player) : Prop where
  playing : p.playing = true
  free : p.pending = none
  more : p.allDownloaded = false
  behind : p.buffer.consume? p.settings.tick = none
  idle : p.pool.OneBatch none
  /-- There is no room, or the policy asks for nothing though it is not exhausted. -/
  asksNothing : p.buffer.hasRoom p.nextDuration = false ∨
    (p.policy.next p.manifest p.buffer p.holdings = .ok ([], p.policy) ∧
      p.policy.isExhausted p.manifest p.holdings = .ok false)

/-- Looking for something to request changes nothing. -/
theorem Stuck.stream (h : p.Stuck) (now : Nat) : p.stream now = .ok p := by
  unfold Player.stream
  split
  · rfl
  · rename_i hready
    rcases h.asksNothing with hfull | ⟨hasked, hanswered⟩
    · rw [hfull, Bool.not_false, Bool.or_true] at hready
      exact absurd rfl hready
    · rw [hasked]
      show (do
        let exhausted ← p.policy.isExhausted p.manifest p.holdings
        return if exhausted then { p with allDownloaded := true } else p) = Except.ok p
      rw [hanswered]
      rfl

/-- A player that is stuck is stuck whatever its report and its notices say, and whatever the
fetchers of its idle pool are like. -/
theorem Stuck.with (h : p.Stuck) {r : Pool} (hr : r.OneBatch none) (report : Report)
    (notices : List (Nat × Notice)) : ({ p with pool := r, report, notices } : Player).Stuck :=
  { h with idle := hr }

/-- A tick is a stall. -/
theorem Stuck.consume (h : p.Stuck) (ht : p.consume now = .ok t) :
    t.goesOn = true ∧ t.numbers = [] ∧ t.player.buffer = p.buffer ∧ t.player.Stuck := by
  cases consume_cases ht with
  | stopped idle =>
      rw [h.playing] at idle
      cases idle
  | ended all | drained all =>
      rw [h.more] at all
      cases all
  | covered playing there =>
      rw [h.behind] at there
      cases there
  | @underrun s r _ playing more short saved ticked =>
      -- An idle pool has nothing that could be salvaged.
      obtain ⟨hr, hempty⟩ := h.idle.salvage_none saved
      rw [takeSalvage, if_pos hempty, consumeOrStall] at ticked
      simp only [short] at ticked
      obtain ⟨q, hstall, ticked⟩ := Checked.bind_eq_ok_iff.mp ticked
      obtain rfl := Except.ok.inj ticked
      obtain ⟨stalls, notices, hstream⟩ := stream_of_stall hstall
      have hstuck := h.with hr { p.report with stalls } notices
      obtain rfl := Except.ok.inj ((hstuck.stream now).symm.trans hstream)
      exact ⟨rfl, rfl, rfl, hstuck⟩

/-- **On a cue** nothing happens to a player that is stuck. -/
theorem Stuck.heed (h : p.Stuck) {cue : Cue} (ht : p.heed cue = .ok t) :
    t.goesOn = true ∧ t.numbers = [] ∧ t.player.buffer = p.buffer ∧ t.player.Stuck := by
  have hidle := h.idle
  obtain ⟨hempty, hsilent⟩ := hidle.resting rfl
  cases cue with
  | network now id w =>
      obtain ⟨⟨e, r⟩, hpoll, ht⟩ := Checked.bind_eq_ok_iff.mp ht
      obtain ⟨hr, hturn⟩ := Pool.poll_turn hidle.settled hpoll
      -- An empty pool has nothing to tell, whatever happens to its fetchers.
      obtain ⟨rfl, -⟩ := hturn.of_empty hempty hsilent
      obtain rfl := Except.ok.inj ht
      have hstays := hidle.turn hr (Pool.size_poll hpoll) hturn nofun
      exact ⟨rfl, rfl, rfl, h.with hstays p.report p.notices⟩
  | tick now =>
      rw [Player.heed, Pool.announce_nil hsilent] at ht
      exact h.consume ht
  | sent closed =>
      obtain rfl := Except.ok.inj ht
      exact ⟨rfl, rfl, rfl, h.with (hidle.afterSent closed) p.report p.notices⟩

/-- However many cues there are, nothing happens to a player that is stuck. -/
theorem Stuck.perform (cues : List Cue) (h : p.Stuck) (ht : p.perform cues = .ok t) :
    t.goesOn = true ∧ t.numbers = [] ∧ t.player.buffer = p.buffer ∧ t.player.Stuck := by
  induction cues generalizing p t with
  | nil =>
      obtain rfl := Except.ok.inj ht
      exact ⟨rfl, rfl, rfl, h⟩
  | cons cue rest ih =>
      obtain ⟨first, hfirst, ⟨hends, -⟩ | ⟨later, -, hlater, rfl⟩⟩ := perform_cons ht
      · obtain ⟨hgoesOn, -⟩ := h.heed hfirst
        rw [hends] at hgoesOn
        cases hgoesOn
      · obtain ⟨-, hnone, hsame, hstuck⟩ := h.heed hfirst
        obtain ⟨hgoesOn, hnone', hsame', hstuck'⟩ := ih hstuck hlater
        refine ⟨hgoesOn, ?_, hsame'.trans hsame, hstuck'⟩
        show first.numbers ++ later.numbers = []
        rw [hnone, hnone', List.append_nil]

/-- A tick that leaves nothing out, content that was not requested, and less than a tick in the
buffer, leaves the player stuck. -/
theorem stuck_of_tick {u : Ticked} (h : p.OneBatch) (hbuiltIn : p.policy.nature.builtIn = true)
    (hu : p.consume now = .ok u) (hgoesOn : u.goesOn = true) (hfree : u.player.pending = none)
    (hmore : u.player.allDownloaded = false)
    (hbehind : u.player.buffer.filled < u.player.settings.tick) : u.player.Stuck := by
  have hchanges := changes_consume hu
  have hidle : u.player.pool.OneBatch none := hfree ▸ hchanges.oneBatch h
  have hnature : u.player.policy.nature = p.policy.nature := congrArg Terms.nature hchanges.terms
  obtain ⟨r, hplaying, hstreamed⟩ := streamed_of_consume hu hgoesOn
  generalize u.player = v at *
  have hshort : v.buffer.consume? v.settings.tick = none := if_pos hbehind
  cases hstreamed with
  | requested => cases hfree
  | waits full => exact ⟨hplaying, hfree, hmore, hshort, hidle, .inl (full hplaying hfree hmore)⟩
  | nothing policy exhausted free more asked answered =>
      obtain rfl : exhausted = false := hmore
      have hasked : r.policy.nature.builtIn = true := by
        rw [← Adaptation.nature_next asked]
        exact (congrArg Nature.builtIn hnature).trans hbuiltIn
      -- A policy that answers nothing does not change, so that it will answer the same.
      obtain rfl := Adaptation.same_of_next_nil hasked asked
      exact ⟨hplaying, hfree, rfl, hshort, hidle, .inr ⟨asked, answered⟩⟩

/-- **A player that gets stuck stays stuck.** Take a player with a built-in policy, anywhere in its
life, and a tick that goes on and leaves nothing out, content that was not requested, and less than
a tick in the buffer. Whatever happens from there on, playback goes on, nothing is played and
nothing is requested. -/
theorem stuck_forever {settings : PlayerSettings} {m : Manifest} {faces : Nat} {deeds : List Deed}
    {past : Past} {u : Ticked} {cues : List Cue}
    (hnew : Player.ofSettings settings m faces = .ok (.ok p))
    (hkeeps : ∀ policy, Deed.adopt policy ∉ deeds) (hlive : p.live {} deeds = .ok (past, q))
    (hu : q.consume now = .ok u) (hgoesOn : u.goesOn = true) (hfree : u.player.pending = none)
    (hmore : u.player.allDownloaded = false)
    (hbehind : u.player.buffer.filled < u.player.settings.tick)
    (ht : u.player.perform cues = .ok t) :
    t.goesOn = true ∧ t.numbers = [] ∧ t.player.pending = none ∧
      t.player.buffer = u.player.buffer := by
  have hone := oneBatch_ofSettings hnew
  have hchanges := changes_live deeds hone.settled hkeeps hlive
  have hnature : q.policy.nature = p.policy.nature := congrArg Terms.nature hchanges.terms
  have hstuck := stuck_of_tick (hchanges.oneBatch hone)
    (hnature ▸ (supplied_ofSettings hnew).builtIn) hu hgoesOn hfree hmore hbehind
  obtain ⟨hgoes, hnone, hsame, hstays⟩ := hstuck.perform cues ht
  exact ⟨hgoes, hnone, hstays.free, hsame⟩

end Player

end LayerCast
