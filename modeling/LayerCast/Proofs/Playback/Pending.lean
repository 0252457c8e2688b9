import LayerCast.Proofs.Playback.Gapless
import LayerCast.Proofs.Playback.Changes

/-!
# `LayerCast.Proofs.Playback.Pending`: what a player knows of its pool

A player notes the number of the segment of which a batch is out, and requests nothing while there
is such a note. The pool has its own account of what is out. `Pool.OneBatch` says that the two
agree, and every change of a player keeps it (`Change.oneBatch`), and so a whole life does
(`oneBatch_live`). What is taken in on a cue was in the pool before (`mem_intake`).

`pending_iff_owed` has what follows for a player: a note stands exactly while the pool owes a batch,
all layers in the pool are those of the noted segment, and no layer is taken in under the number of
another segment.
-/

set_option autoImplicit false

namespace LayerCast

/-! ### What is taken in -/

section
variable {p r : Pool} {e : Option PoolEvent}

/-- What a turn hands over was in the pool before. -/
theorem Pool.mem_handover (hturn : Pool.Turn p e r) :
    ∀ d ∈ r.handover e, d.segment ∈ p.contents := by
  intro d hd
  cases e with
  | none => cases hd
  | some e =>
      cases e with
      | batchComplete =>
          have hfinished : d ∈ r.finished := (deliveriesByLevel_perm r.finished).mem_iff.mp hd
          have harrived : d.segment ∈ r.contents :=
            List.mem_append_right _ (List.mem_map_of_mem hfinished)
          exact hturn.contents_perm.mem_iff.mpr (List.mem_append_left _ harrived)
      | layersShed failed shed => cases hd

/-- What is handed over is in the order of the levels. -/
theorem Pool.sorted_handover (r : Pool) (e : Option PoolEvent) :
    (r.handover e).Pairwise fun d f => d.segment.level ≤ f.segment.level := by
  rcases e with - | (- | -)
  · exact List.Pairwise.nil
  · exact Pool.deliveriesByLevel_sorted r.finished
  · exact List.Pairwise.nil

/-- What a salvage finds usable was in the pool before. -/
theorem Pool.mem_usable (h : p.Settled) {s : Salvage} (hsalvage : p.salvage = .ok (s, r)) :
    ∀ d ∈ s.usable, d.segment ∈ p.contents := by
  intro d hd
  obtain ⟨-, hperm⟩ := Pool.salvage_spec h hsalvage
  exact hperm.mem_iff.mpr (List.mem_append_left _
    (List.mem_append_right _ (List.mem_map_of_mem hd)))

end

namespace Player

variable {p q : Player} {now : Nat}

/-- What holds of everything that the pool can hand over holds of what is taken in on a cue. -/
theorem intake_of (h : p.pool.Settled) {P : List Delivery → Prop} (hnil : P [])
    (hhandover : ∀ r e, Pool.Turn p.pool e r → P (r.handover e))
    (husable : ∀ s r, p.pool.salvage = .ok (s, r) → P s.usable) (cue : Cue) : P (p.intake cue) := by
  -- Every way in which something is handed over, or nothing because the computation has failed.
  cases cue with
  | network now id w =>
      cases hpoll : p.pool.poll now id w with
      | error fault =>
          simp only [intake, hpoll]
          exact hnil
      | ok told =>
          obtain ⟨e, r⟩ := told
          rw [intake_network hpoll]
          exact hhandover r e (Pool.poll_turn h hpoll).2
  | tick now =>
      rcases h.events with hsilent | hnews
      · rw [intake_tick_none (Pool.announce_nil hsilent), salvaged]
        split
        · cases hsalvage : p.pool.salvage with
          | error fault => exact hnil
          | ok saved => exact husable saved.1 saved.2 hsalvage
        · exact hnil
      · rw [intake_tick_some (Pool.announce_cons hnews)]
        exact hhandover _ _ (.announced hnews)
  | sent closed => exact hnil

/-- What is taken in on a cue was in the pool before. -/
theorem mem_intake (h : p.pool.Settled) (cue : Cue) :
    ∀ d ∈ p.intake cue, d.segment ∈ p.pool.contents := by
  refine intake_of (P := fun ds => ∀ d ∈ ds, d.segment ∈ p.pool.contents) h ?_ ?_ ?_ cue
  · exact fun d hd => absurd hd List.not_mem_nil
  · exact fun r e hturn => Pool.mem_handover hturn
  · exact fun s r hsalvage => Pool.mem_usable h hsalvage

/-- What is taken in on a cue is in the order of the levels. -/
theorem sorted_intake (h : p.pool.Settled) (cue : Cue) :
    (p.intake cue).Pairwise fun d e => d.segment.level ≤ e.segment.level :=
  intake_of h List.Pairwise.nil (fun r e _ => r.sorted_handover e)
    (fun _ _ hsalvage => Pool.sorted_usable hsalvage) cue

/-! ### The note of a player -/

/-- The note of a player agrees with its pool. -/
def OneBatch (p : Player) : Prop := p.pool.OneBatch p.pending

/-- What is taken in on a cue is of the noted segment. -/
theorem number_of_intake (h : p.OneBatch) (cue : Cue) :
    ∀ d ∈ p.intake cue, p.pending = some d.segment.number :=
  fun d hd => h.numbered d.segment (mem_intake h.settled cue d hd)

/-- **A change** keeps the note in agreement with the pool. -/
theorem Change.oneBatch (hchange : p.Change q) (h : p.OneBatch) : q.OneBatch := by
  cases hchange with
  | noted | started | played => exact h
  | stopped => exact Pool.OneBatch.stop h
  | streamed now result =>
      cases result with
      | waits | nothing => exact h
      | requested policy first rest free more asked =>
          -- A batch is requested only when none is out.
          obtain ⟨number, hnumber⟩ := Adaptation.number_of_next asked
          obtain rfl := hnumber first List.mem_cons_self
          have hnone : p.pool.OneBatch none := free ▸ h
          exact hnone.enqueue now (List.cons_ne_nil first rest) hnumber
  | sent closed => exact Pool.OneBatch.afterSent h closed
  | turned settled size turn | shed settled size turn =>
      exact Pool.OneBatch.turn h settled size turn (by simp)
  | @finished r now settled size turn =>
      show Pool.OneBatch none (takeIn _ now _).pool
      rw [(takeIn_eq ..).1]
      exact Pool.OneBatch.complete h settled size turn
  | salvaged now saved =>
      -- A salvage that finds something removes the note, and one that finds nothing leaves it.
      rw [OneBatch, (takeSalvage_eq ..).1, (takeSalvage_eq ..).2.1]
      exact Pool.OneBatch.salvage h saved

/-- So does any number of changes. -/
theorem Changes.oneBatch (hchanges : p.Changes q) (h : p.OneBatch) : q.OneBatch := by
  induction hchanges with
  | refl => exact h
  | tail _ hchange ih => exact hchange.oneBatch ih

/-! ### Lives -/

variable {before after : Past}

/-- **One deed** keeps the note in agreement with the pool. -/
theorem oneBatch_does (h : p.OneBatch) {deed : Deed} (hq : p.does before deed = .ok (after, q)) :
    q.OneBatch := by
  cases deed with
  | adopt policy =>
      obtain ⟨-, rfl⟩ := Prod.mk.inj (Except.ok.inj hq)
      exact h
  | play | cue | stop | takeReport | takeNotices =>
      exact (changes_does h.settled (fun policy hadopt => by cases hadopt) hq).oneBatch h

/-- **A life** keeps the note in agreement with the pool. -/
theorem oneBatch_live (deeds : List Deed) (h : p.OneBatch)
    (hq : p.live before deeds = .ok (after, q)) : q.OneBatch := by
  -- Induction on the deeds, from any player with any past.
  induction deeds generalizing p before with
  | nil =>
      obtain ⟨-, rfl⟩ := Prod.mk.inj (Except.ok.inj hq)
      exact h
  | cons deed rest ih =>
      obtain ⟨⟨between, p'⟩, hdeed, hrest⟩ := Checked.bind_eq_ok_iff.mp hq
      exact ih (oneBatch_does h hdeed) hrest

/-- A new player has noted nothing, and its pool has nothing to do. -/
theorem oneBatch_ofSettings {settings : PlayerSettings} {m : Manifest} {faces : Nat}
    (hnew : Player.ofSettings settings m faces = .ok (.ok p)) : p.OneBatch := by
  obtain ⟨policy, pool, -, hpool, rfl⟩ := ofSettings_eq_ok hnew
  exact Pool.oneBatch_ofSettings hpool

/-- **One batch at a time.** Whatever happens in the life of a player, it has a note exactly while
the pool owes it a batch: a fetcher is busy, a layer waits, or the end of the batch is not told yet.
With a note something goes on, and all layers in the pool are those of the noted segment. Without a
note the pool is idle and holds no finished layer. So on every cue only layers of the noted segment
are taken in. -/
theorem pending_iff_owed {settings : PlayerSettings} {m : Manifest} {faces : Nat}
    {deeds : List Deed} (hnew : Player.ofSettings settings m faces = .ok (.ok p))
    (hlive : p.live {} deeds = .ok (after, q)) :
    (q.pending.isSome = true ↔ (∃ f ∈ q.pool.fetchers, f.isBusy = true) ∨ q.pool.queue ≠ [] ∨
        .batchComplete ∈ q.pool.events) ∧
      (∀ n, q.pending = some n →
        ((∃ f ∈ q.pool.fetchers, f.isBusy = true) ∨ .batchComplete ∈ q.pool.events) ∧
          ∀ s ∈ q.pool.contents, s.number = n) ∧
      (q.pending = none → q.pool.isIdle = true ∧ q.pool.finished = []) ∧
      ∀ cue, ∀ d ∈ q.intake cue, q.pending = some d.segment.number := by
  have hq : q.OneBatch := oneBatch_live deeds (oneBatch_ofSettings hnew) hlive
  refine ⟨hq.isSome_iff, ?noted, ?resting, number_of_intake hq⟩
  case noted =>
    intro n hn
    have howing := hq.owing (hn ▸ Option.some_ne_none n)
    refine ⟨(Pool.owing_iff hq.settled).mp howing, fun s hs => ?_⟩
    exact Option.some.inj ((hq.numbered s hs).symm.trans hn)
  case resting =>
    intro hnone
    have hempty : q.pool.OneBatch none := hnone ▸ hq
    exact hempty.isIdle

/-- The first playback stalls while a salvage finds nothing, and is stopped. In the second one the
first segment arrives, and the second segment is requested. -/
def stalledDeeds : List Deed :=
  [.play 0, .cue (.sent fun _ => false), .cue (.tick 2000000000), .stop 2500000000,
    .play 3000000000, .cue (.sent fun _ => false),
    .cue (.network 3000000010 0
      (.reply ⟨⟨contentName "http://a/0", 0⟩, .data (Length.encode 0)⟩))]

/-- After these deeds the batch of segment 1 is out. After another stop none is. -/
theorem pending_iff_owed_sample :
    ∃ p past q past' r, Player.ofSettings sampleSettings sampleManifest 1 = .ok (.ok p) ∧
      p.live {} stalledDeeds = .ok (past, q) ∧
      p.live {} (stalledDeeds ++ [.stop 4000000000]) = .ok (past', r) ∧
      q.pending = some 1 ∧ q.pool.contents.length = 1 ∧ (∀ s ∈ q.pool.contents, s.number = 1) ∧
      r.pending = none ∧ r.pool.isIdle = true ∧ r.pool.finished = [] := by
  have hvalue : ((Player.ofSettings sampleSettings sampleManifest 1).toOption.bind fun r =>
      r.toOption.bind fun p => (p.live {} stalledDeeds).toOption.bind fun before =>
        (p.live {} (stalledDeeds ++ [.stop 4000000000])).toOption.map fun after =>
          (before.2.pending, before.2.pool.contents.length, after.2.pending)) =
      some (some 1, 1, none) := by
    decide +kernel
  obtain ⟨player, hplayer, hvalue⟩ := Option.bind_eq_some_iff.mp hvalue
  obtain ⟨p, hp, hvalue⟩ := Option.bind_eq_some_iff.mp hvalue
  obtain ⟨⟨past, q⟩, hq, hvalue⟩ := Option.bind_eq_some_iff.mp hvalue
  obtain ⟨⟨past', r⟩, hr, hvalues⟩ := Option.map_eq_some_iff.mp hvalue
  obtain ⟨hnote, hvalues⟩ := Prod.mk.inj hvalues
  obtain ⟨hlength, hnone⟩ := Prod.mk.inj hvalues
  have hnew : Player.ofSettings sampleSettings sampleManifest 1 = .ok (.ok p) := by
    rw [Checked.eq_ok_of_toOption hplayer, Checked.eq_ok_of_toOption hp]
  have hbefore := Checked.eq_ok_of_toOption hq
  have hafter := Checked.eq_ok_of_toOption hr
  obtain ⟨-, hout, -⟩ := pending_iff_owed hnew hbefore
  obtain ⟨-, -, hresting, -⟩ := pending_iff_owed hnew hafter
  obtain ⟨hidle, hfinished⟩ := hresting hnone
  exact ⟨p, past, q, past', r, hnew, hbefore, hafter, hnote, hlength, (hout 1 hnote).2, hnone,
    hidle, hfinished⟩

end Player

end LayerCast
