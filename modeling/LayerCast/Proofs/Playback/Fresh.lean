import LayerCast.Proofs.Playback.Occupancy
import LayerCast.Proofs.Playback.Pending
import LayerCast.Proofs.Playback.Reserve
import LayerCast.Proofs.Playback.Terms
import LayerCast.Proofs.Policy.Decision
import LayerCast.Proofs.Pool.Salvage

/-!
# `LayerCast.Proofs.Playback.Fresh`: no layer is asked for twice

The layered policy starts a level on which nothing is held `gamma` segments ahead of playback. With
a positive `gamma` a player asks only for layers that were not played and are not held.
`Player.Fresh` is the invariant behind that: what is held lies ahead of playback, and nothing that
is held is in the pool. Every change keeps it (`Change.fresh`).

`Player.Had` says of a layer that it is held or was played, and that it is not in the pool. What is
taken in on a cue is had from then on (`had_of_heed`), whatever happens later (`Changes.had`).
`asks_ahead` puts this together. With a `gamma` of 0 an empty level is asked for the segment that
was played last, again and again (`asks_behind_without_gamma`).
-/

set_option autoImplicit false

namespace LayerCast

open scoped List

/-! ### The distance from playback -/

namespace Adaptation

/-- How many segments ahead of playback an empty level is started, by a layered policy. -/
def gamma? : Adaptation → Option Nat
  | .builtIn (.layered l) => some l.gamma
  | _ => none

variable {a a' : Adaptation} {gamma : Nat}

/-- Only a layered policy has a distance from playback. -/
theorem exists_of_gamma? (h : a.gamma? = some gamma) :
    ∃ l : Layered, a = .builtIn (.layered l) ∧ l.gamma = gamma := by
  rcases a with (l | s) | f
  · exact ⟨l, rfl, Option.some.inj h⟩
  · cases h
  · cases h

/-- What a layered policy is asked for is what it decides. -/
theorem next_of_gamma? {m : Manifest} {b : PlayoutBuffer} {h : Holdings} {batch : List Segment}
    (hgamma : a.gamma? = some gamma) (hnext : a.next m b h = .ok (batch, a')) :
    ∃ l : Layered, l.gamma = gamma ∧ l.next m h = .ok batch := by
  obtain ⟨l, rfl, hl⟩ := exists_of_gamma? hgamma
  obtain ⟨p', rfl, hanswer⟩ := next_builtIn hnext
  cases Policy.next_cases hanswer with
  | layered decided => exact ⟨l, hl, decided⟩

/-- No call of a policy changes the distance. -/
theorem kept_gamma (gamma : Option Nat) : Kept fun a => a.gamma? = gamma where
  next := by
    intro a a' m b h batch hnext ha
    cases a with
    | builtIn p =>
        obtain ⟨p', rfl, hanswer⟩ := next_builtIn hnext
        cases Policy.next_cases hanswer <;> exact ha
    | foreign f =>
        obtain ⟨-, rfl⟩ := Prod.mk.inj (Except.ok.inj hnext)
        exact ha
  delivered := by
    intro a rate ha
    rcases a with (l | s) | f
    · -- A delivery may change the slope, and leaves the distance.
      have hsame : l.delivered.gamma = l.gamma := by
        unfold Layered.delivered
        split <;> rfl
      exact (congrArg some hsame).trans ha
    · exact ha
    · exact ha
  failed := by
    intro a segment ha
    rcases a with (l | s) | f <;> exact ha
  abandoned := by
    intro a segment ha
    rcases a with (l | s) | f <;> exact ha

end Adaptation

namespace Player

variable {p q : Player} {now : Nat} {target : Target}

/-! ### What taking in does -/

/-- Taking in records the layers under the number of the first one, and may queue the segment. -/
theorem holdings_takeIn (p : Player) (now : Nat) (d : Delivery) (rest : List Delivery) :
    let recorded := ((d :: rest).map (·.segment.level)).foldl
      (Holdings.recorded d.segment.number) p.holdings
    (p.takeIn now (d :: rest)).holdings = recorded ∨
      recorded.schedule? d.segment.number d.segment.duration =
        some (p.takeIn now (d :: rest)).holdings := by
  intro recorded
  obtain ⟨records, notices, -, hfold⟩ := foldl_takeInLayer now d.segment.number (d :: rest) p
  rw [List.map_map] at hfold
  unfold Player.takeIn
  simp only
  rw [hfold]
  split
  · unfold Player.credit
    -- Room in the buffer and a place in the queue are both needed.
    split
    · split
      · exact .inl rfl
      · rename_i hscheduled
        exact .inr hscheduled
    · exact .inl rfl
  · exact .inl rfl

/-- What taking in deliveries does to what is held. -/
structure TakesIn (ds : List Delivery) (h k : Holdings) : Prop where
  ahead : h.Ahead → k.Ahead
  below : ∀ bound, h.Below bound → (∀ d ∈ ds, d.segment.number < bound) → k.Below bound
  isPlayed : ∀ number, k.isPlayed number = h.isPlayed number
  kept : ∀ layer ∈ h.held, layer ∈ k.held
  /-- Layers of one segment are held then, unless the segment was played. -/
  had : ∀ number, (∀ d ∈ ds, d.segment.number = number) →
    ∀ d ∈ ds, k.isPlayed number = true ∨ (d.segment.level, number) ∈ k.held

/-- Where nothing is delivered, nothing is taken in. -/
theorem takesIn_nil (h : Holdings) : TakesIn [] h h :=
  ⟨fun hh => hh, fun _ hh _ => hh, fun _ => rfl, fun _ hl => hl, fun _ _ _ hd => nomatch hd⟩

/-- The layers of a batch are held once they are taken in, and nothing else is. -/
theorem takesIn_takeIn (p : Player) (now : Nat) (ds : List Delivery) :
    TakesIn ds p.holdings (p.takeIn now ds).holdings := by
  cases ds with
  | nil => exact takesIn_nil p.holdings
  | cons d rest =>
      have hholdings := holdings_takeIn p now d rest
      have hmem := Holdings.mem_held_foldl_recorded ((d :: rest).map (·.segment.level)) p.holdings
        d.segment.number
      have hrecorded := fun (hh : p.holdings.Ahead) =>
        hh.recorded d.segment.number ((d :: rest).map (·.segment.level))
      have hbelow := fun bound (hh : p.holdings.Below bound) (hnumber : d.segment.number < bound) =>
        hh.recorded hnumber ((d :: rest).map (·.segment.level))
      obtain ⟨held, hheld⟩ := Holdings.foldl_recorded_eq d.segment.number
        ((d :: rest).map (·.segment.level)) p.holdings
      rw [hheld] at hholdings hmem hrecorded hbelow
      generalize (p.takeIn now (d :: rest)).holdings = k at hholdings
      -- Where the segment is queued, what is held and what was played stay.
      have hsame : k.held = held ∧ ∀ number, k.isPlayed number = p.holdings.isPlayed number := by
        rcases hholdings with rfl | hscheduled
        · exact ⟨rfl, fun _ => rfl⟩
        · obtain ⟨-, rfl⟩ := Holdings.schedule?_eq_some_iff.mp hscheduled
          exact ⟨rfl, fun _ => rfl⟩
      obtain ⟨hsameHeld, hsamePlayed⟩ := hsame
      refine ⟨fun hh => ?_, fun bound hh hwords => ?_, hsamePlayed, fun layer hlayer => ?_,
        fun number hnumber x hx => ?_⟩
      · rcases hholdings with rfl | hscheduled
        · exact hrecorded hh
        · exact (hrecorded hh).schedule hscheduled
      · have hnumber := hwords d List.mem_cons_self
        rcases hholdings with rfl | hscheduled
        · exact hbelow bound hh hnumber
        · exact (hbelow bound hh hnumber).schedule hnumber hscheduled
      · rw [hsameHeld]
        exact (hmem layer.1 layer.2).mpr (.inl hlayer)
      · rw [hsamePlayed, hsameHeld]
        cases hplayed : p.holdings.isPlayed number with
        | true => exact .inl rfl
        | false =>
            obtain rfl := hnumber d List.mem_cons_self
            exact .inr ((hmem _ _).mpr (.inr ⟨rfl, List.mem_map_of_mem hx, hplayed⟩))

/-- Of a salvage, the layers that are usable are held, and those that are dropped are not. -/
theorem takesIn_takeSalvage (p : Player) (now : Nat) (s : Salvage) :
    TakesIn s.usable p.holdings (p.takeSalvage now s).holdings := by
  unfold Player.takeSalvage
  split
  · rename_i hempty
    rw [Salvage.isEmpty, Bool.and_eq_true, List.isEmpty_iff] at hempty
    rw [hempty.1]
    exact takesIn_nil p.holdings
  · exact takesIn_takeIn { p with
      policy := s.dropped.foldl Adaptation.abandoned p.policy
      pending := none } now s.usable

/-- **A change** leaves the distance from playback at which empty levels are started. -/
theorem Change.gamma? (h : p.Change q) : q.policy.gamma? = p.policy.gamma? :=
  h.policy (Adaptation.kept_gamma p.policy.gamma?) rfl

/-! ### Nothing that is held is in the pool -/

/-- A player of a layered policy with a distance from playback. What is held lies ahead of playback,
and the layers in the pool are on distinct levels and are not held. -/
structure Fresh (p : Player) : Prop where
  oneBatch : p.OneBatch
  gamma : ∃ gamma, p.policy.gamma? = some gamma ∧ 0 < gamma
  levels : 0 < p.manifest.levels
  ahead : p.holdings.Ahead
  below : p.holdings.Below signed64
  words : ∀ s ∈ p.pool.contents, s.number < signed64
  distinct : (p.pool.contents.map Segment.level).Nodup
  fresh : ∀ s ∈ p.pool.contents, p.holdings.contains s.level s.number = false

/-- What a player asks for was not played, is not held, and is on distinct levels. -/
theorem Fresh.next (h : p.Fresh) {batch : List Segment} {policy : Adaptation}
    (hnext : p.policy.next p.manifest p.buffer p.holdings = .ok (batch, policy)) :
    (∀ s ∈ batch, p.holdings.isPlayed s.number = false ∧
      p.holdings.contains s.level s.number = false ∧ s.number < signed64 ∧
      s.number < p.manifest.currentTotal) ∧ (batch.map Segment.level).Nodup := by
  obtain ⟨gamma, hgamma, hpositive⟩ := h.gamma
  -- A distance from playback means that the policy is layered.
  obtain ⟨l, rfl, hl⟩ := Adaptation.next_of_gamma? hgamma hnext
  refine ⟨fun s hs => ?_, ?_⟩
  · obtain ⟨hplayed, hheld⟩ := Layered.new_of_next h.ahead h.below.toWithin hpositive hl s hs
    have hrequestable := (Layered.requestable_of_next hl s hs).2
    exact ⟨hplayed, hheld, Layered.lt_signed64_of_requestable hrequestable,
      Layered.lt_of_requestable hrequestable⟩
  · obtain ⟨choice?, hdecide, -⟩ := Checked.bind_eq_ok_iff.mp hl
    cases choice? with
    | none =>
        obtain rfl := Layered.next_of_decide_none hdecide hl
        exact List.nodup_nil
    | some choice =>
        obtain ⟨-, -, hsorted⟩ := Layered.order_of_next h.levels hdecide hl
        exact (List.pairwise_map.mpr (hsorted.imp Nat.ne_of_lt))

/-- Where no layer comes into the pool and nothing is taken in, nothing has to be checked but what
is held. -/
theorem Fresh.less (h : p.Fresh) (hchange : p.Change q)
    (hcontents : q.pool.contents <+~ p.pool.contents) (hahead : q.holdings.Ahead)
    (hbelow : q.holdings.Below signed64)
    (hfresh : ∀ s ∈ q.pool.contents, q.holdings.contains s.level s.number = false) : q.Fresh where
  oneBatch := hchange.oneBatch h.oneBatch
  gamma := by
    rw [hchange.gamma?]
    exact h.gamma
  levels := by
    have hmanifest : q.manifest = p.manifest := congrArg Terms.manifest hchange.terms
    rw [hmanifest]
    exact h.levels
  ahead := hahead
  below := hbelow
  words := fun s hs => h.words s (hcontents.subset hs)
  distinct := by
    obtain ⟨part, hperm, hsub⟩ := hcontents
    exact (hperm.map _).nodup_iff.mp ((hsub.map Segment.level).nodup h.distinct)
  fresh := hfresh

/-- A player whose pool holds nothing after it has taken something in. -/
theorem Fresh.emptied (h : p.Fresh) (hchange : p.Change q) (hempty : q.pool.contents = [])
    {ds : List Delivery} (hds : ∀ d ∈ ds, d.segment ∈ p.pool.contents)
    (htakes : TakesIn ds p.holdings q.holdings) : q.Fresh := by
  refine h.less hchange (hempty ▸ List.nil_subperm) (htakes.ahead h.ahead)
    (htakes.below signed64 h.below fun d hd => h.words d.segment (hds d hd)) ?_
  rw [hempty]
  exact fun s hs => nomatch hs

/-- The end of a batch leaves nothing in the pool. -/
theorem contents_of_finished (h : p.OneBatch) {r : Pool} (settled : r.Settled)
    (size : r.size = p.pool.size) (turn : Pool.Turn p.pool (some .batchComplete) r) :
    r.takeFinished.2.contents = [] :=
  ((Pool.OneBatch.complete h settled size turn).resting rfl).1

/-- What a player requests is fresh, and the pool was empty before. -/
theorem Fresh.request (h : p.Fresh) {now : Nat} {policy : Adaptation} {first : Segment}
    {rest : List Segment}
    (asked : p.policy.next p.manifest p.buffer p.holdings = .ok (first :: rest, policy))
    (free : p.pending = none)
    (hchange : p.Change (({ p with policy } : Player).request now first (first :: rest))) :
    (({ p with policy } : Player).request now first (first :: rest)).Fresh := by
  obtain ⟨hnew, hdistinct⟩ := h.next asked
  have hnone : p.pool.OneBatch none := free ▸ h.oneBatch
  -- The pool has just the batch then.
  have hcontents := (Pool.enqueue_spec h.oneBatch.settled now (first :: rest)).2
  rw [(hnone.resting rfl).1, List.append_nil] at hcontents
  have hmem : ∀ s ∈ (p.pool.enqueue now (first :: rest)).contents, s ∈ first :: rest :=
    fun s hs => hcontents.mem_iff.mp hs
  exact {
    oneBatch := hchange.oneBatch h.oneBatch
    gamma := by
      rw [hchange.gamma?]
      exact h.gamma
    levels := h.levels
    ahead := h.ahead
    below := h.below
    words := fun s hs => (hnew s (hmem s hs)).2.2.1
    distinct := (hcontents.map _).nodup_iff.mpr hdistinct
    fresh := fun s hs => (hnew s (hmem s hs)).2.1 }

/-- What a pool does by itself brings no layer into it. -/
theorem Fresh.turn (h : p.Fresh) (hchange : p.Change q) {e : Option PoolEvent}
    (turn : Pool.Turn p.pool e q.pool) (hholdings : q.holdings = p.holdings) : q.Fresh := by
  have hsub : q.pool.contents <+~ p.pool.contents :=
    (List.sublist_append_left _ _).subperm.trans turn.contents_perm.symm.subperm
  refine h.less hchange hsub (hholdings ▸ h.ahead) (hholdings ▸ h.below) fun s hs => ?_
  rw [hholdings]
  exact h.fresh s (hsub.subset hs)

/-- **A change** keeps all that is held ahead of playback and out of the pool. -/
theorem Change.fresh (hchange : p.Change q) (h : p.Fresh) : q.Fresh := by
  have hsettled := h.oneBatch.settled
  cases hchange with
  | noted report notices =>
      exact h.less (.noted report notices) (List.Subperm.refl _) h.ahead h.below h.fresh
  | started now => exact h.less (.started now) (List.Subperm.refl _) h.ahead h.below h.fresh
  | stopped =>
      have hempty := (Pool.stop_spec p.pool).2
      exact h.emptied .stopped hempty (List.forall_mem_nil _) (takesIn_nil _)
  | streamed now result =>
      cases result with
      | waits => exact h
      | nothing policy exhausted free more asked answered =>
          exact h.less (.streamed now (.nothing policy exhausted free more asked answered))
            (List.Subperm.refl _) h.ahead h.below h.fresh
      | requested policy first rest free more asked room =>
          exact h.request asked free
            (.streamed now (.requested policy first rest free more asked room))
  | sent closed =>
      refine h.less (.sent closed) ?_ h.ahead h.below ?_
      · rw [Pool.contents_afterSent]
      · rw [Pool.contents_afterSent]
        exact h.fresh
  | turned settled size turn => exact h.turn (.turned settled size turn) turn rfl
  | shed settled size turn => exact h.turn (.shed settled size turn) turn rfl
  | @finished r now settled size turn =>
      refine h.emptied (.finished now settled size turn) ?_ (Pool.mem_handover turn)
        (takesIn_takeIn { p with pool := r.takeFinished.2 } now r.takeFinished.1)
      show (takeIn _ now _).pool.contents = []
      rw [(takeIn_eq ..).1]
      exact contents_of_finished h.oneBatch settled size turn
  | @salvaged r s now saved =>
      have htakes := takesIn_takeSalvage { p with pool := r } now s
      have hpool := (takeSalvage_eq { p with pool := r } now s).1
      rcases Pool.salvage_left hsettled saved with ⟨hnothing, -⟩ | ⟨hempty, -⟩
      · -- The batch stays as it was, and so does everything else.
        have hsame : r = p.pool := by
          rw [Pool.salvage_of_isEmpty saved hnothing, Pool.collect_eq hsettled]
        have hplayer : ({ p with pool := r } : Player).takeSalvage now s = p := by
          rw [Player.takeSalvage, if_pos hnothing, hsame]
        rw [hplayer]
        exact h
      · refine h.emptied (.salvaged now saved) (hpool ▸ hempty) ?_ htakes
        exact Pool.mem_usable hsettled saved
  | played time there whole =>
      refine h.less (.played time there whole) (List.Subperm.refl _) (h.ahead.advance time)
        (h.below.advance time) fun s hs => decide_eq_false fun hheld => ?_
      -- What is held then was held before.
      have hold := ((Holdings.advance_spec p.holdings time).2.2 s.level s.number).mp hheld
      exact of_decide_eq_false (h.fresh s hs) hold.1

/-- So does any number of changes. -/
theorem Changes.fresh (hchanges : p.Changes q) (h : p.Fresh) : q.Fresh := by
  induction hchanges with
  | refl => exact h
  | tail _ hchange ih => exact hchange.fresh ih

/-- A new player of a layered policy with a distance from playback. -/
theorem fresh_ofSettings {settings : PlayerSettings} {m : Manifest} {faces : Nat}
    (hnew : Player.ofSettings settings m faces = .ok (.ok p))
    (hkind : settings.policy.kind = .layered) (hgamma : 0 < settings.policy.gamma) : p.Fresh := by
  have hone := oneBatch_ofSettings hnew
  obtain ⟨policy, pool, hpolicy, hpool, rfl⟩ := ofSettings_eq_ok hnew
  obtain ⟨-, hempty, -⟩ := Pool.ofSettings_spec hpool
  obtain ⟨⟨hlevels, -⟩, rfl⟩ := Policy.build_eq_ok_iff.mp hpolicy
  -- A new player has nothing in its pool and nothing in store.
  refine {
    oneBatch := hone
    gamma := ⟨settings.policy.gamma, ?_, hgamma⟩
    levels := hlevels
    ahead := Holdings.ahead_empty
    below := Holdings.below_empty signed64
    words := ?_
    distinct := ?_
    fresh := ?_ }
  · simp only [Policy.ofSettings, hkind]
    rfl
  · rw [hempty]
    intro s hs
    cases hs
  · rw [hempty]
    exact List.nodup_nil
  · rw [hempty]
    intro s hs
    cases hs

/-! ### What was taken in -/

/-- A layer that is held or was played, and that is not in the pool. -/
structure Had (p : Player) (target : Target) : Prop where
  done : p.holdings.isPlayed target.number = true ∨ (target.level, target.number) ∈ p.holdings.held
  gone : ∀ s ∈ p.pool.contents, s.target ≠ target

/-- What a player asks for was not had before. -/
theorem Had.next (hhad : p.Had target) (h : p.Fresh) {batch : List Segment} {policy : Adaptation}
    (hnext : p.policy.next p.manifest p.buffer p.holdings = .ok (batch, policy)) :
    ∀ s ∈ batch, s.target ≠ target := by
  rintro s hs rfl
  obtain ⟨hplayed, hheld, -⟩ := (h.next hnext).1 s hs
  rcases hhad.done with hdone | hdone
  · exact absurd (hplayed.symm.trans hdone) Bool.false_ne_true
  · exact of_decide_eq_false hheld hdone

/-- What was had stays so where no layer comes into the pool and none is taken in. -/
theorem Had.less (hhad : p.Had target) (hcontents : ∀ s ∈ q.pool.contents, s ∈ p.pool.contents)
    (hholdings : q.holdings = p.holdings) : q.Had target :=
  ⟨hholdings ▸ hhad.done, fun s hs => hhad.gone s (hcontents s hs)⟩

/-- What was had stays so when something is taken in. -/
theorem Had.takesIn (hhad : p.Had target) (hcontents : ∀ s ∈ q.pool.contents, s ∈ p.pool.contents)
    {ds : List Delivery} (htakes : TakesIn ds p.holdings q.holdings) : q.Had target := by
  refine ⟨?_, fun s hs => hhad.gone s (hcontents s hs)⟩
  rw [htakes.isPlayed]
  exact hhad.done.imp_right (htakes.kept _)

/-- **A change** keeps what was had. -/
theorem Change.had (hchange : p.Change q) (h : p.Fresh) (hhad : p.Had target) : q.Had target := by
  have hsettled := h.oneBatch.settled
  -- A layer that was had may leave the holdings only by being played.
  cases hchange with
  | noted | started => exact hhad.less (fun s hs => hs) rfl
  | stopped =>
      refine hhad.less (fun s hs => ?_) rfl
      rw [(Pool.stop_spec p.pool).2] at hs
      cases hs
  | streamed now result =>
      cases result with
      | waits | nothing => exact hhad.less (fun s hs => hs) rfl
      | requested policy first rest free more asked room =>
          refine ⟨hhad.done, fun s hs => ?_⟩
          have hcontents := (Pool.enqueue_spec hsettled now (first :: rest)).2
          rcases List.mem_append.mp (hcontents.mem_iff.mp hs) with hnew | hold
          · exact hhad.next h asked s hnew
          · exact hhad.gone s hold
  | sent closed =>
      refine hhad.less (fun s hs => ?_) rfl
      rwa [Pool.contents_afterSent] at hs
  | turned settled size turn | shed settled size turn =>
      exact hhad.less (fun s hs => turn.contents_perm.mem_iff.mpr (List.mem_append_left _ hs)) rfl
  | @finished r now settled size turn =>
      refine hhad.takesIn (fun s hs => ?_)
        (takesIn_takeIn { p with pool := r.takeFinished.2 } now r.takeFinished.1)
      have hs : s ∈ (takeIn _ now _).pool.contents := hs
      -- The batch has ended, so that the pool is empty.
      rw [(takeIn_eq ..).1, contents_of_finished h.oneBatch settled size turn] at hs
      cases hs
  | @salvaged r s now saved =>
      refine hhad.takesIn (fun x hx => ?_) (takesIn_takeSalvage { p with pool := r } now s)
      rw [(takeSalvage_eq ..).1] at hx
      have hperm := (Pool.salvage_spec hsettled saved).2
      rw [List.append_assoc] at hperm
      exact hperm.mem_iff.mpr (List.mem_append_left _ hx)
  | played time there whole =>
      refine ⟨?_, hhad.gone⟩
      rcases hhad.done with hplayed | hheld
      · exact .inl (h.ahead.isPlayed_advance time hplayed)
      · exact (h.ahead.held_advance time hheld).symm

/-- **What was had** stays so, whatever happens. -/
theorem Changes.had (hchanges : p.Changes q) (h : p.Fresh) (hhad : p.Had target) :
    q.Had target := by
  induction hchanges with
  | refl => exact hhad
  | tail hbefore hchange ih => exact hchange.had (Changes.fresh hbefore h) ih

/-- What a player takes in of its batch is had where the pool holds nothing then. -/
theorem had_of_takesIn {ds : List Delivery}
    (hnoted : ∀ d ∈ ds, p.pending = some d.segment.number) (hempty : q.pool.contents = [])
    (htakes : TakesIn ds p.holdings q.holdings) : ∀ d ∈ ds, q.Had d.segment.target := by
  intro d hd
  refine ⟨htakes.had _ (fun e he => ?_) d hd, ?_⟩
  · exact Option.some.inj ((hnoted e he).symm.trans (hnoted d hd))
  · rw [hempty]
    exact fun s hs => nomatch hs

/-- What the pool hands over is had once it was carried out what the pool has told. -/
theorem had_of_hear (h : p.Fresh) {r : Pool} {e : Option PoolEvent} (settled : r.Settled)
    (size : r.size = p.pool.size) (turn : Pool.Turn p.pool e r) {t : Ticked}
    (ht : ({ p with pool := r } : Player).hear now e = .ok t) :
    ∀ d ∈ r.handover e, t.player.Had d.segment.target := by
  intro d hd
  rcases e with - | (- | ⟨failed, shed⟩)
  · cases hd
  · obtain ⟨q, hstream, ht⟩ := Checked.bind_eq_ok_iff.mp ht
    obtain rfl := Except.ok.inj ht
    have hchange := Change.finished now settled size turn
    have hempty := contents_of_finished h.oneBatch settled size turn
    have htaken := takesIn_takeIn { p with pool := r.takeFinished.2 } now r.takeFinished.1
    have hpool := (takeIn_eq { p with pool := r.takeFinished.2 } now r.takeFinished.1).1
    have hnoted : ∀ d ∈ r.takeFinished.1, p.pending = some d.segment.number := fun d hd =>
      h.oneBatch.numbered d.segment (Pool.mem_handover turn d hd)
    have hhad := had_of_takesIn hnoted (hpool ▸ hempty) htaken d hd
    exact (changes_stream hstream).had (hchange.fresh h) (hhad.less (fun s hs => hs) rfl)
  · cases hd

/-- What is usable of a batch is had once the tick is over that salvages it. -/
theorem had_of_consume (h : p.Fresh) {t : Ticked} (ht : p.consume now = .ok t) :
    ∀ d ∈ p.salvaged, t.player.Had d.segment.target := by
  intro d hd
  unfold salvaged at hd
  split at hd
  · rename_i hruns
    simp only [runsLow, Bool.and_eq_true, Bool.not_eq_true', Option.isNone_iff_eq_none] at hruns
    obtain ⟨⟨hplaying, hmore⟩, hshort⟩ := hruns
    cases consume_cases ht with
    | stopped idle =>
        rw [hplaying] at idle
        cases idle
    | ended all | drained all =>
        rw [hmore] at all
        cases all
    | covered playing there =>
        rw [hshort] at there
        cases there
    | @underrun s r t playing more short saved ticked =>
        simp only [saved] at hd
        have hchange := Change.salvaged now saved
        have hpool := (takeSalvage_eq { p with pool := r } now s).1
        -- There is something usable, and so nothing is left of the batch.
        have hempty : r.contents = [] := by
          rcases Pool.salvage_left h.oneBatch.settled saved with ⟨hnothing, -⟩ | ⟨hempty, -⟩
          · rw [Salvage.isEmpty, Bool.and_eq_true, List.isEmpty_iff] at hnothing
            rw [hnothing.1] at hd
            cases hd
          · exact hempty
        have hnoted : ∀ d ∈ s.usable, p.pending = some d.segment.number := fun d hd =>
          h.oneBatch.numbered d.segment (Pool.mem_usable h.oneBatch.settled saved d hd)
        have htaken := takesIn_takeSalvage { p with pool := r } now s
        exact (changes_consumeOrStall ticked).had (hchange.fresh h)
          (had_of_takesIn hnoted (hpool ▸ hempty) htaken d hd)
  · cases hd

/-- **What is taken in on a cue** is had then. -/
theorem had_of_heed (h : p.Fresh) {cue : Cue} {t : Ticked} (ht : p.heed cue = .ok t) :
    ∀ d ∈ p.intake cue, t.player.Had d.segment.target := by
  have hsettled := h.oneBatch.settled
  -- Deliveries come with what the pool tells, or by a salvage.
  cases cue with
  | network now id w =>
      obtain ⟨⟨e, r⟩, hpoll, ht⟩ := Checked.bind_eq_ok_iff.mp ht
      obtain ⟨hr, hturn⟩ := Pool.poll_turn hsettled hpoll
      rw [intake_network hpoll]
      exact had_of_hear h hr (Pool.size_poll hpoll) hturn ht
  | tick now =>
      rw [Player.heed] at ht
      rcases hsettled.events with hsilent | hnews
      · rw [Pool.announce_nil hsilent] at ht
        rw [intake_tick_none (Pool.announce_nil hsilent)]
        exact had_of_consume h ht
      · rw [Pool.announce_cons hnews] at ht
        rw [intake_tick_some (Pool.announce_cons hnews)]
        exact had_of_hear (r := { p.pool with events := [] }) h ⟨hsettled.fetchers, .inl rfl⟩ rfl
          (.announced hnews) ht
  | sent closed =>
      intro d hd
      cases hd

/-! ### The result -/

/-- What a player asks for lies ahead of playback and can be put on record. -/
theorem Fresh.next_ahead (h : p.Fresh) {batch : List Segment} {policy : Adaptation}
    (hnext : p.policy.next p.manifest p.buffer p.holdings = .ok (batch, policy)) :
    ∀ s ∈ batch, (∀ n, p.holdings.lastConsumed = some n → n < s.number) ∧
      (p.holdings.record? s.level s.number).isSome = true := by
  intro s hs
  obtain ⟨hplayed, hheld, -⟩ := (h.next hnext).1 s hs
  exact ⟨Holdings.isPlayed_eq_false_iff.mp hplayed,
    Holdings.isSome_record?_iff.mpr ⟨hplayed, hheld⟩⟩

/-- Once the last segment was played, a player asks for nothing. -/
theorem Fresh.next_at_end (h : p.Fresh) {batch : List Segment} {policy : Adaptation}
    (hnext : p.policy.next p.manifest p.buffer p.holdings = .ok (batch, policy)) {n : Nat}
    (hlast : p.holdings.lastConsumed = some n) (hend : p.manifest.currentTotal ≤ n + 1) :
    batch = [] := by
  refine List.eq_nil_iff_forall_not_mem.mpr fun s hs => ?_
  obtain ⟨-, -, -, hthere⟩ := (h.next hnext).1 s hs
  have hahead := (h.next_ahead hnext s hs).1 n hlast
  omega

/-- What is taken in before its segment is played can be put on record. -/
theorem Fresh.isSome_record? (h : p.Fresh) {cue : Cue} {d : Delivery} (hd : d ∈ p.intake cue)
    (hplayed : p.holdings.isPlayed d.segment.number = false) :
    (p.holdings.record? d.segment.level d.segment.number).isSome = true :=
  Holdings.isSome_record?_iff.mpr
    ⟨hplayed, h.fresh d.segment (mem_intake h.oneBatch.settled cue d hd)⟩

/-- **A layered player asks ahead of playback**, anywhere in its life, if empty levels are started
at a positive distance from playback. Whatever it asks for was not played and can be put on record,
and it asks for nothing once the last segment was played. What is taken in before its segment is
played can still be put on record. And what was taken in is held until it is played: it is never
asked for again and never comes into the pool again. -/
theorem asks_ahead {settings : PlayerSettings} {m : Manifest} {faces : Nat} {deeds : List Deed}
    {past : Past} (hnew : Player.ofSettings settings m faces = .ok (.ok p))
    (hkind : settings.policy.kind = .layered) (hgamma : 0 < settings.policy.gamma)
    (hkeeps : ∀ policy, Deed.adopt policy ∉ deeds) (hlive : p.live {} deeds = .ok (past, q)) :
    (∀ r, q.Changes r → ∀ batch policy,
      r.policy.next r.manifest r.buffer r.holdings = .ok (batch, policy) →
        (∀ s ∈ batch, (∀ n, r.holdings.lastConsumed = some n → n < s.number) ∧
          (r.holdings.record? s.level s.number).isSome = true) ∧
        ∀ n, r.holdings.lastConsumed = some n → m.currentTotal ≤ n + 1 → batch = []) ∧
    ∀ cue, ∀ d ∈ q.intake cue,
      (q.holdings.isPlayed d.segment.number = false →
        (q.holdings.record? d.segment.level d.segment.number).isSome = true) ∧
      ∀ t, q.heed cue = .ok t → ∀ r, t.player.Changes r →
        (r.holdings.isPlayed d.segment.number = true ∨
          (d.segment.level, d.segment.number) ∈ r.holdings.held) ∧
        (∀ s ∈ r.pool.contents, s.target ≠ d.segment.target) ∧
        ∀ batch policy, r.policy.next r.manifest r.buffer r.holdings = .ok (batch, policy) →
          ∀ s ∈ batch, s.target ≠ d.segment.target := by
  have hstart := fresh_ofSettings hnew hkind hgamma
  have hlived := changes_live deeds hstart.oneBatch.settled hkeeps hlive
  have hq := hlived.fresh hstart
  refine ⟨fun r hr batch policy hnext => ?asks, fun cue d hd => ⟨hq.isSome_record? hd, ?once⟩⟩
  case asks =>
    have hfresh := hr.fresh hq
    refine ⟨hfresh.next_ahead hnext, fun n hlast hend => hfresh.next_at_end hnext hlast ?_⟩
    -- The content is that of the start.
    obtain ⟨built, -, hterms⟩ := terms_ofSettings hnew
    have hmanifest : r.manifest = m :=
      congrArg Terms.manifest ((hlived.trans hr).terms.trans hterms)
    rwa [hmanifest]
  case once =>
    intro t ht r hr
    have hheed := changes_heed hq.oneBatch.settled ht
    have hfresh := hheed.fresh hq
    have hhad := hr.had hfresh (had_of_heed hq ht d hd)
    exact ⟨hhad.done, hhad.gone, fun batch policy hnext => hhad.next (hr.fresh hfresh) hnext⟩

/-- Two layers of one segment. -/
def twoLayers : Manifest :=
  { baseUrl := "http://a"
    periods := [⟨[
      { id := "base", bandwidth := 1, segmentMillis := 1000, media := #["0"] },
      { id := "top", bandwidth := 2, segmentMillis := 1000, media := #["1"] }]⟩] }

/-- One fetcher, and a layered policy that starts empty levels so far ahead of playback. -/
def gammaSettings (gamma : Nat) : PlayerSettings :=
  { poolSize := 1, policy := { kind := .layered, gamma } }

/-- The base layer arrives, and the layer above it is requested. -/
def twoLayerDeeds : List Deed :=
  openingDeeds ++ [.cue (replyCue 10 "http://a/0"), .cue (.sent fun _ => false)]

/-- The upper layer of the sample arrives while the base layer is still to be played. -/
theorem asks_ahead_sample :
    ∃ p past q d t, Player.ofSettings (gammaSettings 1) twoLayers 1 = .ok (.ok p) ∧
      (gammaSettings 1).policy.kind = .layered ∧ 0 < (gammaSettings 1).policy.gamma ∧
      (∀ policy, Deed.adopt policy ∉ twoLayerDeeds) ∧ p.live {} twoLayerDeeds = .ok (past, q) ∧
      q.intake (replyCue 20 "http://a/1") = [d] ∧ d.segment.target = ⟨1, 0⟩ ∧
      (q.holdings.record? 1 0).isSome = true ∧ q.heed (replyCue 20 "http://a/1") = .ok t ∧
      ∀ r, t.player.Changes r → ∀ s ∈ r.pool.contents, s.target ≠ ⟨1, 0⟩ := by
  have hvalue : ((Player.ofSettings (gammaSettings 1) twoLayers 1).toOption.bind fun r =>
      r.toOption.bind fun p => (p.live {} twoLayerDeeds).toOption.bind fun r =>
        (r.2.heed (replyCue 20 "http://a/1")).toOption.map fun _ =>
          (r.2.holdings.isPlayed 0,
            (r.2.intake (replyCue 20 "http://a/1")).map (·.segment.target))) =
      some (false, [⟨1, 0⟩]) := by
    decide +kernel
  obtain ⟨made, hnew, hvalue⟩ := Checked.exists_of_bind_toOption hvalue
  obtain ⟨p, rfl, hmade⟩ := Checked.exists_of_bind_toOption hvalue
  obtain ⟨⟨past, q⟩, hlive, hvalue⟩ := Checked.exists_of_bind_toOption hmade
  obtain ⟨t, ht, hvalues⟩ := Checked.exists_of_map_toOption hvalue
  obtain ⟨hplayed, hintake⟩ := Prod.mk.inj hvalues
  obtain ⟨d, hintake, htarget⟩ := List.map_eq_singleton_iff.mp hintake
  have hkeeps : ∀ policy, Deed.adopt policy ∉ twoLayerDeeds := by
    simp [twoLayerDeeds, openingDeeds]
  have hd : d ∈ q.intake (replyCue 20 "http://a/1") := hintake ▸ List.mem_cons_self
  obtain ⟨hlevel, hnumber⟩ := Target.mk.inj htarget
  obtain ⟨-, hall⟩ := asks_ahead hnew rfl Nat.one_pos hkeeps hlive
  obtain ⟨hrecord, honce⟩ := hall _ d hd
  rw [hlevel, hnumber] at hrecord
  refine ⟨p, past, q, d, t, hnew, rfl, Nat.one_pos, hkeeps, hlive, hintake, htarget,
    hrecord hplayed, ht, fun r hr s hs => ?_⟩
  rw [← htarget]
  exact (honce t ht r hr).2.1 s hs

/-- The base layer is played to the end of the content, and playback is started again. -/
def replayedDeeds : List Deed :=
  openingDeeds ++ [.cue (replyCue 10 "http://a/0"), .cue (.tick 2000000000),
    .cue (.tick 3000000000), .stop 3000000000, .play 4000000000, .cue (.sent fun _ => false)]

/-- Where empty levels are started at no distance from playback, the upper layer of a segment that
was played is requested. It cannot be put on record when it arrives, and is requested again. -/
theorem asks_behind_without_gamma :
    ∃ p past q t, Player.ofSettings (gammaSettings 0) twoLayers 1 = .ok (.ok p) ∧
      p.live {} replayedDeeds = .ok (past, q) ∧ q.holdings.lastConsumed = some 0 ∧
      q.pool.contents.map Segment.target = [⟨1, 0⟩] ∧ q.holdings.record? 1 0 = none ∧
      (q.intake (replyCue 4000000010 "http://a/1")).map (·.segment.target) = [⟨1, 0⟩] ∧
      q.heed (replyCue 4000000010 "http://a/1") = .ok t ∧
      t.player.pool.contents.map Segment.target = [⟨1, 0⟩] := by
  have hvalue : ((Player.ofSettings (gammaSettings 0) twoLayers 1).toOption.bind fun r =>
      r.toOption.bind fun p => (p.live {} replayedDeeds).toOption.bind fun r =>
        (r.2.heed (replyCue 4000000010 "http://a/1")).toOption.map fun t =>
          (r.2.holdings.lastConsumed, r.2.pool.contents.map Segment.target,
            r.2.holdings.record? 1 0,
            (r.2.intake (replyCue 4000000010 "http://a/1")).map (·.segment.target),
            t.player.pool.contents.map Segment.target)) =
      some (some 0, [⟨1, 0⟩], none, [⟨1, 0⟩], [⟨1, 0⟩]) := by
    decide +kernel
  obtain ⟨made, hnew, hvalue⟩ := Checked.exists_of_bind_toOption hvalue
  obtain ⟨p, rfl, hmade⟩ := Checked.exists_of_bind_toOption hvalue
  obtain ⟨⟨past, q⟩, hlive, hvalue⟩ := Checked.exists_of_bind_toOption hmade
  obtain ⟨t, ht, hvalues⟩ := Checked.exists_of_map_toOption hvalue
  simp only [Prod.mk.injEq] at hvalues
  obtain ⟨hlast, hasked, hlate, hintake, hagain⟩ := hvalues
  exact ⟨p, past, q, t, hnew, hlive, hlast, hasked, hlate, hintake, ht, hagain⟩

end Player

end LayerCast
