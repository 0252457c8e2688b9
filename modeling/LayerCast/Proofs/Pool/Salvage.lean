import Mathlib.Data.List.Range
import LayerCast.Proofs.Pool.OneBatch

/-!
# `LayerCast.Proofs.Pool.Salvage`: what a salvage saves

A salvage looks for the lowest level of the batch among the finished layers. The pool keeps that
level in `Pool.base`, which every queuing lowers and the end of a batch clears. What the batch is
says a record beside the pool (`track`): the layers that were queued since the pool was last idle.
A call that queues layers while the pool is at work adds to the batch. `Tracked` is the invariant
that `base` is the lowest level of the recorded batch, and none of an idle pool.

The finished layers are split at the first gap of their levels (`splitAtGap_run`). Levels are 32-bit
words, and the sum that is tested with each step cannot leave its word: the level of a layer that
is still out is a gap.

`salvage_all_or_nothing` has what follows for every salvage while a batch is at work. It needs that
all that the pool holds is of this batch. Finished layers that were left over from an earlier batch
go with the layers of the next one, and their levels do not count for its base
(`salvage_of_two_batches`).
-/

set_option autoImplicit false

namespace LayerCast.Pool

open scoped List

/-! ### The batch that is at work -/

/-- The layers that were queued since the pool was last idle, after a call. -/
def batchAfter (p : Pool) (batch : List Segment) : Call → List Segment
  | .enqueue _ layers => if p.isIdle then layers else batch ++ layers
  | _ => batch

/-- Carries out a call and keeps the record of the batch. -/
def track (p : Pool) (batch : List Segment) (call : Call) : Checked (List Segment × Pool) := do
  let (_, q) ← p.perform {} call
  return (p.batchAfter batch call, q)

/-- Carries out calls one after another. -/
def trackAll (p : Pool) (batch : List Segment) : List Call → Checked (List Segment × Pool)
  | [] => .ok (batch, p)
  | call :: rest => do
    let (batch, p) ← p.track batch call
    p.trackAll batch rest

/-- The lowest level of several layers, if there is one. -/
def lowest? (layers : List Segment) : Option Nat := (layers.map Segment.level).min?

/-- A pool and the batch that it is at work on. -/
structure Tracked (batch : List Segment) (p : Pool) : Prop where
  settled : p.Settled
  base : p.base = if p.isIdle then none else lowest? batch

variable {p q : Pool} {batch : List Segment}

/-! ### The base of a pool -/

/-- The lowest level is one of the layers, and below no other. -/
theorem lowest?_eq_some_iff {layers : List Segment} {level : Nat} :
    lowest? layers = some level ↔
      (∃ s ∈ layers, s.level = level) ∧ ∀ s ∈ layers, level ≤ s.level := by
  rw [lowest?, List.min?_eq_some_iff, List.mem_map, List.forall_mem_map]

/-- Only where there are no layers there is no lowest level. -/
theorem lowest?_eq_none_iff {layers : List Segment} : lowest? layers = none ↔ layers = [] := by
  rw [lowest?, List.min?_eq_none_iff, List.map_eq_nil_iff]

/-- The first layer in the order of the levels has the lowest one. -/
theorem head?_byLevel (layers : List Segment) :
    (byLevel layers).head?.map Segment.level = lowest? layers := by
  have hperm := byLevel_perm layers
  have hsorted : (byLevel layers).Pairwise fun s t => s.level ≤ t.level := pairwise_sortOn _ _
  cases hlayers : byLevel layers with
  | nil =>
      rw [hlayers] at hperm
      rw [hperm.nil_eq.symm]
      rfl
  | cons s rest =>
      rw [hlayers] at hperm hsorted
      refine (lowest?_eq_some_iff.mpr ⟨⟨s, hperm.mem_iff.mp List.mem_cons_self, rfl⟩, ?_⟩).symm
      intro t ht
      rcases List.mem_cons.mp (hperm.mem_iff.mpr ht) with rfl | hrest
      · exact Nat.le_refl _
      · exact (List.pairwise_cons.mp hsorted).1 t hrest

/-- The lowest level of two batches together. -/
theorem lowest?_append (batch layers : List Segment) :
    lowest? (batch ++ layers) = (lowest? batch).merge min (lowest? layers) := by
  cases hlayers : lowest? layers with
  | none => rw [lowest?_eq_none_iff.mp hlayers, List.append_nil, Option.merge_none_right]
  | some level =>
      cases hbatch : lowest? batch with
      | none =>
          rw [lowest?_eq_none_iff.mp hbatch, List.nil_append, hlayers, Option.merge_none_left]
      | some b =>
          -- Both parts have a lowest level, and the lower one is that of all.
          rw [Option.merge_some_some]
          obtain ⟨⟨s, hs, rfl⟩, hles⟩ := lowest?_eq_some_iff.mp hlayers
          obtain ⟨⟨t, ht, rfl⟩, hlet⟩ := lowest?_eq_some_iff.mp hbatch
          refine lowest?_eq_some_iff.mpr ⟨?_, fun u hu => ?_⟩
          · rcases Nat.le_total t.level s.level with hle | hle
            · exact ⟨t, List.mem_append_left _ ht, (Nat.min_eq_left hle).symm⟩
            · exact ⟨s, List.mem_append_right _ hs, (Nat.min_eq_right hle).symm⟩
          · rcases List.mem_append.mp hu with hu | hu
            · exact Nat.le_trans (Nat.min_le_left _ _) (hlet u hu)
            · exact Nat.le_trans (Nat.min_le_right _ _) (hles u hu)

/-- Queuing lowers the base to the lowest level of what is queued. -/
theorem base_enqueue (p : Pool) (now : Nat) (layers : List Segment) :
    (p.enqueue now layers).base = p.base.merge min (lowest? layers) := by
  obtain ⟨r, hr, hbase⟩ : ∃ r : Pool,
      p.enqueue now layers = (if r.isQuiet then r.dispatch now else r) ∧
        r.base = p.base.merge min (lowest? layers) := by
    refine ⟨_, rfl, ?_⟩
    rw [← head?_byLevel]
    cases byLevel layers <;> cases p.base <;> rfl
  rw [hr, ← hbase]
  split <;> rfl

/-! ### The base and the end of a batch -/

/-- From one pool to the next the base is cleared if the end of the batch is to be told, and else
kept. -/
def ClearsAtEnd (p q : Pool) : Prop :=
  q.base = if .batchComplete ∈ q.events then none else p.base

/-- What keeps the base and tells nothing of an end. -/
theorem clearsAtEnd_of_quiet (hbase : q.base = p.base) (hquiet : .batchComplete ∉ q.events) :
    ClearsAtEnd p q :=
  hbase.trans (if_neg hquiet).symm

/-- Whether the batch is complete is checked after every turn, and the base goes with it. -/
theorem clearsAtEnd_checkComplete (hbase : q.base = p.base)
    (hquiet : .batchComplete ∉ q.events) : ClearsAtEnd p q.checkComplete := by
  unfold checkComplete
  split
  · exact (if_pos (List.mem_append_right q.events List.mem_cons_self)).symm
  · exact clearsAtEnd_of_quiet hbase hquiet

/-- What a fetcher tells clears the base if it ends the batch. -/
theorem clearsAtEnd_onEvent (hquiet : .batchComplete ∉ p.events) (now id : Nat) (e : FetchEvent) :
    ClearsAtEnd p (p.onEvent now id e) := by
  unfold onEvent
  split
  · exact clearsAtEnd_of_quiet rfl hquiet
  · cases e with
    | finished => exact clearsAtEnd_checkComplete rfl hquiet
    | soonFinished => exact clearsAtEnd_of_quiet rfl hquiet
    | rejected =>
        show ClearsAtEnd p (p.onRejected id _)
        unfold onRejected
        simp only
        split
        · exact clearsAtEnd_of_quiet rfl hquiet
        · -- The rejection is told before the end of the batch can be.
          refine clearsAtEnd_checkComplete rfl fun htold => ?_
          rcases List.mem_append.mp htold with hold | hnew
          · exact hquiet hold
          · cases List.mem_singleton.mp hnew

/-- What a fetcher has handled clears the base if it ends the batch. -/
theorem clearsAtEnd_listen (hquiet : .batchComplete ∉ p.events) (now id : Nat) (f : Fetcher) :
    ClearsAtEnd p (p.listen now id f) := by
  unfold listen
  split
  · exact clearsAtEnd_onEvent (p := p.place id _) hquiet now id _
  · exact clearsAtEnd_of_quiet rfl hquiet

/-- What a pool has to tell was told or is still to be told. -/
theorem announce_spec (p : Pool) :
    p.events = p.announce.1.toList ++ p.announce.2.events ∧ p.announce.2.base = p.base := by
  unfold announce takeEvent?
  cases hevents : p.events with
  | nil => exact ⟨hevents.symm ▸ rfl, rfl⟩
  | cons e rest => exact ⟨rfl, rfl⟩

/-- A turn that tells nothing leaves an idle pool only where one was. -/
theorem Turn.isIdle_of_quiet {e : Option PoolEvent} (h : Turn p e q) (hp : p.Settled)
    (hq : q.Settled) (hidle : q.isIdle = true)
    (hquiet : .batchComplete ∉ e.toList ++ q.events) : p.isIdle = true := by
  rw [isIdle_iff hp.fetchers]
  obtain ⟨hqueue, hcarried⟩ := (isIdle_iff hq.fetchers).mp hidle
  cases h with
  | announced => exact ⟨hqueue, hcarried⟩
  | moved started silent told queue carried finished =>
      rw [hcarried] at carried
      obtain ⟨rfl, hnone⟩ := List.append_eq_nil_iff.mp carried.symm.eq_nil
      exact ⟨queue.trans hqueue, hnone⟩
  | arrived =>
      rw [if_pos hidle] at hquiet
      exact absurd List.mem_cons_self hquiet
  | shed failed rest shed silent told =>
      rw [told, if_pos hidle] at hquiet
      exact absurd (List.mem_append_right _ List.mem_cons_self) hquiet

/-- The end of a batch is told, or is to be told, by a pool that was left idle. -/
theorem Turn.isIdle_of_complete {e : Option PoolEvent} (h : Turn p e q)
    (hsilent : p.events = []) (hend : .batchComplete ∈ e.toList ++ q.events) :
    q.isIdle = true := by
  by_contra hbusy
  cases h with
  | announced pending =>
      rw [hsilent] at pending
      cases pending
  | moved started silent told =>
      rw [told] at hend
      cases hend
  | arrived d rest started silent told =>
      rw [told, if_neg hbusy] at hend
      cases hend
  | shed failed rest shed silent told =>
      rw [told, if_neg hbusy] at hend
      cases List.mem_singleton.mp hend

/-- **A turn clears the base when it leaves the pool idle**, and else leaves it as it was. -/
theorem base_poll (hp : p.Settled) (hidle : p.isIdle = true → p.base = none) {now id : Nat}
    {w : Wake} {e : Option PoolEvent} (hpoll : p.poll now id w = .ok (e, q)) :
    q.base = if q.isIdle then none else p.base := by
  obtain ⟨hq, hturn⟩ := poll_turn hp hpoll
  -- A pool that stays as it is, but for its events, has the base that it had.
  have hsame : q.base = p.base → (q.isIdle = true → p.isIdle = true) →
      q.base = if q.isIdle then none else p.base := by
    intro hbase hkept
    split
    · rename_i hleft
      exact hbase.trans (hidle (hkept hleft))
    · exact hbase
  cases poll_cases hpoll with
  | told | resting => exact hsame rfl fun hleft => hleft
  | handled f g silent =>
      obtain ⟨hevents, hbase⟩ := (p.listen now id g).announce_spec
      have hlisten := clearsAtEnd_listen (silent ▸ List.not_mem_nil) now id g
      rw [ClearsAtEnd, hevents, ← hbase] at hlisten
      -- What was to be told was told or is still to be told.
      split at hlisten
      · rename_i hend
        rw [if_pos (hturn.isIdle_of_complete silent hend), hlisten]
      · rename_i hgoing
        exact hsame hlisten fun hleft => hturn.isIdle_of_quiet hp hq hleft hgoing

/-! ### The record of the batch -/

/-- A new pool is at work on nothing. -/
theorem tracked_ofSettings {count : Nat} {settings : FetchSettings}
    (h : Pool.ofSettings count settings = .ok (.ok p)) : Tracked [] p := by
  refine ⟨(ofSettings_spec h).1, ?_⟩
  have hbase : p.base = none := by
    obtain ⟨fetchers, rfl, -⟩ := ofSettings_eq h
    rfl
  rw [hbase]
  split <;> rfl

/-- A pool that is left idle without a base is at work on nothing. -/
theorem tracked_of_idle (h : p.Settled) (hidle : p.isIdle = true) (hbase : p.base = none) :
    Tracked batch p :=
  ⟨h, by rw [hbase, if_pos hidle]⟩

/-- A pool with the same layers queued and carried is at work on the same batch. -/
theorem Tracked.same (h : Tracked batch p) (hq : q.Settled) (hqueue : q.queue = p.queue)
    (hcarried : q.carried = p.carried) (hbase : q.base = p.base) : Tracked batch q := by
  refine ⟨hq, ?_⟩
  have hidle : q.isIdle = p.isIdle := by
    rw [Bool.eq_iff_iff, isIdle_iff hq.fetchers, isIdle_iff h.settled.fetchers, hqueue, hcarried]
  rw [hbase, hidle]
  exact h.base

/-- What is queued and carried after a queuing, and what has arrived. -/
theorem enqueue_places (h : p.Settled) (now : Nat) (layers : List Segment) :
    ((p.enqueue now layers).queue ++ (p.enqueue now layers).carried).Perm
        (layers ++ (p.queue ++ p.carried)) ∧
      (p.enqueue now layers).finished = p.finished := by
  have hfinished : (p.enqueue now layers).finished = p.finished := by
    obtain ⟨r, hr, -, -, hfinished, -⟩ := enqueue_eq p now layers
    rw [hr]
    split
    · exact hfinished
    · exact hfinished
  refine ⟨?_, hfinished⟩
  have hperm := (enqueue_spec h now layers).2
  rw [contents, contents, arrived_of_eq hfinished, ← List.append_assoc] at hperm
  exact (List.perm_append_right_iff _).mp hperm

/-- A queuing adds to the batch that is at work, or starts one. -/
theorem Tracked.enqueue (h : Tracked batch p) (now : Nat) (layers : List Segment) :
    Tracked (if p.isIdle then layers else batch ++ layers) (p.enqueue now layers) := by
  obtain ⟨hq, -⟩ := enqueue_spec h.settled now layers
  obtain ⟨hplaces, -⟩ := enqueue_places h.settled now layers
  -- Queueing leaves a pool idle only if nothing is queued.
  have hidle : (p.enqueue now layers).isIdle = true ↔ layers = [] ∧ p.isIdle = true := by
    rw [isIdle_iff hq.fetchers, isIdle_iff h.settled.fetchers, ← List.append_eq_nil_iff,
      ← List.append_eq_nil_iff, ← List.append_eq_nil_iff]
    exact ⟨fun hnil => (hnil ▸ hplaces).nil_eq.symm, fun hnil => (hnil ▸ hplaces).eq_nil⟩
  refine ⟨hq, ?_⟩
  rw [base_enqueue, h.base]
  by_cases hrest : p.isIdle = true
  · rw [if_pos hrest, if_pos hrest]
    rw [Option.merge_none_left]
    split
    · rename_i hleft
      exact lowest?_eq_none_iff.mpr (hidle.mp hleft).1
    · rfl
  · have hbusy : ¬(p.enqueue now layers).isIdle = true := fun hleft => hrest (hidle.mp hleft).2
    rw [if_neg hrest, if_neg hrest, if_neg hbusy, lowest?_append]

/-- A turn changes nothing in the batch that is at work. -/
theorem Tracked.poll (h : Tracked batch p) {now id : Nat} {w : Wake} {e : Option PoolEvent}
    (hpoll : p.poll now id w = .ok (e, q)) : Tracked batch q := by
  obtain ⟨hq, hturn⟩ := poll_turn h.settled hpoll
  have hcleared : p.isIdle = true → p.base = none := by
    intro hidle
    rw [h.base, if_pos hidle]
  refine ⟨hq, ?_⟩
  rw [base_poll h.settled hcleared hpoll]
  split
  · rfl
  · -- A pool that is at work was at work before.
    rename_i hbusy
    rw [h.base, if_neg]
    intro hidle
    refine hbusy ((isIdle_iff hq.fetchers).mpr ?_)
    exact IsDone.turn ((isIdle_iff h.settled.fetchers).mp hidle) hturn

/-- Fetchers that have nothing to deliver stay as they are when they are collected from. -/
theorem collect_eq (h : p.Settled) : p.collect = p := by
  have hfinished := (collect_spec h).2.2
  have hfetchers : p.fetchers.map (·.takeCompleted.2) = p.fetchers := by
    refine (List.map_congr_left fun f hf => ?_).trans (List.map_id p.fetchers)
    show { f with completed := none } = f
    rw [← (h.fetchers f hf).completed]
  show ({ p with finished := p.collect.finished, fetchers := _ } : Pool) = p
  rw [hfinished, hfetchers]

/-- **One call** keeps the record of the batch in agreement with the pool. -/
theorem Tracked.step (h : Tracked batch p) {call : Call} {batch' : List Segment}
    (hcall : p.track batch call = .ok (batch', q)) : Tracked batch' q := by
  obtain ⟨⟨a, r⟩, hperform, hcall⟩ := Checked.bind_eq_ok_iff.mp hcall
  obtain ⟨rfl, rfl⟩ := Prod.mk.inj (Except.ok.inj hcall)
  cases call with
  | enqueue now layers =>
      cases hperform
      exact h.enqueue now layers
  | poll now id w =>
      obtain ⟨⟨e, r'⟩, hpoll, hperform⟩ := Checked.bind_eq_ok_iff.mp hperform
      obtain ⟨-, rfl⟩ := Prod.mk.inj (Except.ok.inj hperform)
      exact h.poll hpoll
  | takeFinished =>
      cases hperform
      exact h.same (takeFinished_spec h.settled).1 rfl rfl rfl
  | salvage =>
      obtain ⟨⟨s, r'⟩, hsalvage, hperform⟩ := Checked.bind_eq_ok_iff.mp hperform
      obtain ⟨-, rfl⟩ := Prod.mk.inj (Except.ok.inj hperform)
      -- A salvage that saves something clears the pool like a stop.
      rcases salvage_cases hsalvage with ⟨-, rfl⟩ | ⟨-, -, -, rfl⟩
      · rwa [collect_eq h.settled]
      · obtain ⟨hstopped, hempty⟩ := stop_spec p.collect
        have hdone := (contents_eq_nil_iff.mp hempty).1
        exact tracked_of_idle hstopped ((isIdle_iff hstopped.fetchers).mpr hdone) rfl
  | stop =>
      cases hperform
      obtain ⟨hstopped, hempty⟩ := stop_spec p
      have hdone := (contents_eq_nil_iff.mp hempty).1
      exact tracked_of_idle hstopped ((isIdle_iff hstopped.fetchers).mpr hdone) rfl
  | sent closed =>
      cases hperform
      exact h.same (settled_afterSent h.settled closed) rfl (carried_afterSent p closed) rfl

/-- Any sequence of calls keeps the record in agreement. -/
theorem Tracked.run (calls : List Call) {batch' : List Segment} (h : Tracked batch p)
    (hcalls : p.trackAll batch calls = .ok (batch', q)) : Tracked batch' q := by
  induction calls generalizing p batch with
  | nil =>
      cases hcalls
      exact h
  | cons call rest ih =>
      obtain ⟨⟨batch₁, p₁⟩, hcall, hcalls⟩ := Checked.bind_eq_ok_iff.mp hcalls
      exact ih (h.step hcall) hcalls

/-! ### The first gap -/

/-- Deliveries of distinct levels are split at the first level that is missing. The levels stay
words as long as there is a word that is missing. -/
theorem splitAtGap_run {ds : List Delivery} {expected level : Nat}
    (hsorted : ds.Pairwise fun d e => d.segment.level < e.segment.level)
    (hfrom : ∀ d ∈ ds, expected ≤ d.segment.level) (hlevel : expected ≤ level)
    (hword : level < word32) (hmissing : ∀ d ∈ ds, d.segment.level ≠ level) :
    ∃ usable beyond, splitAtGap expected ds = .ok (usable, beyond) ∧
      usable.map (·.segment.level) = List.range' expected usable.length ∧
      ∀ d ∈ ds, d.segment.level ≠ expected + usable.length := by
  -- The levels that are expected go up with each delivery.
  induction ds generalizing expected with
  | nil => exact ⟨[], [], rfl, rfl, fun d hd => nomatch hd⟩
  | cons d rest ih =>
      obtain ⟨habove, hrest⟩ := List.pairwise_cons.mp hsorted
      obtain ⟨hd, -⟩ := List.forall_mem_cons.mp hfrom
      obtain ⟨hdmissing, hrestmissing⟩ := List.forall_mem_cons.mp hmissing
      by_cases hexpected : d.segment.level = expected
      · have hnext : expected + 1 ≤ level := by omega
        have hfrom' : ∀ e ∈ rest, expected + 1 ≤ e.segment.level := by
          intro e he
          have := habove e he
          omega
        obtain ⟨usable, beyond, hsplit, hlevels, hgap⟩ := ih hrest hfrom' hnext hrestmissing
        refine ⟨d :: usable, beyond, ?_, ?_, ?_⟩
        · rw [splitAtGap, if_pos hexpected, if_pos (by omega), hsplit]
          rfl
        · rw [List.map_cons, hexpected, hlevels, List.length_cons, List.range'_succ]
        · refine List.forall_mem_cons.mpr ⟨?_, fun e he => ?_⟩
          · rw [hexpected, List.length_cons]
            omega
          · have := hgap e he
            rw [List.length_cons]
            omega
      · refine ⟨[], d :: rest, by rw [splitAtGap, if_neg hexpected], rfl, ?_⟩
        -- The first delivery lies above what is expected, and so do the others.
        refine List.forall_mem_cons.mpr ⟨hexpected, fun e he => ?_⟩
        have := habove e he
        rw [List.length_nil]
        omega

/-! ### Salvages -/

/-- A pool that has nothing to do and nothing to tell tells nothing. -/
theorem rounds_of_done (rs : List Round) (h : p.Settled) (hdone : p.IsDone)
    (hsilent : p.events = []) {told : List PoolEvent} (hrounds : p.rounds rs = .ok (told, q)) :
    told = [] := by
  -- Every round leaves a pool that is done as it was, so that the next one finds it so.
  induction rs generalizing p told with
  | nil =>
      cases hrounds
      rfl
  | cons r rest ih =>
      cases r with
      | sent closed =>
          refine ih (settled_afterSent h closed) ?_ hsilent hrounds
          rw [IsDone, carried_afterSent]
          exact hdone
      | turn now id w =>
          obtain ⟨e, p', later, hpoll, hrest, rfl⟩ := rounds_turn hrounds
          obtain ⟨hp', hturn⟩ := poll_turn h hpoll
          obtain ⟨rfl, hsilent'⟩ := hturn.of_done hdone hsilent
          exact ih hp' (hdone.turn hturn) hsilent' hrest

/-- What a salvage that finds the base of a batch does to a pool. -/
structure Saves (p : Pool) (base : Nat) (s : Salvage) (q : Pool) : Prop where
  /-- What is usable has finished. -/
  finished : ∀ d ∈ s.usable, d ∈ p.finished
  /-- The levels go up from the base without a gap. -/
  run : s.usable.map (·.segment.level) = List.range' base s.usable.length
  pos : 0 < s.usable.length
  /-- The next level has not finished. -/
  maximal : ∀ d ∈ p.finished, d.segment.level ≠ base + s.usable.length
  /-- Every layer that the pool held is usable or dropped, and not both. -/
  dropped : p.contents.Perm (s.usable.map Delivery.segment ++ s.dropped)
  ordered : s.dropped.Pairwise fun s t => s.level < t.level
  idle : q.isIdle = true
  empty : q.contents = []
  /-- Until something is queued, nothing is told. -/
  silent : ∀ rs told r, q.rounds rs = .ok (told, r) → told = []
  /-- Later on, only layers that were queued later are shed. -/
  later : ∀ calls a r, q.performAll {} calls = .ok (a, r) → a.shed <+~ a.enqueued

/-- A salvage that saves something is not empty. -/
theorem Saves.isEmpty {base : Nat} {s : Salvage} (h : Saves p base s q) : s.isEmpty = false := by
  rw [Salvage.isEmpty, List.isEmpty_eq_false_iff.mpr (List.length_pos_iff.mp h.pos)]
  rfl

/-- A pool that holds nothing sheds only layers that are queued later. -/
theorem shed_of_empty (h : p.Settled) (hempty : p.contents = []) {calls : List Call}
    {a : Account} (hcalls : p.performAll {} calls = .ok (a, q)) : a.shed <+~ a.enqueued := by
  have hnew : Balanced p {} := ⟨h, by rw [hempty]; exact List.Perm.refl _⟩
  refine List.Subperm.trans ?_ (performAll_balanced calls hnew hcalls).balance.symm.subperm
  refine List.Sublist.subperm ?_
  rw [Account.gone, List.append_assoc, List.append_assoc]
  exact ((List.sublist_append_left _ _).trans (List.sublist_append_right _ _)).trans
    (List.sublist_append_right _ _)

/-- A salvage leaves the batch as it is while the base is missing. -/
theorem salvage_of_missing (h : p.Settled) {base : Nat} (hbase : p.base = some base)
    (hmissing : ∀ d ∈ p.finished, d.segment.level ≠ base) : p.salvage = .ok ({}, p) := by
  have hnone : p.finishedBase? = none := by
    rw [finishedBase?, hbase, Option.filter_some, if_neg]
    simpa using hmissing
  simp only [salvage, collect_eq h, hnone]

/-- The layers that are out are not finished: the levels are distinct. -/
theorem exists_missing (h : p.Settled) (hbusy : p.isIdle = false)
    (hlevels : (p.contents.map Segment.level).Nodup) :
    ∃ s ∈ p.contents, ∀ d ∈ p.finished, d.segment.level ≠ s.level := by
  have hsome : p.queue ++ p.carried ≠ [] := by
    intro hnone
    have hidle := (isIdle_iff h.fetchers).mpr (List.append_eq_nil_iff.mp hnone)
    exact absurd (hbusy.symm.trans hidle) Bool.false_ne_true
  obtain ⟨s, hs⟩ := List.exists_mem_of_ne_nil _ hsome
  refine ⟨s, List.mem_append_left _ hs, fun d hd => ?_⟩
  rw [contents, List.map_append, List.nodup_append] at hlevels
  exact (hlevels.2.2 _ (List.mem_map_of_mem hs) _
    (List.mem_map_of_mem (List.mem_map_of_mem hd))).symm

/-- A salvage saves the run of levels from the base on when the base is there. -/
theorem salvage_of_found (h : p.Settled) (hbusy : p.isIdle = false) {base : Nat}
    (hbase : p.base = some base) (hlevels : (p.contents.map Segment.level).Nodup)
    (hfrom : ∀ s ∈ p.contents, base ≤ s.level ∧ s.level < word32)
    (hfound : ∃ d ∈ p.finished, d.segment.level = base) :
    ∃ s q, p.salvage = .ok (s, q) ∧ Saves p base s q := by
  have hsome : p.finishedBase? = some base := by
    rw [finishedBase?, hbase, Option.filter_some, if_pos]
    simpa using hfound
  have hmem : ∀ {d : Delivery}, d ∈ deliveriesByLevel p.finished ↔ d ∈ p.finished :=
    (deliveriesByLevel_perm p.finished).mem_iff
  have hheld : ∀ d ∈ p.finished, d.segment ∈ p.contents := fun d hd =>
    List.mem_append_right _ (List.mem_map_of_mem hd)
  -- The finished layers in order, with distinct levels from the base on.
  have harrived : ((deliveriesByLevel p.finished).map (·.segment.level)).Nodup := by
    have hperm := (deliveriesByLevel_perm p.finished).map (·.segment.level)
    refine hperm.nodup_iff.mpr ?_
    rw [contents, List.map_append, List.nodup_append, arrived, List.map_map] at hlevels
    exact hlevels.2.1
  have hsorted : (deliveriesByLevel p.finished).Pairwise
      fun d e => d.segment.level < e.segment.level :=
    ((deliveriesByLevel_sorted p.finished).and (List.pairwise_map.mp harrived)).imp
      fun hde => Nat.lt_of_le_of_ne hde.1 hde.2
  obtain ⟨t, ht, hmissing⟩ := exists_missing h hbusy hlevels
  obtain ⟨usable, beyond, hsplit, hrun, hgap⟩ := splitAtGap_run hsorted
    (fun d hd => (hfrom _ (hheld d (hmem.mp hd))).1) (hfrom t ht).1 (hfrom t ht).2
    (fun d hd => hmissing d (hmem.mp hd))
  have hparts := splitAtGap_append hsplit
  have hsalvage : p.salvage = .ok
      ({ usable, dropped := byLevel (beyond.map Delivery.segment ++ p.carried ++ p.queue) },
        p.stop) := by
    simp only [salvage, collect_eq h, hsome, hsplit, filterMap_busy]
    rfl
  obtain ⟨hstopped, hempty⟩ := stop_spec p
  have hdone := (contents_eq_nil_iff.mp hempty).1
  have hdropped := (salvage_spec h hsalvage).2
  rw [hempty, List.nil_append] at hdropped
  refine ⟨_, _, hsalvage, ?_⟩
  exact {
    finished := fun d hd => hmem.mp (hparts ▸ List.mem_append_left _ hd)
    run := hrun
    pos := by
      obtain ⟨d, hd, hlevel⟩ := hfound
      have := hgap d (hmem.mpr hd)
      rw [List.length_pos_iff]
      rintro rfl
      exact this hlevel
    maximal := fun d hd => hgap d (hmem.mpr hd)
    dropped := hdropped
    ordered := by
      refine pairwise_lt_of_levels (pairwise_sortOn _ _) ?_
      have hnodup := (hdropped.map Segment.level).nodup_iff.mp hlevels
      rw [List.map_append] at hnodup
      exact (List.nodup_append.mp hnodup).2.1
    idle := (isIdle_iff hstopped.fetchers).mpr hdone
    empty := hempty
    silent := fun rs told r hrounds => rounds_of_done rs hstopped hdone rfl hrounds
    later := fun calls a r hcalls => shed_of_empty hstopped hempty hcalls }

/-- **A salvage is all or nothing.** Calls of a new pool have left it at work, and the batch is what
was queued since it was last idle. The layers of the batch have distinct levels, and all that the
pool holds is of this batch. A salvage then has a result. It is empty just when the lowest level of
the batch has not finished, and changes nothing then. Else it saves the finished layers from the
lowest level up to the first gap, drops all other layers in the order of their levels, and leaves
nothing. -/
theorem salvage_all_or_nothing {count : Nat} {settings : FetchSettings} {p q : Pool}
    {calls : List Call} {batch : List Segment}
    (hnew : Pool.ofSettings count settings = .ok (.ok p))
    (hcalls : p.trackAll [] calls = .ok (batch, q)) (hbusy : q.isIdle = false)
    (hlevels : (batch.map Segment.level).Nodup) (hwords : ∀ s ∈ batch, s.level < word32)
    (hheld : q.contents <+~ batch) :
    ∃ base s r, (batch.map Segment.level).min? = some base ∧ q.salvage = .ok (s, r) ∧
      (s.isEmpty = true ↔ ∀ d ∈ q.finished, d.segment.level ≠ base) ∧
      (s.isEmpty = true → r = q) ∧ (s.isEmpty = false → Saves q base s r) := by
  have htracked := (tracked_ofSettings hnew).run calls hcalls
  have hsettled := htracked.settled
  have hbase := htracked.base
  rw [if_neg (by simp [hbusy])] at hbase
  have hdistinct : (q.contents.map Segment.level).Nodup := by
    obtain ⟨part, hperm, hsub⟩ := hheld
    exact (hperm.map _).nodup_iff.mp ((hsub.map Segment.level).nodup hlevels)
  -- A pool that is not idle lacks a layer, so that the batch has one.
  obtain ⟨t, ht, -⟩ := exists_missing hsettled hbusy hdistinct
  obtain ⟨base, hlowest⟩ : ∃ base, lowest? batch = some base := by
    refine Option.ne_none_iff_exists'.mp fun hnone => ?_
    have := hheld.subset ht
    rw [lowest?_eq_none_iff.mp hnone] at this
    cases this
  rw [hlowest] at hbase
  have hfrom : ∀ s ∈ q.contents, base ≤ s.level ∧ s.level < word32 := fun s hs =>
    ⟨(lowest?_eq_some_iff.mp hlowest).2 s (hheld.subset hs), hwords s (hheld.subset hs)⟩
  by_cases hfound : ∃ d ∈ q.finished, d.segment.level = base
  · obtain ⟨s, r, hsalvage, hsaves⟩ :=
      salvage_of_found hsettled hbusy hbase hdistinct hfrom hfound
    have hsome : ¬s.isEmpty = true := Bool.not_eq_true _ ▸ hsaves.isEmpty
    refine ⟨base, s, r, hlowest, hsalvage, ⟨fun hnone => absurd hnone hsome, fun hmissing => ?_⟩,
      fun hnone => absurd hnone hsome, fun _ => hsaves⟩
    obtain ⟨d, hd, hlevel⟩ := hfound
    exact absurd hlevel (hmissing d hd)
  · have hmissing : ∀ d ∈ q.finished, d.segment.level ≠ base := fun d hd hlevel =>
      hfound ⟨d, hd, hlevel⟩
    exact ⟨base, {}, q, hlowest, salvage_of_missing hsettled hbase hmissing,
      ⟨fun _ => hmissing, fun _ => rfl⟩, fun _ => rfl, fun hsome => nomatch hsome⟩

/-- A layer that is carried arrives at a fetcher and is empty. -/
def sampleArrival (now id level : Nat) : Call :=
  .poll now id (.reply ⟨⟨(sampleLayer level).name, 0⟩, .data (Length.encode 0)⟩)

/-- Three layers are queued, and the first and the last one arrive. -/
def gapCalls : List Call :=
  [.enqueue 0 [sampleLayer 2, sampleLayer 0, sampleLayer 1], .sent (fun _ => false),
    sampleArrival 10 0 0, .sent (fun _ => false), sampleArrival 20 0 2]

/-- Of three layers of which the second one is missing, the first one is saved. -/
theorem salvage_all_or_nothing_sample :
    ∃ p batch q s r, Pool.ofSettings 2 {} = .ok (.ok p) ∧
      p.trackAll [] gapCalls = .ok (batch, q) ∧ q.salvage = .ok (s, r) ∧
      s.usable.map Delivery.segment = [sampleLayer 0] ∧
      s.dropped = [sampleLayer 1, sampleLayer 2] ∧ Saves q 0 s r := by
  have hvalue : ((Pool.ofSettings 2 {}).toOption.bind fun r => r.toOption.bind fun p =>
      (p.trackAll [] gapCalls).toOption.bind fun r => r.2.salvage.toOption.map fun r' =>
        (r.1, r.2.contents, r.2.isIdle, r'.1.usable.map Delivery.segment, r'.1.dropped)) =
      some ([sampleLayer 2, sampleLayer 0, sampleLayer 1],
        [sampleLayer 1, sampleLayer 0, sampleLayer 2], false, [sampleLayer 0],
        [sampleLayer 1, sampleLayer 2]) := by decide +kernel
  obtain ⟨made, hnew, hvalue⟩ := Checked.exists_of_bind_toOption hvalue
  obtain ⟨p, rfl, hmade⟩ := Checked.exists_of_bind_toOption hvalue
  obtain ⟨⟨batch, q⟩, hcalls, hvalue⟩ := Checked.exists_of_bind_toOption hmade
  obtain ⟨⟨s, r⟩, hsalvage, hvalues⟩ := Checked.exists_of_map_toOption hvalue
  simp only [Prod.mk.injEq] at hvalues
  obtain ⟨rfl, hcontents, hbusy, husable, hdropped⟩ := hvalues
  have hheld : q.contents <+~ [sampleLayer 2, sampleLayer 0, sampleLayer 1] := by
    rw [hcontents]
    exact (show List.Perm _ _ by decide +kernel).subperm
  obtain ⟨base, s', r', hbase, hsalvage', -, -, hsaves⟩ :=
    salvage_all_or_nothing hnew hcalls hbusy (by decide +kernel) (by decide +kernel) hheld
  obtain ⟨rfl, rfl⟩ := Prod.mk.inj (Except.ok.inj (hsalvage.symm.trans hsalvage'))
  obtain rfl : 0 = base := Option.some.inj hbase
  have hsome : s.isEmpty = false := by
    rw [Salvage.isEmpty, hdropped]
    exact Bool.and_false _
  exact ⟨p, _, q, s, r, hnew, hcalls, hsalvage, husable, hdropped, hsaves hsome⟩

/-- Two layers are queued behind one that is on its way. That one arrives and is taken, and then
the first of the two arrives. -/
def mergedCalls : List Call :=
  [.enqueue 0 [sampleLayer 0], .sent (fun _ => false), .enqueue 5 [sampleLayer 1, sampleLayer 2],
    sampleArrival 10 0 0, .sent (fun _ => false), .takeFinished, sampleArrival 20 0 1]

/-- One layer is queued and arrives, and is not taken. Two layers are queued then, and the first of
them arrives. -/
def leftoverCalls : List Call :=
  [.enqueue 0 [sampleLayer 0], .sent (fun _ => false), sampleArrival 10 0 0,
    .enqueue 10 [sampleLayer 1, sampleLayer 2], .sent (fun _ => false), sampleArrival 20 0 1]

/-- Layers that are queued while the pool is at work join the batch, and a salvage finds nothing as
long as the batch has a lower level, even if that layer was taken. Finished layers that are left
over from an earlier batch take part in the salvage of the next one, and nothing is usable then.
In both cases layer 1 has finished, is the lower one of the two layers that were queued together,
and of all layers only layer 2 is out. -/
theorem salvage_of_two_batches :
    (∃ p a q s r, Pool.ofSettings 1 {} = .ok (.ok p) ∧ p.performAll {} mergedCalls = .ok (a, q) ∧
      q.finished.map Delivery.segment = [sampleLayer 1] ∧
      q.queue ++ q.carried = [sampleLayer 2] ∧ q.salvage = .ok (s, r) ∧ s.isEmpty = true) ∧
    ∃ p a q s r, Pool.ofSettings 1 {} = .ok (.ok p) ∧ p.performAll {} leftoverCalls = .ok (a, q) ∧
      q.finished.map Delivery.segment = [sampleLayer 0, sampleLayer 1] ∧
      q.queue ++ q.carried = [sampleLayer 2] ∧ q.salvage = .ok (s, r) ∧ s.usable = [] ∧
      s.dropped = [sampleLayer 0, sampleLayer 1, sampleLayer 2] := by
  constructor
  · have hvalue : ((Pool.ofSettings 1 {}).toOption.bind fun r => r.toOption.bind fun p =>
        (p.performAll {} mergedCalls).toOption.bind fun r => r.2.salvage.toOption.map fun r' =>
          (r.2.finished.map Delivery.segment, r.2.queue ++ r.2.carried, r'.1.isEmpty)) =
        some ([sampleLayer 1], [sampleLayer 2], true) := by decide +kernel
    obtain ⟨made, hnew, hvalue⟩ := Checked.exists_of_bind_toOption hvalue
    obtain ⟨p, rfl, hmade⟩ := Checked.exists_of_bind_toOption hvalue
    obtain ⟨⟨a, q⟩, hcalls, hvalue⟩ := Checked.exists_of_bind_toOption hmade
    obtain ⟨⟨s, r⟩, hsalvage, hvalues⟩ := Checked.exists_of_map_toOption hvalue
    simp only [Prod.mk.injEq] at hvalues
    obtain ⟨hfinished, hout, hempty⟩ := hvalues
    exact ⟨p, a, q, s, r, hnew, hcalls, hfinished, hout, hsalvage, hempty⟩
  · have hvalue : ((Pool.ofSettings 1 {}).toOption.bind fun r => r.toOption.bind fun p =>
        (p.performAll {} leftoverCalls).toOption.bind fun r => r.2.salvage.toOption.map fun r' =>
          (r.2.finished.map Delivery.segment, r.2.queue ++ r.2.carried, r'.1.usable,
            r'.1.dropped)) =
        some ([sampleLayer 0, sampleLayer 1], [sampleLayer 2], [],
          [sampleLayer 0, sampleLayer 1, sampleLayer 2]) := by decide +kernel
    obtain ⟨made, hnew, hvalue⟩ := Checked.exists_of_bind_toOption hvalue
    obtain ⟨p, rfl, hmade⟩ := Checked.exists_of_bind_toOption hvalue
    obtain ⟨⟨a, q⟩, hcalls, hvalue⟩ := Checked.exists_of_bind_toOption hmade
    obtain ⟨⟨s, r⟩, hsalvage, hvalues⟩ := Checked.exists_of_map_toOption hvalue
    simp only [Prod.mk.injEq] at hvalues
    obtain ⟨hfinished, hout, husable, hdropped⟩ := hvalues
    exact ⟨p, a, q, s, r, hnew, hcalls, hfinished, hout, hsalvage, husable, hdropped⟩

end LayerCast.Pool
