import LayerCast.Proofs.Pool.Conservation

/-!
# `LayerCast.Proofs.Pool.BatchResult`: what is left of a batch

A batch of layers with distinct levels is queued by an idle pool that holds nothing. While the pool
has its turns, each rejection takes the rejected layer and all layers above it out of the batch,
and nothing else leaves it. This needs that a rejection may give up the whole queue: all that is
queued lies above all that was handed out (`InBatch.above`).

`batch_result` says that at any time the pool holds the layers of the batch below the lowest
rejected level, and that these are the finished layers, in the order of their levels, when the end
of the batch is told.

A pool may still have to tell the end of an earlier batch when the next one is queued. That event
comes first and says nothing about the new batch (`stale_batchComplete`).
-/

set_option autoImplicit false

namespace LayerCast.Pool

/-! ### Rounds -/

/-- What happens while a batch is out. -/
inductive Round where
  /-- A turn of the pool, in which something may happen to one of its fetchers. -/
  | turn (now id : Nat) (w : Wake)
  /-- The fetchers hand their interests to the faces, some of which turn out closed. -/
  | sent (closed : Nat → Bool)

/-- A pool after several rounds, with what it has told, the oldest first. -/
def rounds (p : Pool) : List Round → Checked (List PoolEvent × Pool)
  | [] => .ok ([], p)
  | .sent closed :: rest => (p.afterSent closed).rounds rest
  | .turn now id w :: rest => do
    let (e, p) ← p.poll now id w
    let (told, p) ← p.rounds rest
    return (e.toList ++ told, p)

/-- Rounds that begin with a turn. -/
theorem rounds_turn {p q : Pool} {now id : Nat} {w : Wake} {rest : List Round}
    {told : List PoolEvent} (h : p.rounds (.turn now id w :: rest) = .ok (told, q)) :
    ∃ e p' later, p.poll now id w = .ok (e, p') ∧ p'.rounds rest = .ok (later, q) ∧
      told = e.toList ++ later := by
  obtain ⟨⟨e, p'⟩, hpoll, h⟩ := Checked.bind_eq_ok_iff.mp h
  obtain ⟨⟨later, q'⟩, hrest, h⟩ := Checked.bind_eq_ok_iff.mp h
  obtain ⟨rfl, rfl⟩ := Prod.mk.inj (Except.ok.inj h)
  exact ⟨e, p', later, hpoll, hrest, rfl⟩

/-- The levels that were named as rejected. -/
def failedLevels (told : List PoolEvent) : List Nat :=
  told.filterMap fun
    | .layersShed failed _ => some failed.level
    | .batchComplete => none

/-- Whether a layer lies below a level, if there is one. -/
def isBelow (level : Option Nat) (s : Segment) : Bool := level.all (s.level < ·)

/-- To lie below the lowest of some levels is to lie below all of them. -/
theorem isBelow_eq (levels : List Nat) :
    isBelow levels.min? = fun s => levels.all (s.level < ·) := by
  funext s
  cases hmin : levels.min? with
  | none =>
      rw [List.min?_eq_none_iff.mp hmin]
      rfl
  | some m =>
      obtain ⟨hmem, hle⟩ := List.min?_eq_some_iff.mp hmin
      rw [Bool.eq_iff_iff]
      simp only [isBelow, Option.all_some, decide_eq_true_eq, List.all_eq_true]
      constructor
      · intro hlt level hlevel
        exact Nat.lt_of_lt_of_le hlt (hle level hlevel)
      · intro hall
        exact hall m hmem

/-! ### The batch in the pool -/

/-- A pool that works on what is left of a batch after some levels were rejected. -/
structure InBatch (batch : List Segment) (levels : List Nat) (p : Pool) : Prop where
  settled : p.Settled
  /-- The queue stands in the order of the levels. -/
  sorted : p.queue.Pairwise fun s t => s.level < t.level
  /-- Everything queued lies above everything handed out. -/
  above : ∀ s ∈ p.carried ++ p.arrived, ∀ t ∈ p.queue, s.level < t.level
  kept : p.contents.Perm (batch.filter fun s => levels.all (s.level < ·))

/-- Layers that move from the queue to the fetchers keep the order of the batch. -/
theorem InBatch.moved {batch : List Segment} {levels : List Nat} {p q : Pool}
    (h : InBatch batch levels p) (hq : q.Settled) {started : List Segment}
    (hqueue : p.queue = started ++ q.queue)
    (hout : (q.carried ++ q.arrived).Perm (started ++ (p.carried ++ p.arrived))) :
    InBatch batch levels q := by
  have hsorted := h.sorted
  rw [hqueue] at hsorted
  obtain ⟨-, hsorted, hbetween⟩ := List.pairwise_append.mp hsorted
  refine ⟨hq, hsorted, ?_, ?_⟩
  · -- What was started stood before the rest of the queue, and the others lay below it.
    intro s hs t ht
    rcases List.mem_append.mp (hout.mem_iff.mp hs) with hs | hs
    · exact hbetween s hs t ht
    · exact h.above s hs t (hqueue ▸ List.mem_append_right _ ht)
  · -- Moving layers changes none of them.
    refine List.Perm.trans ?_ h.kept
    rw [List.perm_iff_count]
    intro s
    have hcount := hout.count_eq s
    simp only [contents, hqueue, List.count_append] at hcount ⊢
    omega

/-- A rejection leaves what lies below it. -/
theorem InBatch.shed {batch : List Segment} {levels : List Nat} {p q : Pool}
    (h : InBatch batch levels p) (hq : q.Settled) {failed : Segment} {rest : List Segment}
    (held : p.carried.Perm (failed :: rest)) (hqueue : q.queue = [])
    (hcarried : q.carried.Perm (rest.filter (·.level < failed.level)))
    (harrived : q.arrived = p.arrived.filter (·.level < failed.level)) :
    InBatch batch (levels ++ [failed.level]) q := by
  refine ⟨hq, by rw [hqueue]; exact List.Pairwise.nil, ?_, ?_⟩
  · intro s _ t ht
    rw [hqueue] at ht
    cases ht
  · have hfailed : failed ∈ p.carried ++ p.arrived :=
      List.mem_append_left _ (held.mem_iff.mpr List.mem_cons_self)
    -- All that is queued lies above the rejected layer.
    have hqueued : p.queue.filter (·.level < failed.level) = [] := by
      rw [List.filter_eq_nil_iff]
      intro t ht
      have hlt := h.above failed hfailed t ht
      simp only [decide_eq_true_eq]
      omega
    have hfiltered : (failed :: rest).filter (·.level < failed.level) =
        rest.filter (·.level < failed.level) :=
      List.filter_cons_of_neg (by simp)
    -- What is left is what was there before, without what lies at or above the level.
    have hkept : (p.contents.filter (·.level < failed.level)).Perm q.contents := by
      rw [contents, List.filter_append, List.filter_append, hqueued, List.nil_append, contents,
        hqueue, List.nil_append, harrived]
      refine List.Perm.append_right _ ?_
      refine ((held.filter _).trans ?_).trans hcarried.symm
      rw [hfiltered]
    refine hkept.symm.trans ((h.kept.filter _).trans ?_)
    rw [List.filter_filter]
    refine List.Perm.of_eq (List.filter_congr fun s _ => ?_)
    rw [List.all_append, List.all_cons, List.all_nil, Bool.and_true, Bool.and_comm]

/-! ### Turns while a batch is out -/

/-- Nothing of a batch is queued or on its way any more. -/
def IsDone (p : Pool) : Prop := p.queue = [] ∧ p.carried = []

/-- All that the pool still has to tell is the end of the batch that it works on. -/
def TellsOwn (p : Pool) : Prop := p.events = [] ∨ p.IsDone

/-- A turn keeps what is left of the batch, below what it names as rejected. -/
theorem InBatch.turn {batch : List Segment} {levels : List Nat} {p q : Pool}
    {e : Option PoolEvent} (h : InBatch batch levels p) (hq : q.Settled) (hturn : Turn p e q) :
    InBatch batch (levels ++ failedLevels e.toList) q := by
  cases hturn with
  | announced =>
      have hsame : InBatch batch levels { p with events := [] } :=
        ⟨hq, h.sorted, h.above, h.kept⟩
      rwa [Option.toList_some, show failedLevels [.batchComplete] = [] from rfl, List.append_nil]
  | moved started silent told queue carried finished =>
      have harrived := arrived_of_eq finished
      have hout : (q.carried ++ q.arrived).Perm (started ++ (p.carried ++ p.arrived)) := by
        rw [harrived, ← List.append_assoc]
        exact carried.append_right _
      rw [show failedLevels (none : Option PoolEvent).toList = [] from rfl, List.append_nil]
      exact h.moved hq queue hout
  | arrived d rest started silent told held queue carried finished =>
      have harrived := arrived_of_append finished
      -- The layer that arrives was handed out already.
      have hout : (q.carried ++ q.arrived).Perm (started ++ (p.carried ++ p.arrived)) := by
        rw [List.perm_iff_count]
        intro s
        have hheld := held.count_eq s
        have hcarried := carried.count_eq s
        simp only [harrived, List.count_append, List.count_cons, List.count_nil]
          at hheld hcarried ⊢
        omega
      have hnone : failedLevels (if q.isIdle then some PoolEvent.batchComplete
          else none).toList = [] := by
        split <;> rfl
      rw [hnone, List.append_nil]
      exact h.moved hq queue hout
  | shed failed rest shed silent told held gone queue carried finished =>
      exact h.shed hq held queue carried (arrived_of_filter finished)

/-- Where nothing is left to do, a turn leaves nothing to do. -/
theorem IsDone.turn {p q : Pool} {e : Option PoolEvent} (h : p.IsDone) (hturn : Turn p e q) :
    q.IsDone := by
  obtain ⟨hqueue, hcarried⟩ := h
  cases hturn with
  | announced => exact ⟨hqueue, hcarried⟩
  | moved started silent told queue carried finished =>
      obtain ⟨rfl, hnone⟩ := List.append_eq_nil_iff.mp (queue.symm.trans hqueue)
      rw [hcarried] at carried
      exact ⟨hnone, carried.eq_nil⟩
  | arrived d rest started silent told held queue carried finished =>
      rw [hcarried] at held
      exact absurd held.symm.eq_nil (List.cons_ne_nil _ _)
  | shed failed rest shed silent told held gone queue carried finished =>
      rw [hcarried] at held
      exact absurd held.symm.eq_nil (List.cons_ne_nil _ _)

/-- The end of a batch is told when nothing is left to do. -/
theorem TellsOwn.turn {p q : Pool} {e : Option PoolEvent} (h : p.TellsOwn) (hq : q.Settled)
    (hturn : Turn p e q) : q.TellsOwn ∧ (e = some .batchComplete → q.IsDone) := by
  cases hturn with
  | announced pending =>
      have hdone : p.IsDone := by
        rcases h with silent | hdone
        · rw [silent] at pending
          cases pending
        · exact hdone
      exact ⟨.inl rfl, fun _ => hdone⟩
  | moved started silent told queue carried finished =>
      refine ⟨.inl told, fun h => ?_⟩
      cases h
  | arrived d rest started silent told held queue carried finished =>
      refine ⟨.inl told, fun hend => ?_⟩
      split at hend
      · -- The end is told with the last layer.
        rename_i hidle
        exact (isIdle_iff hq.fetchers).mp hidle
      · cases hend
  | shed failed rest shed silent told held gone queue carried finished =>
      refine ⟨?_, fun hend => ?_⟩
      · -- The rejection comes first, and the end of the batch waits for the next turn.
        by_cases hidle : q.isIdle = true
        · exact .inr ((isIdle_iff hq.fetchers).mp hidle)
        · rw [if_neg hidle] at told
          exact .inl told
      · cases hend

/-! ### Rounds while a batch is out -/

/-- To send interests changes nothing about the batch, even where a face has closed. -/
theorem InBatch.afterSent {batch : List Segment} {levels : List Nat} {p : Pool}
    (h : InBatch batch levels p) (closed : Nat → Bool) :
    InBatch batch levels (p.afterSent closed) := by
  refine ⟨settled_afterSent h.settled closed, h.sorted, ?_, ?_⟩
  · rw [carried_afterSent]
    exact h.above
  · rw [contents_afterSent]
    exact h.kept

/-- Nor does it make the pool tell anything. -/
theorem TellsOwn.afterSent {p : Pool} (h : p.TellsOwn) (closed : Nat → Bool) :
    (p.afterSent closed).TellsOwn := by
  rw [TellsOwn, IsDone, carried_afterSent]
  exact h

/-- Rounds keep what is left of the batch, and its end is told when nothing is left to do. -/
theorem rounds_inBatch (rs : List Round) {batch : List Segment} {levels : List Nat} {p q : Pool}
    {told : List PoolEvent} (h : InBatch batch levels p) (hown : p.TellsOwn)
    (hrounds : p.rounds rs = .ok (told, q)) :
    InBatch batch (levels ++ failedLevels told) q ∧
      (p.IsDone ∨ .batchComplete ∈ told → q.IsDone) := by
  -- Induction on the rounds. The levels named so far and what was told change with them.
  induction rs generalizing levels p told with
  | nil =>
      cases hrounds
      refine ⟨by rwa [show failedLevels [] = [] from rfl, List.append_nil], ?_⟩
      rintro (hdone | hmem)
      · exact hdone
      · cases hmem
  | cons r rest ih =>
      cases r with
      | sent closed =>
          obtain ⟨hq, hdone⟩ := ih (h.afterSent closed) (hown.afterSent closed) hrounds
          rw [IsDone, carried_afterSent] at hdone
          exact ⟨hq, hdone⟩
      | turn now id w =>
          obtain ⟨e, p', later, hpoll, hrest, rfl⟩ := rounds_turn hrounds
          obtain ⟨hp', hturn⟩ := poll_turn h.settled hpoll
          obtain ⟨hown', hend⟩ := hown.turn hp' hturn
          obtain ⟨hq, hdone⟩ := ih (h.turn hp' hturn) hown' hrest
          refine ⟨?_, ?_⟩
          · rw [failedLevels, List.filterMap_append, ← List.append_assoc]
            exact hq
          · rintro (hdoneBefore | hmem)
            · exact hdone (.inl (hdoneBefore.turn hturn))
            · rcases List.mem_append.mp hmem with hfirst | hlater
              · exact hdone (.inl (hend (Option.mem_toList.mp hfirst)))
              · exact hdone (.inr hlater)

/-- Rounds of a pool that still has to tell the end of an earlier batch: that is told first. -/
theorem rounds_stale (rs : List Round) {batch : List Segment} {levels : List Nat} {p q : Pool}
    {told : List PoolEvent} (h : InBatch batch levels p) (hstale : p.events = [.batchComplete])
    (hrounds : p.rounds rs = .ok (told, q)) :
    InBatch batch (levels ++ failedLevels told) q ∧
      ∀ own, told = .batchComplete :: own → .batchComplete ∈ own → q.IsDone := by
  induction rs generalizing p told with
  | nil =>
      cases hrounds
      refine ⟨by rwa [show failedLevels [] = [] from rfl, List.append_nil], ?_⟩
      intro own hown
      cases hown
  | cons r rest ih =>
      cases r with
      | sent closed => exact ih (h.afterSent closed) hstale hrounds
      | turn now id w =>
          obtain ⟨e, p', later, hpoll, hrest, rfl⟩ := rounds_turn hrounds
          -- The first turn tells the end of the earlier batch and does nothing else.
          have hannounced :
              p.poll now id w = .ok (some .batchComplete, { p with events := [] }) := by
            rw [poll, takeEvent?, hstale]
          obtain ⟨rfl, rfl⟩ := Prod.mk.inj (Except.ok.inj (hpoll.symm.trans hannounced))
          have hp' : InBatch batch levels { p with events := [] } :=
            ⟨⟨h.settled.fetchers, .inl rfl⟩, h.sorted, h.above, h.kept⟩
          obtain ⟨hq, hdone⟩ := rounds_inBatch rest hp' (.inl rfl) hrest
          refine ⟨hq, fun own hown hmem => ?_⟩
          obtain rfl : later = own := (List.cons.inj hown).2
          exact hdone (.inr hmem)

/-! ### The result -/

/-- Distinct levels in order ascend. -/
theorem pairwise_lt_of_levels {l : List Segment}
    (hsorted : l.Pairwise fun s t => s.level ≤ t.level)
    (hdistinct : (l.map Segment.level).Nodup) : l.Pairwise fun s t => s.level < t.level := by
  refine (hsorted.and (List.pairwise_map.mp hdistinct)).imp ?_
  rintro s t ⟨hle, hne⟩
  exact Nat.lt_of_le_of_ne hle hne

/-- A list of segments is determined by its members when it is sorted by distinct levels. -/
theorem eq_of_perm_of_levels {l₁ l₂ : List Segment} (hperm : l₁.Perm l₂)
    (h₁ : l₁.Pairwise fun s t => s.level ≤ t.level) (h₂ : l₂.Pairwise fun s t => s.level ≤ t.level)
    (hdistinct : (l₁.map Segment.level).Nodup) : l₁ = l₂ := by
  have hdistinct₂ : (l₂.map Segment.level).Nodup := (hperm.map _).nodup_iff.mp hdistinct
  exact hperm.eq_of_pairwise (fun s t _ _ hst hts => absurd hst (Nat.lt_asymm hts))
    (pairwise_lt_of_levels h₁ hdistinct) (pairwise_lt_of_levels h₂ hdistinct₂)

/-- When nothing is left to do, the finished layers are what is left of the batch, in order. -/
theorem InBatch.result {batch : List Segment} {levels : List Nat} {p : Pool}
    (h : InBatch batch levels p) (hdone : p.IsDone) (hlevels : (batch.map Segment.level).Nodup) :
    p.takeFinished.1.map Delivery.segment = (byLevel batch).filter (isBelow levels.min?) := by
  obtain ⟨hqueue, hcarried⟩ := hdone
  rw [isBelow_eq]
  have harrived : p.arrived.Perm (batch.filter fun s => levels.all (s.level < ·)) := by
    have hkept := h.kept
    rwa [contents, hqueue, hcarried] at hkept
  have hperm := ((deliveriesByLevel_perm p.finished).map Delivery.segment).trans
    (harrived.trans ((byLevel_perm batch).symm.filter _))
  -- Both lists are sorted by levels that are distinct, so the same layers are the same list.
  refine eq_of_perm_of_levels hperm ?_ ((pairwise_sortOn _ _).filter _) ?_
  · exact List.pairwise_map.mpr (pairwise_sortOn _ _)
  · have hsub : (((byLevel batch).filter fun s =>
        levels.all (s.level < ·)).map Segment.level).Nodup :=
      (List.filter_sublist.map Segment.level).nodup
        (((byLevel_perm batch).map _).nodup_iff.mpr hlevels)
    exact (hperm.map _).nodup_iff.mpr hsub

/-- An idle pool that holds nothing starts a batch. -/
theorem inBatch_enqueue {p : Pool} (h : p.Settled) (hidle : p.isIdle = true)
    (hempty : p.finished = []) {batch : List Segment}
    (hlevels : (batch.map Segment.level).Nodup) (now : Nat) :
    InBatch batch [] (p.enqueue now batch) ∧ (p.enqueue now batch).events = p.events := by
  obtain ⟨hnone, hcarried⟩ := (isIdle_iff h.fetchers).mp hidle
  obtain ⟨r, hr, hfetchers, hqueue, hfinished, hevents⟩ := enqueue_eq p now batch
  have hrcarried : r.carried = [] := by
    rw [carried, hfetchers]
    exact hcarried
  have hrarrived : r.arrived = [] := by
    rw [arrived, hfinished, hempty]
    rfl
  have hrqueue : r.queue = byLevel batch := by rw [hqueue, hnone, List.nil_append]
  have hsettled : r.Settled := ⟨hfetchers ▸ h.fetchers, hevents ▸ h.events⟩
  -- At first the whole batch is queued, in the order of its levels.
  have hbatch : InBatch batch [] r := by
    refine ⟨hsettled, ?_, ?_, ?_⟩
    · rw [hrqueue]
      exact pairwise_lt_of_levels (pairwise_sortOn _ _)
        (((byLevel_perm batch).map _).nodup_iff.mpr hlevels)
    · rw [hrcarried, hrarrived]
      intro s hs
      cases hs
    · have hall : (batch.filter fun s => ([] : List Nat).all (s.level < ·)) = batch :=
        List.filter_eq_self.mpr fun _ _ => rfl
      rw [contents, hrcarried, hrarrived, hrqueue, List.append_nil, List.append_nil, hall]
      exact byLevel_perm batch
  rw [hr]
  split
  · obtain ⟨started, hstarted⟩ := dispatch_spec hsettled.fetchers now
    have hevents' : (r.dispatch now).events = p.events := hstarted.events.trans hevents
    -- Its lowest layers are then handed out.
    refine ⟨hbatch.moved ⟨hstarted.settled, hevents' ▸ h.events⟩ hstarted.queue ?_, hevents'⟩
    rw [arrived_of_eq hstarted.finished, ← List.append_assoc]
    exact hstarted.carried.append_right _
  · exact ⟨hbatch, hevents⟩

/-- **The result of a batch.** An idle pool that holds nothing, reached by any calls, queues a batch
of layers with distinct levels. After any rounds the pool holds exactly the layers of the batch
below the lowest level that was named as rejected. Once the end of this batch was told, the
finished layers are these, in the order of their levels.

What the pool still had to tell when the batch was queued is told before the events of the
batch (`own`). -/
theorem batch_result {count : Nat} {settings : FetchSettings} {p₀ p q : Pool} {a : Account}
    {calls : List Call} (hnew : Pool.ofSettings count settings = .ok (.ok p₀))
    (hcalls : p₀.performAll {} calls = .ok (a, p)) (hidle : p.isIdle = true)
    (hempty : p.finished = []) {batch : List Segment}
    (hlevels : (batch.map Segment.level).Nodup) {now : Nat} {rs : List Round}
    {told : List PoolEvent} (hrounds : (p.enqueue now batch).rounds rs = .ok (told, q)) :
    (q.queue ++ q.carried ++ q.finished.map Delivery.segment).Perm
        (batch.filter (isBelow (failedLevels told).min?)) ∧
      ∀ own, told = p.events ++ own → .batchComplete ∈ own →
        q.takeFinished.1.map Delivery.segment =
          (byLevel batch).filter (isBelow (failedLevels told).min?) := by
  have hsettled : p.Settled :=
    (performAll_balanced calls (balanced_ofSettings hnew) hcalls).settled
  obtain ⟨hbatch, hevents⟩ := inBatch_enqueue hsettled hidle hempty hlevels now
  obtain ⟨hq, hdone⟩ : InBatch batch (failedLevels told) q ∧
      ∀ own, told = p.events ++ own → .batchComplete ∈ own → q.IsDone := by
    -- The pool may still have to tell the end of an earlier batch.
    rcases hsettled.events with silent | stale
    · obtain ⟨hq, hdone⟩ := rounds_inBatch rs hbatch (.inl (hevents.trans silent)) hrounds
      refine ⟨hq, fun own hown hmem => hdone (.inr ?_)⟩
      rw [hown]
      exact List.mem_append_right _ hmem
    · obtain ⟨hq, hdone⟩ := rounds_stale rs hbatch (hevents.trans stale) hrounds
      rw [stale]
      exact ⟨hq, hdone⟩
  refine ⟨?_, fun own hown hmem => hq.result (hdone own hown hmem) hlevels⟩
  rw [isBelow_eq]
  exact hq.kept

/-- The rounds of the sample calls: the first layer arrives and the second one is refused. -/
def sampleRounds : List Round :=
  [.sent (fun _ => false), .turn 10 0 (.reply ⟨⟨(sampleLayer 0).name, 0⟩, .data (Length.encode 0)⟩),
    .turn 20 1 (.reply ⟨⟨(sampleLayer 1).name, 0⟩, .nack .rejected⟩), .turn 30 0 .tick]

/-- Of three layers of which the second one is refused, the first one is the result. -/
theorem batch_result_sample :
    ∃ p told q, Pool.ofSettings 2 {} = .ok (.ok p) ∧ p.isIdle = true ∧ p.finished = [] ∧
      (p.enqueue 0 [sampleLayer 2, sampleLayer 0, sampleLayer 1]).rounds sampleRounds =
        .ok (told, q) ∧
      told = [.layersShed (sampleLayer 1) [sampleLayer 2], .batchComplete] ∧
      q.takeFinished.1.map Delivery.segment = [sampleLayer 0] := by
  have hvalue : ((Pool.ofSettings 2 {}).toOption.bind fun r => r.toOption.bind fun p =>
      ((p.enqueue 0 [sampleLayer 2, sampleLayer 0, sampleLayer 1]).rounds sampleRounds).toOption.map
        fun r => (p.isIdle, p.finished, p.events, r.1)) =
      some (true, [], [], [.layersShed (sampleLayer 1) [sampleLayer 2], .batchComplete]) := by
    decide +kernel
  obtain ⟨r, hr, hvalue⟩ := Option.bind_eq_some_iff.mp hvalue
  obtain ⟨p, hp, hvalue⟩ := Option.bind_eq_some_iff.mp hvalue
  obtain ⟨⟨told, q⟩, hq, hvalues⟩ := Option.map_eq_some_iff.mp hvalue
  simp only [Prod.mk.injEq] at hvalues
  obtain ⟨hidle, hempty, hsilent, htold⟩ := hvalues
  have hnew : Pool.ofSettings 2 {} = .ok (.ok p) := by
    rw [Checked.eq_ok_of_toOption hr, Checked.eq_ok_of_toOption hp]
  have hcalls : p.performAll {} [] = .ok ({}, p) := rfl
  have hrounds := Checked.eq_ok_of_toOption hq
  obtain ⟨-, hresult⟩ := batch_result hnew hcalls hidle hempty (by decide) hrounds
  refine ⟨p, told, q, hnew, hidle, hempty, hrounds, htold, ?_⟩
  rw [hresult told (by rw [hsilent, List.nil_append]) (by rw [htold]; decide), htold]
  decide +kernel

/-- A batch of one layer that is refused, up to the report of the rejection. -/
def staleCalls : List Call :=
  [.enqueue 0 [sampleLayer 0],
    .poll 20 0 (.reply ⟨⟨(sampleLayer 0).name, 0⟩, .nack .rejected⟩)]

/-- The end of a batch that was not taken is told after the next batch was queued. The finished
layers are then not the layers of that batch, although none of them was rejected. -/
theorem stale_batchComplete :
    ∃ p₀ a p told q, Pool.ofSettings 1 {} = .ok (.ok p₀) ∧
      p₀.performAll {} staleCalls = .ok (a, p) ∧ p.isIdle = true ∧ p.finished = [] ∧
      (p.enqueue 20 [sampleLayer 1]).rounds [.turn 20 0 .tick] = .ok (told, q) ∧
      told = [.batchComplete] ∧
      q.takeFinished.1.map Delivery.segment ≠
        (byLevel [sampleLayer 1]).filter (isBelow (failedLevels told).min?) := by
  have hvalue : ((Pool.ofSettings 1 {}).toOption.bind fun r => r.toOption.bind fun p₀ =>
      (p₀.performAll {} staleCalls).toOption.bind fun r =>
        ((r.2.enqueue 20 [sampleLayer 1]).rounds [.turn 20 0 .tick]).toOption.map fun r' =>
          (r.2.isIdle, r.2.finished, r'.1, r'.2.takeFinished.1)) =
      some (true, [], [.batchComplete], []) := by
    decide +kernel
  obtain ⟨r, hr, hvalue⟩ := Option.bind_eq_some_iff.mp hvalue
  obtain ⟨p₀, hp₀, hvalue⟩ := Option.bind_eq_some_iff.mp hvalue
  obtain ⟨⟨a, p⟩, hp, hvalue⟩ := Option.bind_eq_some_iff.mp hvalue
  obtain ⟨⟨told, q⟩, hq, hvalues⟩ := Option.map_eq_some_iff.mp hvalue
  simp only [Prod.mk.injEq] at hvalues
  obtain ⟨hidle, hempty, htold, hresult⟩ := hvalues
  have hnew : Pool.ofSettings 1 {} = .ok (.ok p₀) := by
    rw [Checked.eq_ok_of_toOption hr, Checked.eq_ok_of_toOption hp₀]
  refine ⟨p₀, a, p, told, q, hnew, Checked.eq_ok_of_toOption hp, hidle, hempty,
    Checked.eq_ok_of_toOption hq, htold, ?_⟩
  rw [hresult, htold]
  decide +kernel

end LayerCast.Pool
