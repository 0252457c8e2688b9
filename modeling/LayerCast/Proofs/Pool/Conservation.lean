import LayerCast.Proofs.Pool.Turn

/-!
# `LayerCast.Proofs.Pool.Conservation`: no layer is lost or duplicated

Every call of a pool moves layers, or takes them out of the pool and hands them to its owner. An
`Account` keeps what the owner has put in and what was handed out, by the way in which it left:
returned, shed, dropped by a salvage, or discarded by a stop. Each call keeps the balance
(`perform_balanced`): what was put in is what the pool holds (`contents`) with what has left it.

`conservation` has the balance for every sequence of calls of a new pool, together with the
invariant on which it rests: a fetcher that is not busy has nothing to deliver and nothing to tell,
so that handing out never overwrites a delivery.
-/

set_option autoImplicit false

namespace LayerCast.Pool

open scoped List

/-! ### What a pool holds -/

/-- The layers that a pool holds: queued, with a fetcher, and finished. -/
def contents (p : Pool) : List Segment := p.queue ++ p.carried ++ p.arrived

/-- The layers that an event takes out of a pool. -/
def reported : Option PoolEvent → List Segment
  | some (.layersShed failed shed) => failed :: shed
  | _ => []

/-- The layers of a list that are shed from a level on, and those that stay. -/
theorem perm_filter_level (level : Nat) (l : List Segment) :
    (l.filter (level ≤ ·.level) ++ l.filter (·.level < level)).Perm l := by
  have hnot : (fun s : Segment => decide (s.level < level)) =
      fun s => !decide (level ≤ s.level) := by
    funext s
    rw [← decide_not]
    exact decide_eq_decide.mpr Nat.not_le.symm
  rw [hnot]
  exact List.filter_append_perm _ l

/-- Handing out keeps the contents. -/
theorem Dispatched.contents_perm {p q : Pool} {started : List Segment}
    (h : Dispatched p q started) : q.contents.Perm p.contents := by
  rw [List.perm_iff_count]
  intro s
  have hcarried := h.carried.count_eq s
  have harrived := arrived_of_eq h.finished
  simp only [contents, harrived, h.queue, List.count_append] at hcarried ⊢
  omega

/-- A turn takes out what it reports and nothing else. -/
theorem Turn.contents_perm {p q : Pool} {e : Option PoolEvent} (h : Turn p e q) :
    p.contents.Perm (q.contents ++ reported e) := by
  -- How often a layer is in each place, so that the places can be added up.
  rw [List.perm_iff_count]
  intro s
  cases h with
  | announced =>
      show List.count s p.contents = List.count s (p.contents ++ [])
      rw [List.append_nil]
  | moved started silent told queue carried finished =>
      have hcarried := carried.count_eq s
      have harrived := arrived_of_eq finished
      simp only [contents, reported, harrived, queue, List.count_append, List.count_nil]
        at hcarried ⊢
      omega
  | arrived d rest started silent told held queue carried finished =>
      have hheld := held.count_eq s
      have hcarried := carried.count_eq s
      have harrived := arrived_of_append finished
      have hreported : reported (if q.isIdle then some .batchComplete else none) = [] := by
        split <;> rfl
      simp only [contents, hreported, harrived, queue, List.count_append, List.count_cons,
        List.count_nil] at hheld hcarried ⊢
      omega
  | shed failed rest shed silent told held gone queue carried finished =>
      have hheld := held.count_eq s
      have hcarried := carried.count_eq s
      have hgone := gone.count_eq s
      -- What lies below the rejected level and what does not make up what was there.
      have hrest := (perm_filter_level failed.level rest).count_eq s
      have harrived := (perm_filter_level failed.level p.arrived).count_eq s
      have hkept := arrived_of_filter finished
      simp only [contents, reported, hkept, queue, List.count_append, List.count_cons,
        List.count_nil] at hheld hcarried hgone hrest harrived ⊢
      omega

/-! ### Calls -/

/-- What the owner of a pool can do, and what can happen to its fetchers. -/
inductive Call where
  /-- A batch is queued. -/
  | enqueue (now : Nat) (batch : List Segment)
  /-- A turn of the pool, in which something may happen to one of its fetchers. -/
  | poll (now id : Nat) (w : Wake)
  /-- The finished layers are taken. -/
  | takeFinished
  /-- What is usable of a batch that takes too long is saved. -/
  | salvage
  /-- Everything is given up. -/
  | stop
  /-- The fetchers hand their interests to the faces, some of which turn out closed. -/
  | sent (closed : Nat → Bool)

/-- Where the layers of a pool have come from and gone to. -/
structure Account where
  /-- The layers that were queued. -/
  enqueued : List Segment := []
  /-- The finished layers that were taken, and the usable ones of salvages. -/
  returned : List Segment := []
  /-- The layers that were rejected, and those that were shed with them. -/
  shed : List Segment := []
  /-- The layers that salvages have dropped. -/
  dropped : List Segment := []
  /-- The layers that were given up by a stop. -/
  discarded : List Segment := []

namespace Account

/-- All layers that have left the pool. -/
def gone (a : Account) : List Segment := a.returned ++ a.shed ++ a.dropped ++ a.discarded

end Account

/-- Carries out a call and puts it on the account. -/
def perform (p : Pool) (a : Account) : Call → Checked (Account × Pool)
  | .enqueue now batch =>
    .ok ({ a with enqueued := batch ++ a.enqueued }, p.enqueue now batch)
  | .poll now id w => do
    let (e, q) ← p.poll now id w
    return ({ a with shed := reported e ++ a.shed }, q)
  | .takeFinished =>
    let (deliveries, q) := p.takeFinished
    .ok ({ a with returned := deliveries.map Delivery.segment ++ a.returned }, q)
  | .salvage => do
    let (s, q) ← p.salvage
    return ({ a with
      returned := s.usable.map Delivery.segment ++ a.returned
      dropped := s.dropped ++ a.dropped }, q)
  | .stop => .ok ({ a with discarded := p.contents ++ a.discarded }, p.stop)
  | .sent closed => .ok (a, p.afterSent closed)

/-- Carries out calls one after another. -/
def performAll (p : Pool) (a : Account) : List Call → Checked (Account × Pool)
  | [] => .ok (a, p)
  | call :: rest => do
    let (a, p) ← p.perform a call
    p.performAll a rest

/-- A settled pool whose account is balanced. -/
structure Balanced (p : Pool) (a : Account) : Prop where
  settled : p.Settled
  balance : a.enqueued.Perm (p.contents ++ a.gone)

/-! ### What each call does -/

/-- To send interests moves no segment. -/
theorem contents_afterSent (p : Pool) (closed : Nat → Bool) :
    (p.afterSent closed).contents = p.contents := by
  rw [contents, carried_afterSent]
  rfl

/-- Queuing puts the batch behind the queue, and what can be handed out is. -/
theorem enqueue_eq (p : Pool) (now : Nat) (batch : List Segment) :
    ∃ r : Pool, p.enqueue now batch = (if r.isQuiet then r.dispatch now else r) ∧
      r.fetchers = p.fetchers ∧ r.queue = p.queue ++ byLevel batch ∧ r.finished = p.finished ∧
      r.events = p.events := ⟨_, rfl, rfl, rfl, rfl, rfl⟩

/-- Queuing adds the batch to the contents. -/
theorem enqueue_spec {p : Pool} (h : p.Settled) (now : Nat) (batch : List Segment) :
    (p.enqueue now batch).Settled ∧ (p.enqueue now batch).contents.Perm (batch ++ p.contents) := by
  obtain ⟨r, hr, hfetchers, hqueue, hfinished, hevents⟩ := enqueue_eq p now batch
  have hsettled : ∀ f ∈ r.fetchers, f.IsSettled := hfetchers ▸ h.fetchers
  -- The batch is queued before anything is handed out.
  have hcontents : r.contents.Perm (batch ++ p.contents) := by
    rw [List.perm_iff_count]
    intro s
    have hsorted := (byLevel_perm batch).count_eq s
    simp only [contents, carried, arrived, hfetchers, hqueue, hfinished, List.count_append]
    omega
  rw [hr]
  split
  · obtain ⟨started, hstarted⟩ := dispatch_spec hsettled now
    refine ⟨⟨hstarted.settled, ?_⟩, hstarted.contents_perm.trans hcontents⟩
    rw [hstarted.events, hevents]
    exact h.events
  · exact ⟨⟨hsettled, hevents ▸ h.events⟩, hcontents⟩

/-- Queuing tells nothing. -/
theorem enqueue_events (p : Pool) (now : Nat) (batch : List Segment) :
    (p.enqueue now batch).events = p.events := by
  obtain ⟨r, hr, -, -, -, hevents⟩ := enqueue_eq p now batch
  rw [hr]
  split
  · exact hevents
  · exact hevents

/-- Taking the finished layers takes them out of the contents. -/
theorem takeFinished_spec {p : Pool} (h : p.Settled) :
    p.takeFinished.2.Settled ∧
      p.contents.Perm (p.takeFinished.2.contents ++ p.takeFinished.1.map Delivery.segment) := by
  refine ⟨⟨h.fetchers, h.events⟩, ?_⟩
  rw [List.perm_iff_count]
  intro s
  have htaken : (p.takeFinished.1.map Delivery.segment).count s = p.arrived.count s :=
    ((deliveriesByLevel_perm p.finished).map Delivery.segment).count_eq s
  have hleft : p.takeFinished.2.contents.count s = p.queue.count s + p.carried.count s := by
    show (p.queue ++ p.carried ++ []).count s = _
    rw [List.append_nil, List.count_append]
  rw [List.count_append, hleft, htaken, contents, List.count_append, List.count_append]

/-- Giving up everything leaves nothing. -/
theorem stop_spec (p : Pool) : p.stop.Settled ∧ p.stop.contents = [] := by
  have hrest : ∀ f ∈ p.stop.fetchers, f.AtRest := by
    intro f hf
    obtain ⟨g, -, rfl⟩ := List.mem_map.mp hf
    exact g.atRest_reset
  -- Fetchers at rest carry nothing.
  have hcarried : p.stop.carried = [] :=
    List.filterMap_eq_nil_iff.mpr fun f hf => (hrest f hf).carried?
  refine ⟨⟨fun f hf => .inl (hrest f hf), .inl rfl⟩, ?_⟩
  rw [contents, hcarried]
  rfl

/-- Splitting at the first gap keeps all deliveries. -/
theorem splitAtGap_append {ds usable beyond : List Delivery} {expected : Nat}
    (h : splitAtGap expected ds = .ok (usable, beyond)) : usable ++ beyond = ds := by
  -- The levels that are expected go up with each delivery.
  induction ds generalizing expected usable with
  | nil =>
      cases h
      rfl
  | cons d rest ih =>
      unfold splitAtGap at h
      split at h
      · split at h
        · obtain ⟨⟨run, others⟩, hrest, h⟩ := Checked.bind_eq_ok_iff.mp h
          obtain ⟨rfl, rfl⟩ := Prod.mk.inj (Except.ok.inj h)
          exact congrArg (d :: ·) (ih hrest)
        · cases h
      · cases h
        rfl

/-- What fetchers are busy with, read off in two ways. -/
theorem filterMap_busy (fetchers : List Fetcher) :
    (fetchers.filter Fetcher.isBusy).filterMap Fetcher.segment? =
      fetchers.filterMap Fetcher.carried? := by
  rw [List.filterMap_filter]
  rfl

/-- Settled fetchers have no deliveries, so collecting them changes nothing that matters. -/
theorem collect_spec {p : Pool} (h : p.Settled) :
    p.collect.Settled ∧ p.collect.carried = p.carried ∧ p.collect.finished = p.finished := by
  refine ⟨⟨?_, h.events⟩, List.filterMap_map .., ?_⟩
  · intro g hg
    obtain ⟨f, hf, rfl⟩ := List.mem_map.mp hg
    -- There is no delivery to be taken, so the view does not change.
    have hview : f.takeCompleted.2.view = f.view := by
      show { f.view with completed := none } = f.view
      rw [← (h.fetchers f hf).completed]
      rfl
    rcases h.fetchers f hf with hrest | ⟨s, hcarries⟩
    · exact .inl (hview.trans hrest)
    · exact .inr ⟨s, hview.trans hcarries⟩
  · have hnone : p.fetchers.filterMap (·.takeCompleted.1) = [] :=
      List.filterMap_eq_nil_iff.mpr fun f hf => (h.fetchers f hf).completed
    show p.finished ++ p.fetchers.filterMap (·.takeCompleted.1) = _
    rw [hnone, List.append_nil]

/-- A salvage only collects deliveries, or it splits the finished layers, drops all others and
leaves nothing. -/
theorem salvage_cases {p q : Pool} {s : Salvage} (h : p.salvage = .ok (s, q)) :
    (s = {} ∧ q = p.collect) ∨
      ∃ beyond, s.usable ++ beyond = deliveriesByLevel p.collect.finished ∧
        s.dropped = byLevel (beyond.map Delivery.segment ++ p.collect.carried ++ p.collect.queue) ∧
        q = p.collect.stop := by
  unfold salvage at h
  simp only at h
  split at h
  · obtain ⟨rfl, rfl⟩ := Prod.mk.inj (Except.ok.inj h)
    exact .inl ⟨rfl, rfl⟩
  · rename_i base hbase
    obtain ⟨⟨usable, beyond⟩, hsplit, h⟩ := Checked.bind_eq_ok_iff.mp h
    obtain ⟨rfl, rfl⟩ := Prod.mk.inj (Except.ok.inj h)
    refine .inr ⟨beyond, splitAtGap_append hsplit, ?_, rfl⟩
    show byLevel (_ ++ (p.collect.fetchers.filter Fetcher.isBusy).filterMap Fetcher.segment? ++
      p.collect.queue) = _
    rw [filterMap_busy]
    rfl

/-- A salvage saves and drops layers, and all others stay. -/
theorem salvage_spec {p q : Pool} (h : p.Settled) {s : Salvage}
    (hsalvage : p.salvage = .ok (s, q)) :
    q.Settled ∧ p.contents.Perm (q.contents ++ s.usable.map Delivery.segment ++ s.dropped) := by
  obtain ⟨hsettled, hcarried, hfinished⟩ := collect_spec h
  have hsame : p.collect.contents = p.contents := by
    rw [contents, hcarried, arrived, hfinished]
    rfl
  rcases salvage_cases hsalvage with ⟨rfl, rfl⟩ | ⟨beyond, hparts, hdropped, rfl⟩
  · refine ⟨hsettled, ?_⟩
    -- Nothing is saved and nothing is dropped.
    rw [hsame]
    simp
  · -- Nothing is left, and the finished layers are split into two parts.
    obtain ⟨hstopped, hempty⟩ := stop_spec p.collect
    refine ⟨hstopped, ?_⟩
    have harrived : p.collect.arrived.Perm
        (s.usable.map Delivery.segment ++ beyond.map Delivery.segment) := by
      rw [← List.map_append, hparts]
      exact ((deliveriesByLevel_perm _).map Delivery.segment).symm
    have hperm := byLevel_perm (beyond.map Delivery.segment ++
      p.collect.carried ++ p.collect.queue)
    rw [hempty, hdropped, ← hsame, List.perm_iff_count]
    intro x
    have harrivedCount := harrived.count_eq x
    have hpermCount := hperm.count_eq x
    simp only [contents, List.nil_append, List.count_append] at harrivedCount hpermCount ⊢
    omega

/-! ### Runs -/

/-- A new fetcher is at rest. -/
theorem atRest_ofSettings {id : Nat} {settings : FetchSettings} {f : Fetcher}
    (h : Fetcher.ofSettings id settings = .ok f) : f.AtRest := by
  obtain ⟨window, -, h⟩ := Checked.bind_eq_ok_iff.mp h
  obtain rfl := Except.ok.inj h
  rfl

/-- A new pool is nothing but its fetchers, which are at rest. -/
theorem ofSettings_eq {count : Nat} {settings : FetchSettings} {p : Pool}
    (h : Pool.ofSettings count settings = .ok (.ok p)) :
    ∃ fetchers, p = { fetchers } ∧ ∀ f ∈ fetchers, f.AtRest := by
  unfold Pool.ofSettings at h
  split at h
  · cases h
  · obtain ⟨fetchers, hfetchers, h⟩ := Checked.bind_eq_ok_iff.mp h
    obtain rfl := Except.ok.inj (Except.ok.inj h)
    refine ⟨fetchers, rfl, ?_⟩
    intro f hf
    obtain ⟨id, -, hid⟩ := (Checked.mapM_eq_ok hfetchers).2 f hf
    exact atRest_ofSettings hid

/-- A new pool is settled, holds nothing and has nothing to tell. -/
theorem ofSettings_spec {count : Nat} {settings : FetchSettings} {p : Pool}
    (h : Pool.ofSettings count settings = .ok (.ok p)) :
    p.Settled ∧ p.contents = [] ∧ p.events = [] := by
  obtain ⟨fetchers, rfl, hrest⟩ := ofSettings_eq h
  have hcarried : fetchers.filterMap Fetcher.carried? = [] :=
    List.filterMap_eq_nil_iff.mpr fun f hf => (hrest f hf).carried?
  refine ⟨⟨fun f hf => .inl (hrest f hf), .inl rfl⟩, ?_, rfl⟩
  show [] ++ fetchers.filterMap Fetcher.carried? ++ [] = []
  rw [hcarried]
  rfl

/-- The account of a new pool is balanced. -/
theorem balanced_ofSettings {count : Nat} {settings : FetchSettings} {p : Pool}
    (h : Pool.ofSettings count settings = .ok (.ok p)) : Balanced p {} := by
  obtain ⟨hsettled, hempty, -⟩ := ofSettings_spec h
  refine ⟨hsettled, ?_⟩
  rw [hempty]
  exact List.Perm.refl _

/-- A call that adds some layers and hands out others keeps the balance. -/
theorem Balanced.step {p q : Pool} {a b : Account} (h : Balanced p a) (hq : q.Settled)
    (added left : List Segment) (hmoved : (added ++ p.contents).Perm (q.contents ++ left))
    (hadded : b.enqueued = added ++ a.enqueued) (hleft : b.gone.Perm (left ++ a.gone)) :
    Balanced q b := by
  refine ⟨hq, ?_⟩
  calc b.enqueued
      = added ++ a.enqueued := hadded
    _ ~ added ++ (p.contents ++ a.gone) := h.balance.append_left added
    _ ~ (added ++ p.contents) ++ a.gone := by rw [List.append_assoc]
    _ ~ (q.contents ++ left) ++ a.gone := hmoved.append_right a.gone
    _ ~ q.contents ++ (left ++ a.gone) := by rw [List.append_assoc]
    _ ~ q.contents ++ b.gone := hleft.symm.append_left q.contents

/-- Every call leaves the pool settled. -/
theorem Settled.perform {p q : Pool} {a b : Account} (h : p.Settled) {call : Call}
    (hcall : p.perform a call = .ok (b, q)) : q.Settled := by
  -- One lemma for each call, all of them about the pool alone.
  cases call with
  | enqueue now batch =>
      cases hcall
      exact (enqueue_spec h now batch).1
  | poll now id w =>
      obtain ⟨⟨e, r⟩, hpoll, hcall⟩ := Checked.bind_eq_ok_iff.mp hcall
      obtain ⟨-, rfl⟩ := Prod.mk.inj (Except.ok.inj hcall)
      exact (poll_turn h hpoll).1
  | takeFinished =>
      cases hcall
      exact (takeFinished_spec h).1
  | salvage =>
      obtain ⟨⟨s, r⟩, hsalvage, hcall⟩ := Checked.bind_eq_ok_iff.mp hcall
      obtain ⟨-, rfl⟩ := Prod.mk.inj (Except.ok.inj hcall)
      exact (salvage_spec h hsalvage).1
  | stop =>
      cases hcall
      exact (stop_spec p).1
  | sent closed =>
      cases hcall
      exact settled_afterSent h closed

/-- Every call keeps the balance. -/
theorem perform_balanced {p q : Pool} {a b : Account} (h : Balanced p a) {call : Call}
    (hcall : p.perform a call = .ok (b, q)) : Balanced q b := by
  cases call with
  | enqueue now batch =>
      cases hcall
      obtain ⟨hq, hcontents⟩ := enqueue_spec h.settled now batch
      refine h.step hq batch [] ?_ rfl (List.Perm.refl _)
      rw [List.append_nil]
      exact hcontents.symm
  | poll now id w =>
      obtain ⟨⟨e, r⟩, hpoll, hcall⟩ := Checked.bind_eq_ok_iff.mp hcall
      obtain ⟨rfl, rfl⟩ := Prod.mk.inj (Except.ok.inj hcall)
      obtain ⟨hq, hturn⟩ := poll_turn h.settled hpoll
      -- What the turn reports leaves the pool.
      refine h.step hq [] (reported e) hturn.contents_perm rfl ?_
      simp only [Account.gone, List.append_assoc]
      exact List.perm_append_comm_assoc ..
  | takeFinished =>
      cases hcall
      obtain ⟨hq, hcontents⟩ := takeFinished_spec h.settled
      refine h.step hq [] (p.takeFinished.1.map Delivery.segment) hcontents rfl ?_
      simp only [Account.gone, List.append_assoc, Pool.takeFinished]
      exact List.Perm.refl _
  | salvage =>
      obtain ⟨⟨s, r⟩, hsalvage, hcall⟩ := Checked.bind_eq_ok_iff.mp hcall
      obtain ⟨rfl, rfl⟩ := Prod.mk.inj (Except.ok.inj hcall)
      obtain ⟨hq, hcontents⟩ := salvage_spec h.settled hsalvage
      rw [List.append_assoc] at hcontents
      refine h.step hq [] (s.usable.map Delivery.segment ++ s.dropped) hcontents rfl ?_
      -- What is usable and what was dropped are kept apart on the account.
      rw [List.perm_iff_count]
      intro x
      simp only [Account.gone, List.count_append]
      omega
  | stop =>
      cases hcall
      obtain ⟨hq, hempty⟩ := stop_spec p
      -- All that the pool holds is discarded.
      refine h.step hq [] p.contents ?_ rfl ?_
      · rw [hempty]
      · rw [List.perm_iff_count]
        intro x
        simp only [Account.gone, List.count_append]
        omega
  | sent closed =>
      cases hcall
      -- Handing interests over moves no layer.
      refine h.step (settled_afterSent h.settled closed) [] [] ?_ rfl (List.Perm.refl _)
      rw [List.nil_append, List.append_nil, contents_afterSent]

/-- Any sequence of calls keeps the balance. -/
theorem performAll_balanced (calls : List Call) {p q : Pool} {a b : Account}
    (h : Balanced p a) (hcalls : p.performAll a calls = .ok (b, q)) : Balanced q b := by
  induction calls generalizing p a with
  | nil =>
      cases hcalls
      exact h
  | cons call rest ih =>
      obtain ⟨⟨a', p'⟩, hcall, hcalls⟩ := Checked.bind_eq_ok_iff.mp hcalls
      exact ih (perform_balanced h hcall) hcalls

/-- Calls that have succeeded can be followed by others. -/
theorem performAll_append {p q r : Pool} {a b c : Account} {calls later : List Call}
    (hcalls : p.performAll a calls = .ok (b, q)) (hlater : q.performAll b later = .ok (c, r)) :
    p.performAll a (calls ++ later) = .ok (c, r) := by
  induction calls generalizing p a with
  | nil =>
      cases hcalls
      exact hlater
  | cons call rest ih =>
      obtain ⟨⟨a', p'⟩, hcall, hcalls⟩ := Checked.bind_eq_ok_iff.mp hcalls
      exact Checked.bind_eq_ok_iff.mpr ⟨(a', p'), hcall, ih hcalls⟩

/-- **No layer is lost or duplicated.** After any sequence of calls of a new pool, the layers that
were queued are the disjoint union of those that are still queued, those that a fetcher is busy
with, those that have finished, and those that have left the pool, each in one way. A fetcher that
is not busy has nothing to deliver and nothing to tell, so handing out overwrites nothing. If no
layer was queued twice, then none is reported twice, neither in one way nor in two. -/
theorem conservation {count : Nat} {settings : FetchSettings} {p q : Pool} {a : Account}
    (hnew : Pool.ofSettings count settings = .ok (.ok p)) {calls : List Call}
    (hcalls : p.performAll {} calls = .ok (a, q)) :
    a.enqueued.Perm (q.queue ++ q.carried ++ q.finished.map Delivery.segment ++
        (a.returned ++ a.shed ++ a.dropped ++ a.discarded)) ∧
      (∀ f ∈ q.fetchers, f.isBusy = false → f.completed = none ∧ f.events = []) ∧
      (a.enqueued.Nodup → (a.returned ++ a.shed ++ a.dropped ++ a.discarded).Nodup) := by
  obtain ⟨hq, hbalance⟩ := performAll_balanced calls (balanced_ofSettings hnew) hcalls
  refine ⟨hbalance, fun f hf _ => ⟨(hq.fetchers f hf).completed, (hq.fetchers f hf).events⟩, ?_⟩
  intro honce
  exact (List.nodup_append.mp (hbalance.nodup_iff.mp honce)).2.1

/-- A layer of one segment. -/
def sampleLayer (level : Nat) : Segment :=
  { uri := "http://a/l" ++ toString level, size := none, duration := 1000, level, bandwidth := 1,
    representation := "r", number := 0 }

/-- The first of three layers arrives and is empty, the second one is refused while the third one
is running, and the end of the batch is told. -/
def sampleCalls : List Call :=
  [.enqueue 0 [sampleLayer 2, sampleLayer 0, sampleLayer 1], .sent (fun _ => false),
    .poll 10 0 (.reply ⟨⟨(sampleLayer 0).name, 0⟩, .data (Length.encode 0)⟩),
    .poll 20 1 (.reply ⟨⟨(sampleLayer 1).name, 0⟩, .nack .rejected⟩),
    .poll 30 0 .tick, .takeFinished]

/-- The sample calls return the first layer and report the others as shed. -/
theorem conservation_sample :
    ∃ p a q, Pool.ofSettings 2 {} = .ok (.ok p) ∧ p.performAll {} sampleCalls = .ok (a, q) ∧
      a.returned = [sampleLayer 0] ∧ a.shed = [sampleLayer 1, sampleLayer 2] ∧
      a.enqueued.Perm (q.queue ++ q.carried ++ q.finished.map Delivery.segment ++
        (a.returned ++ a.shed ++ a.dropped ++ a.discarded)) := by
  have hvalue : ((Pool.ofSettings 2 {}).toOption.bind fun r => r.toOption.bind fun p =>
      (p.performAll {} sampleCalls).toOption.map fun r => (r.1.returned, r.1.shed)) =
      some ([sampleLayer 0], [sampleLayer 1, sampleLayer 2]) := by decide +kernel
  obtain ⟨r, hr, hvalue⟩ := Option.bind_eq_some_iff.mp hvalue
  obtain ⟨p, hp, hvalue⟩ := Option.bind_eq_some_iff.mp hvalue
  obtain ⟨⟨a, q⟩, hq, hpair⟩ := Option.map_eq_some_iff.mp hvalue
  obtain ⟨hreturned, hshed⟩ := Prod.mk.inj hpair
  have hnew : Pool.ofSettings 2 {} = .ok (.ok p) := by
    rw [Checked.eq_ok_of_toOption hr, Checked.eq_ok_of_toOption hp]
  have hcalls := Checked.eq_ok_of_toOption hq
  exact ⟨p, a, q, hnew, hcalls, hreturned, hshed, (conservation hnew hcalls).1⟩

end LayerCast.Pool
