import LayerCast.Proofs.Pool.Settled

/-!
# `LayerCast.Proofs.Pool.Turn`: what one turn of a pool does

A pool is driven by turns (`Pool.poll`). If it has something to tell, that is told. Else one of its
busy fetchers handles one thing that has happened to it, what this fetcher tells is carried out at
once, and what the pool then has to tell is told.

`Turn p e q` lists what a turn that tells `e` can do to the layers of a settled pool:

* `announced`: the pool tells what it still had to tell, and nothing moves.
* `moved`: queued layers are started, or nothing moves.
* `arrived`: a carried layer has become a delivery, and queued layers are started, so that none
  waits while all fetchers rest.
* `shed`: a carried layer was rejected, and all layers from its level on are gone.

`poll_cases` says what a poll comes to in terms of the pool's own functions. From it `poll_turn` has
that every turn is one of the four and leaves the pool settled. All that is said about the layers in
runs of a pool follows from this.
-/

set_option autoImplicit false

namespace LayerCast

/-- A fetcher whose news were taken. -/
def Fetcher.heard (f : Fetcher) : Fetcher := { f with events := [] }

/-- A fetcher that has handed its interests to its face. -/
def Fetcher.sent (f : Fetcher) (closed : Bool) : Fetcher :=
  { f with outbox := [], faceClosed := f.faceClosed || closed }

/-- What was heard is gone from the view, and nothing else. -/
theorem Fetcher.view_heard (f : Fetcher) : f.heard.view = { f.view with events := [] } := rfl

namespace Pool

/-! ### What a turn does -/

/-- A pool whose fetchers have handed their interests to the faces. That may have shown for some of
the faces that they are closed. -/
def afterSent (p : Pool) (closed : Nat → Bool) : Pool :=
  { p with fetchers := p.fetchers.mapIdx fun id f => f.sent (closed id) }

/-- What a turn does to the layers of a pool, and what it tells. -/
inductive Turn (p : Pool) : Option PoolEvent → Pool → Prop
  /-- The pool tells that a batch is complete, which it had not told yet. -/
  | announced (pending : p.events = [.batchComplete]) :
      Turn p (some .batchComplete) { p with events := [] }
  /-- Queued layers are started, if any. -/
  | moved {q : Pool} (started : List Segment) (silent : p.events = []) (told : q.events = [])
      (queue : p.queue = started ++ q.queue) (carried : q.carried.Perm (started ++ p.carried))
      (finished : q.finished = p.finished) : Turn p none q
  /-- A carried layer arrives, and queued layers are started, if any. -/
  | arrived {q : Pool} (d : Delivery) (rest started : List Segment) (silent : p.events = [])
      (told : q.events = []) (held : p.carried.Perm (d.segment :: rest))
      (queue : p.queue = started ++ q.queue) (carried : q.carried.Perm (started ++ rest))
      (finished : q.finished = p.finished ++ [d]) (working : q.Working) :
      Turn p (if q.isIdle then some .batchComplete else none) q
  /-- A carried layer is rejected, and the layers from its level on are shed. -/
  | shed {q : Pool} (failed : Segment) (rest shed : List Segment) (silent : p.events = [])
      (told : q.events = if q.isIdle then [.batchComplete] else [])
      (held : p.carried.Perm (failed :: rest))
      (gone : shed.Perm (p.queue ++ rest.filter (failed.level ≤ ·.level) ++
        p.arrived.filter (failed.level ≤ ·.level)))
      (queue : q.queue = [])
      (carried : q.carried.Perm (rest.filter (·.level < failed.level)))
      (finished : q.finished = p.finished.filter (·.segment.level < failed.level)) :
      Turn p (some (.layersShed failed shed)) q

/-- A pool is settled whether its interests are sent or not. -/
theorem settled_afterSent {p : Pool} (h : p.Settled) (closed : Nat → Bool) :
    (p.afterSent closed).Settled := by
  refine ⟨fun g hg => ?_, h.events⟩
  obtain ⟨id, hid, rfl⟩ := List.mem_mapIdx.mp hg
  exact h.fetchers p.fetchers[id] (List.getElem_mem hid)

/-- To send interests changes nothing about what is carried. -/
theorem carried_afterSent (p : Pool) (closed : Nat → Bool) :
    (p.afterSent closed).carried = p.carried := by
  -- Along the fetchers, for any faces that are closed.
  have hall : ∀ (fetchers : List Fetcher) (closed : Nat → Bool),
      (fetchers.mapIdx fun id f => f.sent (closed id)).filterMap Fetcher.carried? =
        fetchers.filterMap Fetcher.carried? := by
    intro fetchers
    induction fetchers with
    | nil => intro closed; rfl
    | cons f rest ih =>
        intro closed
        have hrest := ih fun id => closed (id + 1)
        rw [List.mapIdx_cons, List.filterMap_cons, List.filterMap_cons, hrest]
        rfl
  exact hall p.fetchers closed

/-! ### Telling -/

/-- Without an event nothing is announced. -/
theorem announce_nil {p : Pool} (h : p.events = []) : p.announce = (none, p) := by
  rw [announce, takeEvent?, h]

/-- The oldest event is announced. -/
theorem announce_cons {p : Pool} {e : PoolEvent} {rest : List PoolEvent}
    (h : p.events = e :: rest) : p.announce = (some e, { p with events := rest }) := by
  rw [announce, takeEvent?, h]

/-- Two pools with the same layers in the same places. -/
structure SameLayers (p q : Pool) : Prop where
  fetchers : q.fetchers = p.fetchers
  queue : q.queue = p.queue
  finished : q.finished = p.finished

/-- The end of a batch is told where nothing is left to do. -/
theorem announce_checkComplete {p : Pool} (h : p.events = []) :
    ∃ q, p.checkComplete.announce = (if q.isIdle then some .batchComplete else none, q) ∧
      SameLayers p q ∧ q.events = [] := by
  unfold checkComplete
  split
  · rename_i hidle
    have hemit : ({ p with base := none }.emit .batchComplete).events = [.batchComplete] := by
      show p.events ++ [.batchComplete] = _
      rw [h]
      rfl
    have hidle' : ({ p with base := none, events := [] } : Pool).isIdle = true := hidle
    refine ⟨{ p with base := none, events := [] }, ?_, ⟨rfl, rfl, rfl⟩, rfl⟩
    rw [announce_cons hemit, if_pos hidle']
    rfl
  · rename_i hbusy
    exact ⟨p, by rw [announce_nil h, if_neg hbusy], ⟨rfl, rfl, rfl⟩, h⟩

/-- What is emitted is told at once, and the end of a batch waits for the next turn. -/
theorem announce_emit {p : Pool} (h : p.events = []) (e : PoolEvent) :
    ∃ q, (p.emit e).checkComplete.announce = (some e, q) ∧
      SameLayers p q ∧ q.events = if q.isIdle then [.batchComplete] else [] := by
  have hemit : (p.emit e).events = [e] := by
    show p.events ++ [e] = _
    rw [h]
    rfl
  unfold checkComplete
  split
  · -- Two events are there: the first one is told, and the end of the batch stays.
    rename_i hidle
    have hboth : ({ p.emit e with base := none }.emit .batchComplete).events =
        [e, .batchComplete] := by
      show (p.emit e).events ++ [.batchComplete] = _
      rw [hemit]
      rfl
    have hidle' : ({ p with base := none, events := [.batchComplete] } : Pool).isIdle = true :=
      hidle
    refine ⟨{ p with base := none, events := [.batchComplete] }, ?_, ⟨rfl, rfl, rfl⟩, ?_⟩
    · rw [announce_cons hboth]
      rfl
    · rw [if_pos hidle']
  · rename_i hbusy
    -- Only the one event is there.
    have hbusy' : ¬({ p with events := [] } : Pool).isIdle = true := hbusy
    refine ⟨{ p with events := [] }, ?_, ⟨rfl, rfl, rfl⟩, ?_⟩
    · rw [announce_cons hemit]
      rfl
    · rw [if_neg hbusy']

/-- A fetcher without news is put in its place. -/
theorem listen_nil {p : Pool} {f : Fetcher} (h : f.events = []) (now id : Nat) :
    p.listen now id f = p.place id f := by
  rw [listen, Fetcher.takeEvent?, h]

/-- The news of a fetcher are carried out with the fetcher in its place. -/
theorem listen_cons {p : Pool} {f : Fetcher} {e : FetchEvent} (h : f.events = [e])
    (now id : Nat) :
    p.listen now id f = (p.place id f.heard).onEvent now id e := by
  rw [listen, Fetcher.takeEvent?, h]
  rfl

/-- A fetcher that was put in place is found there. -/
theorem getElem?_place {p : Pool} {id : Nat} {f : Fetcher} (h : p.fetchers[id]? = some f)
    (g : Fetcher) : (p.place id g).fetchers[id]? = some g := by
  obtain ⟨hid, -⟩ := List.getElem?_eq_some_iff.mp h
  exact List.getElem?_set_self hid

/-- Of two fetchers in one place the later one stays. -/
theorem place_place (p : Pool) (id : Nat) (f g : Fetcher) :
    (p.place id f).place id g = p.place id g := by
  unfold place
  rw [List.set_set]

/-- The pool with a delivery and a window taken from a fetcher, which is at rest then. -/
def collected (p : Pool) (id : Nat) (f : Fetcher) : Pool :=
  { p.place id f.takeCompleted.2.releaseWindow.2.reset with
    finished := p.finished ++ f.completed.toList
    pooled := f.window.or p.pooled
    lastReleased := f.window.or p.lastReleased }

/-- When a transfer has ended, its delivery and window are taken, segments are handed out again, and
the batch may be complete. -/
theorem onFinished_place {p : Pool} {id : Nat} {f g : Fetcher} (h : p.fetchers[id]? = some g)
    (now : Nat) :
    (p.place id f).onEvent now id .finished = ((p.collected id f).dispatch now).checkComplete := by
  rw [onEvent, getElem?_place h, collected,
    ← place_place p id f f.takeCompleted.2.releaseWindow.2.reset]
  rfl

/-- A fetcher that was refused its segment is reset, its layer and those above are shed, and the
pool tells which. -/
theorem onRejected_place {p : Pool} {id : Nat} {f g : Fetcher} (h : p.fetchers[id]? = some g)
    {s : Segment} (hs : f.segment? = some s) (now : Nat) :
    (p.place id f).onEvent now id .rejected =
      (((p.place id f.reset).shedFrom s.level).2.emit
        (.layersShed s ((p.place id f.reset).shedFrom s.level).1)).checkComplete := by
  rw [onEvent, getElem?_place h, ← place_place p id f f.reset]
  simp only [onRejected, hs]
  rfl

/-! ### Turns of a fetcher -/

section
variable {p : Pool} {now id : Nat} {f g : Fetcher} {s : Segment}

/-- A fetcher goes on without news. -/
theorem turn_of_running (h : p.Settled) (silent : p.events = []) (hf : p.fetchers[id]? = some f)
    (hcarries : f.Carries s) (hview : g.view = f.view) :
    (p.listen now id g).announce.2.Settled ∧
      Turn p (p.listen now id g).announce.1 (p.listen now id g).announce.2 := by
  have hg : g.Carries s := hview.trans hcarries
  have hsilent : (p.place id g).events = [] := silent
  rw [listen_nil (congrArg Fetcher.View.events hg), announce_nil hsilent]
  refine ⟨⟨settled_set h.fetchers id (.inr ⟨s, hg⟩), .inl silent⟩, ?_⟩
  refine .moved [] silent silent rfl ?_ rfl
  exact (carried_set_of_carries hf hg).trans (carried_perm hf hcarries).symm

/-- A fetcher goes on and says that it only drains: what waits may start. -/
theorem turn_of_drained (h : p.Settled) (silent : p.events = []) (hf : p.fetchers[id]? = some f)
    (hcarries : f.Carries s)
    (hview : g.view = { f.view with events := f.view.events ++ [.soonFinished] }) :
    (p.listen now id g).announce.2.Settled ∧
      Turn p (p.listen now id g).announce.1 (p.listen now id g).announce.2 := by
  rw [hcarries] at hview
  have hg : g.heard.Carries s := by
    rw [Fetcher.Carries, Fetcher.view_heard, hview]
  have hplaced := settled_set h.fetchers id (.inr ⟨s, hg⟩)
  obtain ⟨started, hstarted⟩ :=
    dispatch_spec (p := p.place id g.heard) hplaced now
  -- The fetcher stays busy. Others may be free for what waits.
  have honEvent : (p.place id g.heard).onEvent now id .soonFinished =
      (p.place id g.heard).dispatch now := by
    rw [onEvent, getElem?_place hf]
  have hsilent := hstarted.events.trans silent
  rw [listen_cons (congrArg Fetcher.View.events hview), honEvent, announce_nil hsilent]
  refine ⟨⟨hstarted.settled, .inl hsilent⟩, ?_⟩
  refine .moved started silent hsilent hstarted.queue ?_ hstarted.finished
  have hsame := (carried_set_of_carries hf hg).trans (carried_perm hf hcarries).symm
  exact hstarted.carried.trans (hsame.append_left started)

/-- A fetcher has finished: its delivery is taken, and what waits may start. -/
theorem turn_of_finished (h : p.Settled) (silent : p.events = []) (hf : p.fetchers[id]? = some f)
    (hcarries : f.Carries s) {d : Delivery} (hd : f.view.segment = some d.segment)
    (hview : g.view = { f.view with
      phase := .finished, events := f.view.events ++ [.finished], completed := some d }) :
    (p.listen now id g).announce.2.Settled ∧
      Turn p (p.listen now id g).announce.1 (p.listen now id g).announce.2 := by
  rw [hcarries] at hview hd
  obtain rfl : s = d.segment := Option.some.inj hd
  have hcompleted : g.heard.completed = some d := congrArg Fetcher.View.completed hview
  -- The pool with the delivery taken.
  generalize hr : p.collected id g.heard = r
  have hrest := Fetcher.atRest_reset g.heard.takeCompleted.2.releaseWindow.2
  have hfetchers : r.fetchers =
      p.fetchers.set id g.heard.takeCompleted.2.releaseWindow.2.reset := hr ▸ rfl
  have hfinished : r.finished = p.finished ++ [d] := by
    rw [← hr]
    show p.finished ++ g.heard.completed.toList = _
    rw [hcompleted]
    rfl
  have hsettled : ∀ x ∈ r.fetchers, x.IsSettled := by
    rw [hfetchers]
    exact settled_set h.fetchers id (.inl hrest)
  obtain ⟨started, hstarted⟩ := dispatch_spec hsettled now
  have hsilent : (r.dispatch now).events = [] := hstarted.events.trans (hr ▸ silent)
  have hcarried : r.carried.Perm (p.carriedBeside id) := by
    rw [carried, hfetchers]
    exact carried_set_of_atRest hf hrest
  -- The end of the batch may be told with it or not. The layers are the same then.
  obtain ⟨q, hannounce, hsame, hqsilent⟩ := announce_checkComplete hsilent
  rw [listen_cons (congrArg Fetcher.View.events hview), onFinished_place hf, hr, hannounce]
  refine ⟨⟨hsame.fetchers ▸ hstarted.settled, .inl hqsilent⟩, ?_⟩
  refine .arrived d (p.carriedBeside id) started silent hqsilent (carried_perm hf hcarries)
    ?_ ?_ ?_ ?_
  · rw [hsame.queue]
    exact Eq.trans (hr ▸ rfl) hstarted.queue
  · rw [carried, hsame.fetchers]
    exact hstarted.carried.trans (hcarried.append_left started)
  · rw [hsame.finished, hstarted.finished, hfinished]
  · -- There is at least the fetcher that has finished.
    have hsome : r.fetchers ≠ [] := by
      rw [hfetchers, Ne, List.set_eq_nil_iff]
      rintro hnone
      rw [hnone] at hf
      cases hf
    rw [Working, hsame.queue, carried, hsame.fetchers]
    exact dispatch_working hsettled hsome now

/-- A fetcher was rejected: its layer is shed with all layers from its level on. -/
theorem turn_of_rejected (h : p.Settled) (silent : p.events = []) (hf : p.fetchers[id]? = some f)
    (hcarries : f.Carries s)
    (hview : g.view = { f.view with phase := .aborted, events := f.view.events ++ [.rejected] }) :
    (p.listen now id g).announce.2.Settled ∧
      Turn p (p.listen now id g).announce.1 (p.listen now id g).announce.2 := by
  rw [hcarries] at hview
  have hsegment : g.heard.segment? = some s := congrArg Fetcher.View.segment hview
  -- The pool with the fetcher at rest, and what shedding does to it.
  generalize hr : p.place id g.heard.reset = r
  have hfetchers : r.fetchers = p.fetchers.set id g.heard.reset := hr ▸ rfl
  have hsettled : ∀ x ∈ r.fetchers, x.IsSettled := by
    rw [hfetchers]
    exact settled_set h.fetchers id (.inl (Fetcher.atRest_reset _))
  have hcarried : r.carried.Perm (p.carriedBeside id) := by
    rw [carried, hfetchers]
    exact carried_set_of_atRest hf (Fetcher.atRest_reset _)
  have hshed := shedFrom_spec hsettled s.level
  have hsilent : (r.shedFrom s.level).2.events = [] := hshed.events.trans (hr ▸ silent)
  -- If nothing is left, the end of the batch is still to be told.
  obtain ⟨q, hannounce, hsame, htold⟩ :=
    announce_emit hsilent (.layersShed s (r.shedFrom s.level).1)
  rw [listen_cons (congrArg Fetcher.View.events hview), onRejected_place hf hsegment, hr, hannounce]
  refine ⟨⟨hsame.fetchers ▸ hshed.settled, ?_⟩, ?_⟩
  · rw [htold]
    split
    · exact .inr rfl
    · exact .inl rfl
  · refine .shed s (p.carriedBeside id) _ silent htold (carried_perm hf hcarries) ?_ ?_ ?_ ?_
    · refine hshed.shed.trans ?_
      have harrived : r.arrived = p.arrived := hr ▸ rfl
      have hqueue : r.queue = p.queue := hr ▸ rfl
      rw [harrived, hqueue]
      exact ((hcarried.filter _).append_left p.queue).append_right _
    · rw [hsame.queue, hshed.queue]
    · rw [carried, hsame.fetchers]
      show (r.shedFrom s.level).2.carried.Perm _
      rw [hshed.carried]
      exact hcarried.filter _
    · rw [hsame.finished, hshed.finished]
      exact hr ▸ rfl

end

/-! ### Turns of a pool -/

/-- What a poll of a pool comes to. -/
inductive Polled (p : Pool) (now id : Nat) (w : Wake) : Option PoolEvent → Pool → Prop
  /-- The pool tells the first thing that it still has to tell. -/
  | told (e : PoolEvent) (rest : List PoolEvent) (pending : p.events = e :: rest) :
      Polled p now id w (some e) { p with events := rest }
  /-- There is nothing to tell, and no busy fetcher that has its turn. -/
  | resting (silent : p.events = [])
      (free : ∀ f, p.fetchers[id]? = some f → f.isBusy = false) : Polled p now id w none p
  /-- There is nothing to tell, and a busy fetcher has its turn. -/
  | handled (f g : Fetcher) (silent : p.events = []) (there : p.fetchers[id]? = some f)
      (busy : f.isBusy = true) (wakes : f.handle now w = .ok g) :
      Polled p now id w (p.listen now id g).announce.1 (p.listen now id g).announce.2

/-- **A poll** is one of the three. -/
theorem poll_cases {p q : Pool} {now id : Nat} {w : Wake} {e : Option PoolEvent}
    (hpoll : p.poll now id w = .ok (e, q)) : Polled p now id w e q := by
  unfold poll takeEvent? at hpoll
  -- An event that is still to be told comes first, then the fetcher, if it is busy.
  cases hevents : p.events with
  | cons told rest =>
      rw [hevents] at hpoll
      cases hpoll
      exact .told told rest hevents
  | nil =>
      rw [hevents] at hpoll
      cases hf : p.fetchers[id]? with
      | none =>
          rw [hf] at hpoll
          cases hpoll
          exact .resting hevents fun f hsome => nomatch hf.symm.trans hsome
      | some f =>
          rw [hf] at hpoll
          simp only at hpoll
          split at hpoll
          · rename_i hbusy
            obtain ⟨g, hg, hpoll⟩ := Checked.bind_eq_ok_iff.mp hpoll
            obtain ⟨rfl, rfl⟩ := Prod.mk.inj (Except.ok.inj hpoll)
            exact .handled f g hevents hf hbusy hg
          · rename_i hfree
            cases hpoll
            refine .resting hevents fun g hg => ?_
            obtain rfl := Option.some.inj (hf.symm.trans hg)
            simpa using hfree

/-- **One turn of a settled pool** is one of the four, and leaves the pool settled. -/
theorem poll_turn {p q : Pool} (h : p.Settled) {now id : Nat} {w : Wake} {e : Option PoolEvent}
    (hpoll : p.poll now id w = .ok (e, q)) : q.Settled ∧ Turn p e q := by
  cases poll_cases hpoll with
  | told e rest pending =>
      -- All that can be pending is the end of a batch.
      rcases h.events with silent | hend
      · cases silent.symm.trans pending
      · obtain ⟨rfl, rfl⟩ := List.cons.inj (pending.symm.trans hend)
        exact ⟨⟨h.fetchers, .inl rfl⟩, .announced hend⟩
  | resting silent => exact ⟨h, .moved [] silent silent rfl (List.Perm.refl _) rfl⟩
  | handled f g silent there busy wakes =>
      obtain ⟨s, hcarries⟩ := (h.fetchers f (List.mem_of_getElem? there)).carries busy
      -- What the fetcher has come to decides which kind of turn this is.
      have houtcome := Fetcher.handle_outcome busy wakes
      generalize hview : g.view = v at houtcome
      cases houtcome with
      | running => exact turn_of_running h silent there hcarries hview
      | drained => exact turn_of_drained h silent there hcarries hview
      | rejected => exact turn_of_rejected h silent there hcarries hview
      | finished d hd => exact turn_of_finished h silent there hcarries hd hview

end Pool

end LayerCast
