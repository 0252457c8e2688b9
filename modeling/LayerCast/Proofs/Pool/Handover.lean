import LayerCast.Proofs.Pool.Conservation

/-!
# `LayerCast.Proofs.Pool.Handover`: windows are handed on

A fetcher that has finished leaves its congestion window to the pool, and a fetcher that starts
takes it or a copy of it. Fetchers that were refused, salvaged or stopped keep windows of their own.
Once a window was left these are of no use: they are replaced at the next start.

What matters for this is the `Lease` of a pool: the windows of its busy fetchers, in their places,
and the two windows that the pool has parked. `Lease.Lets` says how handing out changes it, and
`perform_lets` that every call is one of three things: the fetcher that has its turn handles what
happened to it, its window is parked if it has finished, and layers may be handed out.

`HandedOn` is the invariant, with a record beside the pool of the fetcher that was the last one to
finish: the pool has parked the window of this fetcher and no other. `window_handed_on` is what
follows for every layer that is started.
-/

set_option autoImplicit false

namespace LayerCast

/-! ### The window of a transfer -/

namespace Fetcher

/-- What a wake does to a transfer does not take its window away. -/
theorem Deed.window_isSome {s mid : Scene} {t : Transfer} {gain : Option (Nat × ByteArray)}
    (h : Deed s t gain mid) : mid.window.isSome = s.window.isSome := by
  cases h with
  | setback _ _ hwindow | part _ _ hwindow | length _ _ hwindow =>
      rcases hwindow with rfl | rfl
      · rfl
      · exact Option.isSome_map
  | nothing | duplicate | request | reject => rfl

/-- A fetcher that carries a layer keeps a window whatever happens to it. -/
theorem Carries.window_isSome {f g : Fetcher} {s : Segment} (h : f.Carries s) {now : Nat} {w : Wake}
    (hg : f.handle now w = .ok g) : g.window.isSome = f.window.isSome := by
  obtain ⟨t, ht, -⟩ := Option.map_eq_some_iff.mp h.segment?
  obtain ⟨mid, hdeed, hsequel⟩ := handle_comes (congrArg View.phase h) ht hg
  rw [← scene_window g, hsequel.keeps.2.2.1, hdeed.window_isSome, scene_window]

/-- A transfer starts with the window that the fetcher holds, or else with a fresh one. -/
theorem window_begin (f : Fetcher) (now : Nat) (s : Segment) :
    (f.begin now s).window = some (f.window.getD f.freshWindow) := by
  unfold begin
  simp only [request, ChunkTable.attemptsOf_ofSize, mayRequest_zero, Bool.not_true,
    Bool.false_eq_true, if_false]
  split <;> rfl

/-- A free fetcher that is given the window that was left last, if there is one. -/
def equipped (f : Fetcher) (last : Option Window) : Fetcher :=
  match last with
  | some window => f.reset.installWindow window
  | none => f.reset

/-- The window of a running transfer, none of a fetcher that is free. -/
def held? (f : Fetcher) : Option (Option Window) := if f.isBusy then some f.window else none

/-- A busy fetcher holds its window. -/
theorem held?_of_busy {f : Fetcher} (h : f.isBusy = true) : f.held? = some f.window := if_pos h

/-- The window of a free fetcher does not count. -/
theorem held?_of_free {f : Fetcher} (h : f.isBusy = false) : f.held? = none := by
  rw [held?, h]
  rfl

end Fetcher

namespace Pool

/-! ### Leases -/

/-- The windows that matter to a pool. -/
structure Lease where
  /-- The windows of the running transfers, in the places of their fetchers. -/
  held : List (Option (Option Window))
  pooled : Option Window
  last : Option Window

/-- The windows that matter to this pool. -/
def lease (p : Pool) : Lease := ⟨p.fetchers.map Fetcher.held?, p.pooled, p.lastReleased⟩

/-- After layers were handed out, a running transfer has the window that it had before. Or it was
started, with the window that was left last if there is one. -/
structure Lease.Lets (x y : Lease) : Prop where
  held : ∀ (id : Nat) (window : Option Window), y.held[id]? = some (some window) →
    x.held[id]? = some (some window) ∨
      x.held[id]? = some none ∧ window.isSome ∧ ∀ w, x.last = some w → window = some w
  last : y.last = x.last
  pooled : y.pooled = x.pooled ∨ y.pooled = none

/-- The pool has parked the window of the fetcher that was the last one to finish, and every running
transfer has a window. -/
structure Lease.Parked (latest : Option Fetcher) (x : Lease) : Prop where
  running : ∀ window, some window ∈ x.held → window.isSome
  left : ∀ f, latest = some f → f.window.isSome
  last : x.last = latest.bind Fetcher.window
  pooled : x.pooled.or x.last = x.last

/-- Where nothing is handed out, every window stays. -/
theorem Lease.lets_refl (x : Lease) : x.Lets x := ⟨fun _ _ h => .inl h, rfl, .inl rfl⟩

/-- What is handed out does not change what is parked. -/
theorem Lease.Parked.lets {latest : Option Fetcher} {x y : Lease} (h : x.Parked latest)
    (hlets : x.Lets y) : y.Parked latest := by
  refine ⟨fun window hwindow => ?_, h.left, hlets.last.trans h.last, ?_⟩
  · obtain ⟨id, hid⟩ := List.getElem?_of_mem hwindow
    rcases hlets.held id window hid with hsame | ⟨-, hsome, -⟩
    · exact h.running window (List.mem_of_getElem? hsame)
    · exact hsome
  · rw [hlets.last]
    rcases hlets.pooled with hsame | hnone
    · rw [hsame]
      exact h.pooled
    · rw [hnone]
      rfl

/-- Where fetchers only become free, nothing is handed out. -/
theorem lets_of_map {p q : Pool} {change : Fetcher → Fetcher}
    (hchange : ∀ f, (change f).held? = f.held? ∨ (change f).held? = none)
    (hfetchers : q.fetchers = p.fetchers.map change) (hpooled : q.pooled = p.pooled)
    (hlast : q.lastReleased = p.lastReleased) : p.lease.Lets q.lease := by
  refine ⟨fun id window hq => .inl ?_, hlast, .inl hpooled⟩
  have hq : (q.fetchers.map Fetcher.held?)[id]? = some (some window) := hq
  rw [hfetchers, List.map_map, List.getElem?_map, Option.map_eq_some_iff] at hq
  obtain ⟨f, hf, hheld⟩ := hq
  show (p.fetchers.map Fetcher.held?)[id]? = some (some window)
  rw [List.getElem?_map, hf]
  rcases hchange f with hsame | hfree
  · exact congrArg some (hsame.symm.trans hheld)
  · rw [Function.comp_apply, hfree] at hheld
    cases hheld

@[simp] theorem lease_emit (p : Pool) (e : PoolEvent) : (p.emit e).lease = p.lease := rfl

@[simp] theorem lease_checkComplete (p : Pool) : p.checkComplete.lease = p.lease := by
  unfold checkComplete
  split <;> rfl

@[simp] theorem lease_announce (p : Pool) : p.announce.2.lease = p.lease := by
  unfold announce takeEvent?
  cases p.events <;> rfl

@[simp] theorem lease_collect (p : Pool) : p.collect.lease = p.lease := by
  simp only [lease, collect, List.map_map]
  rfl

@[simp] theorem lease_afterSent (p : Pool) (closed : Nat → Bool) :
    (p.afterSent closed).lease = p.lease := by
  have hheld : (p.afterSent closed).fetchers.map Fetcher.held? = p.fetchers.map Fetcher.held? := by
    refine List.ext_getElem? fun id => ?_
    simp only [afterSent, List.getElem?_map, List.getElem?_mapIdx, Option.map_map]
    rfl
  rw [lease, hheld]
  rfl

/-- Fetchers with the same window, busy or not, are one to a lease. -/
theorem lease_place {f g : Fetcher} (h : g.held? = f.held?) (p : Pool) (id : Nat) :
    (p.place id g).lease = (p.place id f).lease := by
  simp [lease, place, List.map_set, h]

/-! ### Handing out -/

/-- Handing out leaves a fetcher alone, or starts it with the window that was left last. -/
theorem getElem?_handOut (now : Nat) (last : Option Window) (fetchers : List Fetcher)
    (queue : List Segment) {pooled : Option Window} (hpooled : pooled.or last = last) (id : Nat)
    {g : Fetcher} (hg : (handOut now last fetchers queue pooled).1[id]? = some g) :
    fetchers[id]? = some g ∨
      ∃ f s, fetchers[id]? = some f ∧ f.isBusy = false ∧ g = (f.equipped last).begin now s := by
  -- Along the fetchers. The queue becomes shorter at each free one, and the pooled window goes to
  -- the first.
  induction fetchers generalizing queue pooled id with
  | nil =>
      rw [handOut] at hg
      cases hg
  | cons f rest ih =>
      cases queue with
      | nil => exact .inl hg
      | cons s queue =>
          by_cases hbusy : f.isBusy = true
          · rw [handOut, if_pos hbusy] at hg
            cases id with
            | zero => exact .inl hg
            | succ id => exact ih (s :: queue) hpooled id hg
          · rw [handOut, if_neg hbusy] at hg
            cases id with
            | zero =>
                obtain rfl := Option.some.inj hg
                refine .inr ⟨f, s, rfl, Bool.not_eq_true _ ▸ hbusy, ?_⟩
                rw [hpooled]
                rfl
            | succ id => exact ih queue rfl id hg

/-- Handing out leaves the parked window, or takes it. -/
theorem pooled_handOut (now : Nat) (last : Option Window) (fetchers : List Fetcher)
    (queue : List Segment) (pooled : Option Window) :
    (handOut now last fetchers queue pooled).2.2 = pooled ∨
      (handOut now last fetchers queue pooled).2.2 = none := by
  induction fetchers generalizing queue pooled with
  | nil => exact .inl rfl
  | cons f rest ih =>
      cases queue with
      | nil => exact .inl rfl
      | cons s queue =>
          by_cases hbusy : f.isBusy = true
          · rw [handOut, if_pos hbusy]
            exact ih (s :: queue) pooled
          · rw [handOut, if_neg hbusy]
            exact .inr ((ih queue none).elim id id)

/-- A transfer that is started has a window, that which was left last if there is one. -/
theorem window_started (f : Fetcher) (last : Option Window) (now : Nat) (s : Segment) :
    ((f.equipped last).begin now s).window.isSome ∧
      ∀ w, last = some w → ((f.equipped last).begin now s).window = some w := by
  rw [Fetcher.window_begin]
  refine ⟨rfl, ?_⟩
  rintro w rfl
  rfl

/-- Layers are handed out with the window that was left last. -/
theorem lets_dispatch {latest : Option Fetcher} {p : Pool} (h : p.lease.Parked latest)
    (now : Nat) : p.lease.Lets (p.dispatch now).lease := by
  refine ⟨?_, rfl, pooled_handOut now p.lastReleased p.fetchers p.queue p.pooled⟩
  intro id window hq
  obtain ⟨g, hg, hheld⟩ := Option.map_eq_some_iff.mp ((List.getElem?_map ..).symm.trans hq)
  have hplace : ∀ f, p.fetchers[id]? = some f → p.lease.held[id]? = some f.held? := fun f hf => by
    rw [lease, List.getElem?_map, hf]
    rfl
  rcases getElem?_handOut now p.lastReleased p.fetchers p.queue h.pooled id hg with
    hf | ⟨f, s, hf, hfree, rfl⟩
  · exact .inl ((hplace g hf).trans (congrArg some hheld))
  · -- The fetcher was free, and now it is busy with the window that was left last.
    have hbusy := (Fetcher.carries_begin (f.equipped p.lastReleased) now s).isBusy
    rw [Fetcher.held?_of_busy hbusy] at hheld
    obtain rfl := Option.some.inj hheld
    refine .inr ⟨?_, window_started f p.lastReleased now s⟩
    rw [hplace f hf, Fetcher.held?_of_free hfree]

/-! ### One call -/

/-- The fetcher that has its turn in a call, as it is once it has handled what happened to it. -/
def handled? (p : Pool) : Call → Option (Nat × Fetcher)
  | .poll now id w =>
    p.fetchers[id]?.bind fun f =>
      if p.events.isEmpty && f.isBusy then (f.handle now w).toOption.map fun g => (id, g)
      else none
  | _ => none

/-- The fetcher that finishes its layer in a call, as it is when it has just finished. -/
def finishing? (p : Pool) (call : Call) : Option Fetcher :=
  ((p.handled? call).map (·.2)).filter Fetcher.isFinished

/-- The pool in the middle of a call: the fetcher that has its turn has handled what happened to it,
its delivery and its window are taken if it has finished, and nothing was handed out yet. -/
def woken (p : Pool) (call : Call) : Pool :=
  match p.handled? call with
  | none => p
  | some (id, g) => if g.isFinished then p.collected id g else p.place id g

/-- A fetcher is started on a layer by a call: it is free in the middle of the call and busy
afterwards. -/
def Starts (p : Pool) (call : Call) (q : Pool) (id : Nat) : Prop :=
  (∃ f, (p.woken call).fetchers[id]? = some f ∧ f.isBusy = false) ∧
    ∃ g, q.fetchers[id]? = some g ∧ g.isBusy = true

section
variable {p q : Pool} {now id : Nat} {f g : Fetcher} {latest : Option Fetcher}

/-- A fetcher that goes on is put back as it is. -/
theorem woken_of_place {call : Call} (h : p.handled? call = some (id, g))
    (hend : g.isFinished = false) : p.woken call = p.place id g := by
  rw [woken, h]
  simp [hend]

/-- From a fetcher that has finished the delivery and the window are taken. -/
theorem woken_of_collected {call : Call} (h : p.handled? call = some (id, g))
    (hend : g.isFinished = true) : p.woken call = p.collected id g := by
  rw [woken, h]
  simp [hend]

/-- A poll gives the fetcher its turn, unless an event is still to be told. -/
theorem handled?_poll (silent : p.events = []) (there : p.fetchers[id]? = some f)
    (busy : f.isBusy = true) {w : Wake} (wakes : f.handle now w = .ok g) :
    p.handled? (.poll now id w) = some (id, g) := by
  simp [handled?, silent, there, busy, wakes, Except.toOption]

/-- A fetcher that has its turn was busy, and has handled something. -/
theorem of_handled? {call : Call} (h : p.handled? call = some (id, g)) :
    ∃ f now w, p.fetchers[id]? = some f ∧ f.isBusy = true ∧ f.handle now w = .ok g := by
  cases call with
  | poll now turn w =>
      obtain ⟨f, hf, h⟩ := Option.bind_eq_some_iff.mp h
      split at h
      · rename_i hturn
        obtain ⟨g', hg, h⟩ := Option.map_eq_some_iff.mp h
        obtain ⟨rfl, rfl⟩ := Prod.mk.inj h
        exact ⟨f, now, w, hf, (Bool.and_eq_true_iff.mp hturn).2, Checked.eq_ok_of_toOption hg⟩
      · cases h
  | enqueue | takeFinished | salvage | stop | sent => cases h

/-- A busy fetcher has handled something, and its news may lead to a handing out. -/
theorem handled_lets {call : Call} (h : p.Settled) (there : p.fetchers[id]? = some f)
    (busy : f.isBusy = true) {w : Wake} (wakes : f.handle now w = .ok g)
    (hcall : p.handled? call = some (id, g)) (hparked : (p.woken call).lease.Parked latest) :
    (p.woken call).lease.Lets (p.listen now id g).announce.2.lease := by
  obtain ⟨s, hcarries⟩ := (h.fetchers f (List.mem_of_getElem? there)).carries busy
  have houtcome := Fetcher.handle_outcome busy wakes
  rw [show f.view = _ from hcarries] at houtcome
  generalize hview : g.view = v at houtcome
  have hend : g.isFinished = (v.phase == .finished) := hview ▸ rfl
  have hfree : g.isBusy = (v.phase == .downloading) := hview ▸ rfl
  have hnews : g.events = v.events := hview ▸ rfl
  rw [lease_announce]
  cases houtcome with
  | running =>
      rw [woken_of_place hcall hend, listen_nil hnews]
      exact Lease.lets_refl _
  | drained =>
      have honEvent : (p.place id g.heard).onEvent now id .soonFinished =
          (p.place id g.heard).dispatch now := by
        rw [onEvent, getElem?_place there]
      have hheard : (p.place id g.heard).lease = (p.place id g).lease :=
        lease_place (show g.heard.held? = g.held? from rfl) p id
      rw [woken_of_place hcall hend, ← hheard] at hparked ⊢
      rw [listen_cons hnews, honEvent]
      exact lets_dispatch hparked now
  | rejected =>
      -- The fetcher is free, and others may become free with it.
      have hsegment : g.heard.segment? = some s := congrArg Fetcher.View.segment hview
      have hheld : g.heard.reset.held? = g.held? := (Fetcher.held?_of_free hfree).symm
      rw [woken_of_place hcall hend, listen_cons hnews, onRejected_place there hsegment,
        lease_checkComplete, lease_emit, ← lease_place hheld p id]
      refine lets_of_map (fun f => ?_) rfl rfl rfl
      split
      · exact .inr (Fetcher.held?_of_free f.atRest_reset.isBusy)
      · exact .inl rfl
  | finished d hd =>
      have hheard : p.collected id g.heard = p.collected id g := rfl
      rw [woken_of_collected hcall hend] at hparked ⊢
      rw [listen_cons hnews, onFinished_place there, hheard, lease_checkComplete]
      exact lets_dispatch hparked now

/-- **One call** wakes a fetcher at most, and then hands layers out, if at all. -/
theorem perform_lets {a b : Account} {call : Call} (h : p.Settled)
    (hcall : p.perform a call = .ok (b, q)) (hparked : (p.woken call).lease.Parked latest) :
    (p.woken call).lease.Lets q.lease := by
  have hstop : ∀ r : Pool, r.lease.Lets r.stop.lease := fun r =>
    lets_of_map (fun f => .inr (Fetcher.held?_of_free f.atRest_reset.isBusy)) rfl rfl rfl
  cases call with
  | enqueue now batch =>
      cases hcall
      -- The batch is queued first. Only then the fetchers are looked at.
      obtain ⟨r, hr, hqueued⟩ : ∃ r : Pool,
          p.enqueue now batch = (if r.isQuiet then r.dispatch now else r) ∧
            r.lease = p.lease := ⟨_, rfl, rfl⟩
      have hwoken : (p.woken (.enqueue now batch)).lease = r.lease := hqueued.symm
      rw [hwoken] at hparked ⊢
      rw [hr]
      split
      · exact lets_dispatch hparked now
      · exact Lease.lets_refl r.lease
  | poll now id w =>
      obtain ⟨⟨e, r⟩, hpoll, hcall⟩ := Checked.bind_eq_ok_iff.mp hcall
      obtain ⟨rfl, rfl⟩ := Prod.mk.inj (Except.ok.inj hcall)
      cases poll_cases hpoll with
      | told e rest pending =>
          have hnone : p.handled? (.poll now id w) = none := by simp [handled?, pending]
          rw [woken, hnone]
          exact Lease.lets_refl p.lease
      | resting silent free =>
          have hnone : p.handled? (.poll now id w) = none := by
            cases hf : p.fetchers[id]? with
            | none => simp [handled?, hf]
            | some f => simp [handled?, hf, free f hf]
          rw [woken, hnone]
          exact Lease.lets_refl p.lease
      | handled f g silent there busy wakes =>
          exact handled_lets h there busy wakes (handled?_poll silent there busy wakes) hparked
  | takeFinished =>
      cases hcall
      exact Lease.lets_refl p.lease
  | salvage =>
      obtain ⟨⟨s, r⟩, hsalvage, hcall⟩ := Checked.bind_eq_ok_iff.mp hcall
      obtain ⟨rfl, rfl⟩ := Prod.mk.inj (Except.ok.inj hcall)
      have hcollect : p.lease = p.collect.lease := (lease_collect p).symm
      show p.lease.Lets r.lease
      rw [hcollect]
      -- A salvage either finds nothing or stops all fetchers.
      rcases salvage_cases hsalvage with ⟨-, rfl⟩ | ⟨beyond, -, -, rfl⟩
      · exact Lease.lets_refl p.collect.lease
      · exact hstop p.collect
  | stop =>
      cases hcall
      exact hstop p
  | sent closed =>
      cases hcall
      rw [lease_afterSent]
      exact Lease.lets_refl p.lease

end

/-! ### The window that was left last -/

section
variable {latest : Option Fetcher} {x y : Lease} {p q : Pool}

/-- The fetcher that has its turn keeps its window, or it finishes and leaves it to the pool. -/
theorem Lease.Parked.woken (h : p.lease.Parked latest) (hsettled : p.Settled) (call : Call) :
    (p.woken call).lease.Parked ((p.finishing? call).or latest) := by
  cases hcall : p.handled? call with
  | none =>
      have hnone : p.finishing? call = none := by rw [finishing?, hcall]; rfl
      rw [Pool.woken, hcall, hnone]
      exact h
  | some turn =>
      obtain ⟨id, g⟩ := turn
      obtain ⟨f, now, w, hf, hbusy, hg⟩ := of_handled? hcall
      obtain ⟨s, hcarries⟩ := (hsettled.fetchers f (List.mem_of_getElem? hf)).carries hbusy
      have hheld : some f.window ∈ p.lease.held := by
        rw [← Fetcher.held?_of_busy hbusy]
        exact List.mem_map_of_mem (List.mem_of_getElem? hf)
      have hsome : g.window.isSome := by
        rw [hcarries.window_isSome hg]
        exact h.running f.window hheld
      have hrunning : ∀ k : Fetcher, (∀ window, k.held? = some window → window.isSome) →
          ∀ window, some window ∈ (p.fetchers.set id k).map Fetcher.held? → window.isSome := by
        intro k hk window hwindow
        obtain ⟨k', hk', hheld⟩ := List.mem_map.mp hwindow
        rcases List.mem_or_eq_of_mem_set hk' with hold | rfl
        · exact h.running window (hheld ▸ List.mem_map_of_mem hold)
        · exact hk window hheld
      by_cases hend : g.isFinished = true
      · have hfinishing : p.finishing? call = some g := by simp [finishing?, hcall, hend]
        rw [woken_of_collected hcall hend, hfinishing]
        -- The window that is left takes the place of both windows of the pool.
        have hleft : ∀ window : Option Window, g.window.or window = g.window := fun window =>
          Option.or_of_isSome hsome
        have hfree : g.takeCompleted.2.releaseWindow.2.reset.held? = none :=
          Fetcher.held?_of_free (Fetcher.atRest_reset _).isBusy
        refine ⟨hrunning _ (fun window hheld => ?_), ?_, hleft _, ?_⟩
        · rw [hfree] at hheld
          cases hheld
        · rintro f' hf'
          obtain rfl := Option.some.inj hf'
          exact hsome
        · show (g.window.or p.pooled).or (g.window.or p.lastReleased) = g.window.or p.lastReleased
          simp only [hleft]
      · have hfinishing : p.finishing? call = none := by simp [finishing?, hcall, hend]
        rw [woken_of_place hcall (by simpa using hend), hfinishing]
        refine ⟨hrunning g (fun window hheld => ?_), h.left, h.last, h.pooled⟩
        rw [Fetcher.held?] at hheld
        split at hheld
        · exact Option.some.inj hheld ▸ hsome
        · cases hheld

/-- A pool that has parked what it should, between two calls. -/
structure HandedOn (latest : Option Fetcher) (p : Pool) : Prop where
  settled : p.Settled
  parked : p.lease.Parked latest

/-- A new pool has parked nothing. -/
theorem handedOn_ofSettings {count : Nat} {settings : FetchSettings}
    (h : Pool.ofSettings count settings = .ok (.ok p)) : HandedOn none p := by
  obtain ⟨fetchers, rfl, hrest⟩ := ofSettings_eq h
  refine ⟨(ofSettings_spec h).1, ?_, ?_, rfl, rfl⟩
  · -- No fetcher is busy.
    intro window hwindow
    obtain ⟨f, hf, hheld⟩ := List.mem_map.mp hwindow
    rw [Fetcher.held?_of_free (hrest f hf).isBusy] at hheld
    cases hheld
  · intro f hf
    cases hf

/-- **One call** hands the window of the fetcher that was the last one to finish on. -/
theorem HandedOn.perform (h : HandedOn latest p) {call : Call} {a b : Account}
    (hcall : p.perform a call = .ok (b, q)) :
    HandedOn ((p.finishing? call).or latest) q ∧ (p.woken call).lease.Lets q.lease := by
  have hparked := h.parked.woken h.settled call
  have hlets := perform_lets h.settled hcall hparked
  exact ⟨⟨h.settled.perform hcall, hparked.lets hlets⟩, hlets⟩

/-- Carries out calls one after another, and keeps the fetcher that was the last one to finish, as
it was when it had just finished. -/
def watchFinished (latest : Option Fetcher) (p : Pool) :
    List Call → Checked (Option Fetcher × Pool)
  | [] => .ok (latest, p)
  | call :: rest => do
    let (_, q) ← p.perform {} call
    q.watchFinished ((p.finishing? call).or latest) rest

/-- Any sequence of calls hands windows on. -/
theorem HandedOn.run (calls : List Call) {latest' : Option Fetcher} (h : HandedOn latest p)
    (hcalls : p.watchFinished latest calls = .ok (latest', q)) : HandedOn latest' q := by
  induction calls generalizing p latest with
  | nil =>
      cases hcalls
      exact h
  | cons call rest ih =>
      obtain ⟨⟨a, r⟩, hcall, hcalls⟩ := Checked.bind_eq_ok_iff.mp hcalls
      exact ih (h.perform hcall).1 hcalls

end

/-- **The window is handed on.** After any sequence of calls of a new pool every running transfer
has a window. Take any further call, and the fetcher that is the last one to have finished by then,
be it in this call or before. Every layer that the call starts is started with the very window that
this fetcher had when it finished. -/
theorem window_handed_on {count : Nat} {settings : FetchSettings} {p q : Pool} {calls : List Call}
    {latest : Option Fetcher} (hnew : Pool.ofSettings count settings = .ok (.ok p))
    (hcalls : p.watchFinished none calls = .ok (latest, q)) :
    (∀ f ∈ q.fetchers, f.isBusy = true → f.window.isSome = true) ∧
      ∀ call a b r, q.perform a call = .ok (b, r) →
        ∀ f, (q.finishing? call).or latest = some f → ∀ id, q.Starts call r id →
          ∃ w g, f.window = some w ∧ r.fetchers[id]? = some g ∧ g.window = some w := by
  have hq := (handedOn_ofSettings hnew).run calls hcalls
  constructor
  · intro f hf hbusy
    refine hq.parked.running f.window ?_
    rw [← Fetcher.held?_of_busy hbusy]
    exact List.mem_map_of_mem hf
  · rintro call a b r hcall f hlatest id ⟨⟨k, hk, hfree⟩, g, hg, hbusy⟩
    obtain ⟨hr, hlets⟩ := hq.perform hcall
    have hparked := hr.parked
    rw [hlatest] at hparked
    obtain ⟨w, hw⟩ := Option.isSome_iff_exists.mp (hparked.left f rfl)
    -- The fetcher was free, so that its window is the one that was left last.
    have hbefore : (q.woken call).lease.held[id]? = some none := by
      rw [lease, List.getElem?_map, hk, ← Fetcher.held?_of_free hfree]
      rfl
    have hafter : r.lease.held[id]? = some (some g.window) := by
      rw [lease, List.getElem?_map, hg, ← Fetcher.held?_of_busy hbusy]
      rfl
    rcases hlets.held id g.window hafter with hsame | ⟨-, -, hlast⟩
    · rw [hbefore] at hsame
      cases hsame
    · refine ⟨w, g, hw, hg, hlast w ?_⟩
      rw [← hlets.last, hparked.last]
      exact hw

/-- Windows start with the size 2. -/
def growingSettings : FetchSettings := { window := { initialSize := some 2 } }

/-- A batch of two layers. -/
def sampleBatch : Call := .enqueue 40 [sampleLayer 0, sampleLayer 1]

/-- In the sample the first layer has arrived, and the others were refused and shed. Of the next
batch the second fetcher starts a layer with the window of the first one, which has grown. -/
theorem window_handed_on_sample :
    ∃ p f q b r w g, Pool.ofSettings 2 growingSettings = .ok (.ok p) ∧
      p.watchFinished none sampleCalls = .ok (some f, q) ∧
      q.perform {} sampleBatch = .ok (b, r) ∧ q.Starts sampleBatch r 1 ∧
      f.window = some w ∧ w.size = 4 ∧ r.fetchers[1]? = some g ∧ g.window = some w := by
  have hvalue : ((Pool.ofSettings 2 growingSettings).toOption.bind fun made =>
      made.toOption.bind fun p => (p.watchFinished none sampleCalls).toOption.bind fun x =>
        (x.2.perform {} sampleBatch).toOption.bind fun y => x.1.map fun f =>
          ((x.2.woken sampleBatch).fetchers[1]?.map Fetcher.isBusy,
            y.2.fetchers[1]?.map Fetcher.isBusy, f.window.map Window.size)) =
      some (some false, some true, some 4) := by
    decide +kernel
  obtain ⟨made, hmade, hvalue⟩ := Option.bind_eq_some_iff.mp hvalue
  obtain ⟨p, hp, hvalue⟩ := Option.bind_eq_some_iff.mp hvalue
  obtain ⟨⟨latest, q⟩, hcalls, hvalue⟩ := Option.bind_eq_some_iff.mp hvalue
  obtain ⟨⟨b, r⟩, hbatch, hvalue⟩ := Option.bind_eq_some_iff.mp hvalue
  obtain ⟨f, rfl, hvalues⟩ := Option.map_eq_some_iff.mp hvalue
  simp only [Prod.mk.injEq, Option.map_eq_some_iff] at hvalues
  obtain ⟨hfree, hbusy, w, hw, hsize⟩ := hvalues
  have hnew : Pool.ofSettings 2 growingSettings = .ok (.ok p) := by
    rw [Checked.eq_ok_of_toOption hmade, Checked.eq_ok_of_toOption hp]
  have hcalls := Checked.eq_ok_of_toOption hcalls
  have hbatch := Checked.eq_ok_of_toOption hbatch
  have hstarts : q.Starts sampleBatch r 1 := ⟨hfree, hbusy⟩
  obtain ⟨w', g, hw', hg, hgw⟩ :=
    (window_handed_on hnew hcalls).2 sampleBatch {} b r hbatch f rfl 1 hstarts
  obtain rfl := Option.some.inj (hw.symm.trans hw')
  exact ⟨p, f, q, b, r, w, g, hnew, hcalls, hbatch, hstarts, hw, hsize, hg, hgw⟩

end Pool

end LayerCast
