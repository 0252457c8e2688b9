import LayerCast.Proofs.Pool.BatchResult
import LayerCast.Proofs.Pool.Size

/-!
# `LayerCast.Proofs.Pool.OneBatch`: one batch at a time

The owner of a pool that queues a batch only while none is out can tell from its own notes what the
pool is doing. `Pool.OneBatch number p` is what such a pool is like between two turns. With a
number, the batch of that number is out: the pool still owes its end (`Owing`), and all its layers
are of that number. Without a number the pool has no layers and nothing to tell.

A turn that does not tell the end of the batch leaves it out (`OneBatch.turn`). The end of the batch
(`OneBatch.complete`), a stop (`OneBatch.stop`) and a salvage that finds something
(`OneBatch.salvage`) leave nothing behind. That a batch which is out comes to an end at all needs
that fetchers do not rest while layers wait (`Working`).
-/

set_option autoImplicit false

namespace LayerCast.Pool

/-! ### Between two batches -/

/-- The end of a batch is told last. -/
theorem Turn.events_of_complete {p q : Pool} (h : Turn p (some .batchComplete) q) :
    q.events = [] := by
  generalize he : (some .batchComplete : Option PoolEvent) = e at h
  cases h with
  | announced => rfl
  | moved started silent told => exact told
  | arrived d rest started silent told => exact told
  | shed => cases he

/-- A pool holds nothing when it has nothing to do and no finished layers. -/
theorem contents_eq_nil_iff {p : Pool} : p.contents = [] ↔ p.IsDone ∧ p.finished = [] := by
  rw [contents, List.append_eq_nil_iff, List.append_eq_nil_iff, arrived, List.map_eq_nil_iff]
  rfl

/-- A pool with nothing to do and nothing to tell stays so. -/
theorem Turn.of_done {p q : Pool} {e : Option PoolEvent} (h : Turn p e q) (hdone : p.IsDone)
    (hsilent : p.events = []) : e = none ∧ q.events = [] := by
  obtain ⟨-, hcarried⟩ := hdone
  cases h with
  | announced pending =>
      rw [hsilent] at pending
      cases pending
  | moved started silent told => exact ⟨rfl, told⟩
  | arrived d rest started silent told held =>
      -- Nothing is carried that could arrive.
      rw [hcarried] at held
      exact absurd held.symm.eq_nil (List.cons_ne_nil _ _)
  | shed failed rest shed silent told held =>
      rw [hcarried] at held
      exact absurd held.symm.eq_nil (List.cons_ne_nil _ _)

/-- A pool without layers and without news does nothing. -/
theorem Turn.of_empty {p q : Pool} {e : Option PoolEvent} (h : Turn p e q)
    (hempty : p.contents = []) (hsilent : p.events = []) : e = none ∧ q.events = [] :=
  h.of_done (contents_eq_nil_iff.mp hempty).1 hsilent

/-- A salvage leaves the pool as it was, or it leaves nothing to do and nothing to tell. -/
theorem salvage_left {p q : Pool} (h : p.Settled) {s : Salvage}
    (hsalvage : p.salvage = .ok (s, q)) :
    (s.isEmpty = true ∧ q.events = p.events ∧ (p.TellsOwn → q.TellsOwn)) ∨
      (q.contents = [] ∧ q.events = []) := by
  rcases salvage_cases hsalvage with ⟨rfl, rfl⟩ | ⟨beyond, -, -, rfl⟩
  · obtain ⟨-, hcarried, -⟩ := collect_spec h
    refine .inl ⟨rfl, rfl, fun hown => ?_⟩
    rw [TellsOwn, IsDone, hcarried]
    exact hown
  · exact .inr ⟨(stop_spec p.collect).2, rfl⟩

/-- What a salvage finds usable is in the order of the levels. -/
theorem sorted_usable {p q : Pool} {s : Salvage} (hsalvage : p.salvage = .ok (s, q)) :
    s.usable.Pairwise fun d e => d.segment.level ≤ e.segment.level := by
  rcases salvage_cases hsalvage with ⟨rfl, -⟩ | ⟨beyond, hparts, -, -⟩
  · exact List.Pairwise.nil
  · have hsorted := deliveriesByLevel_sorted p.collect.finished
    rw [← hparts] at hsorted
    exact (List.pairwise_append.mp hsorted).1

/-- A salvage that finds nothing only collects what the fetchers hold. -/
theorem salvage_of_isEmpty {p q : Pool} {s : Salvage} (hsalvage : p.salvage = .ok (s, q))
    (hnothing : s.isEmpty = true) : q = p.collect := by
  rcases salvage_cases hsalvage with ⟨-, rfl⟩ | ⟨beyond, hparts, hdropped, rfl⟩
  · rfl
  · -- Neither part of the finished layers has one, so that there was none to salvage from.
    rw [Salvage.isEmpty, Bool.and_eq_true, List.isEmpty_iff, List.isEmpty_iff] at hnothing
    obtain ⟨husable, hnone⟩ := hnothing
    have hempty := (hdropped.symm.trans hnone ▸ byLevel_perm _ : List.Perm [] _).symm.eq_nil
    rw [List.append_eq_nil_iff, List.append_eq_nil_iff, List.map_eq_nil_iff] at hempty
    rw [husable, hempty.1.1] at hparts
    have hfinished : p.collect.finished = [] := (hparts ▸ deliveriesByLevel_perm _).nil_eq.symm
    have hbase : p.collect.finishedBase? = none := by
      rw [finishedBase?, hfinished]
      exact Option.filter_eq_none_iff.mpr fun _ _ => Bool.false_ne_true
    simp only [salvage, hbase] at hsalvage
    exact (Prod.mk.inj (Except.ok.inj hsalvage)).2.symm

/-! ### A batch that is out -/

/-- The end of a batch is still to come: a layer is on its way, or there is something to tell. -/
def Owing (p : Pool) : Prop := p.carried ≠ [] ∨ p.events ≠ []

/-- A pool that works on one batch, of a number, or on none. -/
structure OneBatch (number : Option Nat) (p : Pool) : Prop where
  settled : p.Settled
  staffed : 0 < p.size
  own : p.TellsOwn
  working : p.Working
  resting : number = none → p.contents = [] ∧ p.events = []
  owing : number ≠ none → p.Owing
  numbered : ∀ s ∈ p.contents, number = some s.number

variable {p q : Pool} {number : Option Nat}

/-- A pool without layers and without news works on no batch. -/
theorem oneBatch_of_empty (hsettled : p.Settled) (hstaffed : 0 < p.size) (hempty : p.contents = [])
    (hsilent : p.events = []) : p.OneBatch none where
  settled := hsettled
  staffed := hstaffed
  own := .inl hsilent
  working := by
    intro hqueue
    exact absurd (contents_eq_nil_iff.mp hempty).1.1 hqueue
  resting := fun _ => ⟨hempty, hsilent⟩
  owing := fun hsome => absurd rfl hsome
  numbered := by
    rw [hempty]
    intro s hs
    cases hs

/-- A new pool works on no batch. -/
theorem oneBatch_ofSettings {count : Nat} {settings : FetchSettings}
    (h : Pool.ofSettings count settings = .ok (.ok p)) : p.OneBatch none := by
  obtain ⟨hsettled, hempty, hsilent⟩ := ofSettings_spec h
  refine oneBatch_of_empty hsettled ?_ hempty hsilent
  rw [size_ofSettings h]
  unfold Pool.ofSettings at h
  split at h
  · cases h
  · omega

/-- A pool with the same layers in the same places works on the same batch. -/
theorem OneBatch.same (h : p.OneBatch number) (hq : q.Settled) (hsize : q.size = p.size)
    (hcarried : q.carried = p.carried) (hqueue : q.queue = p.queue)
    (hfinished : q.finished = p.finished) (hevents : q.events = p.events) :
    q.OneBatch number := by
  -- The contents are made of the three parts that are the same.
  have hcontents : q.contents = p.contents := by
    rw [contents, hqueue, hcarried, arrived_of_eq hfinished]
    rfl
  exact {
    settled := hq
    staffed := hsize ▸ h.staffed
    own := by
      rw [TellsOwn, IsDone, hevents, hqueue, hcarried]
      exact h.own
    working := by
      rw [Working, hqueue, hcarried]
      exact h.working
    resting := by
      rw [hcontents, hevents]
      exact h.resting
    owing := by
      rw [Owing, hcarried, hevents]
      exact h.owing
    numbered := by
      rw [hcontents]
      exact h.numbered }

/-! ### Queuing -/

/-- A batch that is queued is on its way at once, or something else still is. -/
theorem enqueue_carried (h : p.Settled) (hstaffed : 0 < p.size) (now : Nat) {batch : List Segment}
    (hbatch : batch ≠ []) : (p.enqueue now batch).carried ≠ [] := by
  obtain ⟨r, hr, hfetchers, hqueue, -, -⟩ := enqueue_eq p now batch
  have hsettled : ∀ f ∈ r.fetchers, f.IsSettled := hfetchers ▸ h.fetchers
  have hsome : r.fetchers ≠ [] := hfetchers ▸ List.ne_nil_of_length_pos hstaffed
  rw [hr]
  split
  · -- If nothing was started, the whole batch would wait while all fetchers rest.
    rename_i hquiet
    obtain ⟨started, hstarted⟩ := dispatch_spec hsettled now
    intro hnone
    have hcarried := hstarted.carried
    rw [hnone] at hcarried
    obtain ⟨rfl, -⟩ := List.append_eq_nil_iff.mp hcarried.symm.eq_nil
    refine dispatch_working hsettled hsome now ?_ hnone
    have hleft : r.queue = (r.dispatch now).queue := hstarted.queue
    rw [← hleft, hqueue]
    intro hwaits
    obtain ⟨-, hsorted⟩ := List.append_eq_nil_iff.mp hwaits
    exact hbatch ((byLevel_perm batch).symm.trans (hsorted ▸ List.Perm.refl _)).eq_nil
  · rename_i hbusy
    rwa [isQuiet_iff hsettled] at hbusy

/-- A batch of one number is queued while none is out. -/
theorem OneBatch.enqueue (h : p.OneBatch none) (now : Nat) {batch : List Segment} {n : Nat}
    (hbatch : batch ≠ []) (hnumber : ∀ s ∈ batch, s.number = n) :
    (p.enqueue now batch).OneBatch (some n) := by
  obtain ⟨hempty, hsilent⟩ := h.resting rfl
  obtain ⟨hsettled, hcontents⟩ := enqueue_spec h.settled now batch
  have hcarried := enqueue_carried h.settled h.staffed now hbatch
  rw [hempty, List.append_nil] at hcontents
  exact {
    settled := hsettled
    staffed := by
      rw [size_enqueue]
      exact h.staffed
    own := .inl ((enqueue_events p now batch).trans hsilent)
    working := fun _ => hcarried
    resting := fun hnone => nomatch hnone
    owing := fun _ => .inl hcarried
    numbered := fun s hs => congrArg some (hnumber s (hcontents.mem_iff.mp hs)).symm }

/-! ### Turns -/

/-- A turn lets no fetcher rest while layers wait. -/
theorem Turn.working {e : Option PoolEvent} (h : Turn p e q) (hp : p.Working) : q.Working := by
  cases h with
  | announced => exact hp
  | moved started silent told queue carried finished =>
      intro hqueue hnone
      -- What waits now has waited before, and what was on its way still is.
      have hwaited : p.queue ≠ [] := by
        rw [queue]
        simp [hqueue]
      rw [hnone] at carried
      exact hp hwaited (List.append_eq_nil_iff.mp carried.symm.eq_nil).2
  | arrived d rest started silent told held queue carried finished working => exact working
  | shed failed rest shed silent told held gone queue carried finished =>
      exact fun hqueue => absurd queue hqueue

/-- Until the end of a batch is told it is still to come. -/
theorem Turn.owing {e : Option PoolEvent} (h : Turn p e q) (hq : q.Settled) (hp : p.Owing)
    (he : e ≠ some .batchComplete) : q.Owing := by
  cases h with
  | announced => exact absurd rfl he
  | moved started silent told queue carried finished =>
      refine .inl fun hnone => ?_
      rw [hnone] at carried
      -- The pool had nothing to tell, so that something was on its way, and still is.
      exact (hp.resolve_right fun hnews => hnews silent)
        (List.append_eq_nil_iff.mp carried.symm.eq_nil).2
  | arrived d rest started silent told held queue carried finished working =>
      split at he
      · exact absurd rfl he
      · -- The pool is not idle, so that something is on its way.
        rename_i hbusy
        rw [isIdle_iff hq.fetchers] at hbusy
        refine .inl fun hnone => hbusy ⟨?_, hnone⟩
        by_contra hqueue
        exact working hqueue hnone
  | shed failed rest shed silent told held gone queue carried finished =>
      split at told
      · refine .inr ?_
        rw [told]
        exact List.cons_ne_nil _ _
      · rename_i hbusy
        rw [isIdle_iff hq.fetchers] at hbusy
        exact .inl fun hnone => hbusy ⟨queue, hnone⟩

/-- A turn that does not tell the end of the batch leaves it out. -/
theorem OneBatch.turn {e : Option PoolEvent} (h : p.OneBatch number) (hq : q.Settled)
    (hsize : q.size = p.size) (hturn : Turn p e q) (he : e ≠ some .batchComplete) :
    q.OneBatch number where
  settled := hq
  staffed := hsize ▸ h.staffed
  own := (h.own.turn hq hturn).1
  working := hturn.working h.working
  resting := by
    intro hnone
    obtain ⟨hempty, hsilent⟩ := h.resting hnone
    obtain ⟨rfl, hevents⟩ := hturn.of_empty hempty hsilent
    have hperm : p.contents.Perm (q.contents ++ []) := hturn.contents_perm
    rw [hempty, List.append_nil] at hperm
    exact ⟨hperm.symm.eq_nil, hevents⟩
  owing := fun hsome => hturn.owing hq (h.owing hsome) he
  numbered := fun s hs =>
    h.numbered s (hturn.contents_perm.mem_iff.mpr (List.mem_append_left _ hs))

/-- The end of the batch is told: its layers are taken, and nothing is left of it. -/
theorem OneBatch.complete (h : p.OneBatch number) (hq : q.Settled) (hsize : q.size = p.size)
    (hturn : Turn p (some .batchComplete) q) : q.takeFinished.2.OneBatch none := by
  obtain ⟨hqueue, hcarried⟩ := (h.own.turn hq hturn).2 rfl
  obtain ⟨hsettled, -⟩ := takeFinished_spec hq
  refine oneBatch_of_empty hsettled ?_ ?_ hturn.events_of_complete
  · show 0 < q.size
    rw [hsize]
    exact h.staffed
  · show q.queue ++ q.carried ++ [] = []
    rw [hqueue, hcarried]
    rfl

/-- Handing interests over moves nothing. -/
theorem OneBatch.afterSent (h : p.OneBatch number) (closed : Nat → Bool) :
    (p.afterSent closed).OneBatch number :=
  h.same (settled_afterSent h.settled closed) (size_afterSent p closed)
    (carried_afterSent p closed) rfl rfl rfl

/-! ### Giving up -/

/-- Giving up everything leaves no batch. -/
theorem OneBatch.stop (h : p.OneBatch number) : p.stop.OneBatch none := by
  obtain ⟨hsettled, hempty⟩ := stop_spec p
  refine oneBatch_of_empty hsettled ?_ hempty rfl
  rw [size_stop]
  exact h.staffed

/-- A salvage leaves a batch as it was, or it leaves nothing of it. -/
theorem OneBatch.salvage (h : p.OneBatch number) {s : Salvage}
    (hsalvage : p.salvage = .ok (s, q)) :
    q.OneBatch (if s.isEmpty then number else none) := by
  obtain ⟨hsettled, -⟩ := salvage_spec h.settled hsalvage
  split
  · rename_i hnothing
    obtain rfl := salvage_of_isEmpty hsalvage hnothing
    obtain ⟨-, hcarried, hfinished⟩ := collect_spec h.settled
    exact h.same hsettled (size_collect p) hcarried rfl hfinished rfl
  · rename_i hsome
    have hstaffed : 0 < q.size := by
      rw [size_salvage hsalvage]
      exact h.staffed
    rcases salvage_left h.settled hsalvage with ⟨hnothing, -⟩ | ⟨hempty, hevents⟩
    · exact absurd hnothing hsome
    · exact oneBatch_of_empty hsettled hstaffed hempty hevents

/-- Where no batch is out there is nothing to be salvaged. -/
theorem OneBatch.salvage_none (h : p.OneBatch none) {s : Salvage}
    (hsalvage : p.salvage = .ok (s, q)) : q.OneBatch none ∧ s.isEmpty = true := by
  obtain ⟨-, hperm⟩ := salvage_spec h.settled hsalvage
  rw [(h.resting rfl).1] at hperm
  obtain ⟨hleft, hdropped⟩ := List.append_eq_nil_iff.mp hperm.symm.eq_nil
  have husable := List.map_eq_nil_iff.mp (List.append_eq_nil_iff.mp hleft).2
  refine ⟨?_, ?_⟩
  · have hone := h.salvage hsalvage
    rwa [ite_self] at hone
  · rw [Salvage.isEmpty, husable, hdropped]
    rfl

/-! ### What the owner can tell -/

/-- What is owed is the end of a batch: a fetcher is busy, or the end is not told yet. -/
theorem owing_iff (h : p.Settled) :
    p.Owing ↔ (∃ f ∈ p.fetchers, f.isBusy = true) ∨ .batchComplete ∈ p.events := by
  rw [Owing, carried_ne_nil_iff h.fetchers]
  refine or_congr_right ⟨fun hnews => ?_, fun htold hnone => ?_⟩
  · rw [h.events.resolve_left hnews]
    exact List.mem_cons_self
  · rw [hnone] at htold
    cases htold

/-- Without a batch the pool is idle, and no finished layer is left over. -/
theorem OneBatch.isIdle (h : p.OneBatch none) : p.isIdle = true ∧ p.finished = [] := by
  obtain ⟨hempty, -⟩ := h.resting rfl
  obtain ⟨hdone, hnone⟩ := contents_eq_nil_iff.mp hempty
  exact ⟨(isIdle_iff h.settled.fetchers).mpr hdone, hnone⟩

/-- A batch is out exactly while the pool has something to do or its end to tell. -/
theorem OneBatch.isSome_iff (h : p.OneBatch number) :
    number.isSome = true ↔
      (∃ f ∈ p.fetchers, f.isBusy = true) ∨ p.queue ≠ [] ∨ .batchComplete ∈ p.events := by
  cases number with
  | some n =>
      refine iff_of_true rfl ?_
      rcases (owing_iff h.settled).mp (h.owing (Option.some_ne_none n)) with hbusy | htold
      · exact .inl hbusy
      · exact .inr (.inr htold)
  | none =>
      obtain ⟨hidle, -⟩ := h.isIdle
      obtain ⟨hqueue, hcarried⟩ := (isIdle_iff h.settled.fetchers).mp hidle
      obtain ⟨-, hsilent⟩ := h.resting rfl
      -- Without a batch, each of the three would contradict the rest of the pool.
      refine iff_of_false Bool.false_ne_true ?_
      rintro (hbusy | hwaits | htold)
      · exact (carried_ne_nil_iff h.settled.fetchers).mpr hbusy hcarried
      · exact hwaits hqueue
      · rw [hsilent] at htold
        cases htold

end LayerCast.Pool
