import Mathlib.Data.List.Perm.Basic
import LayerCast.Proofs.Transfer.ChunkTable
import LayerCast.Proofs.Transfer.Outcome
import LayerCast.Transfer.Pool

/-!
# `LayerCast.Proofs.Pool.Settled`: where the layers of a pool are

Between two turns of a pool each of its fetchers is either at rest, with nothing to deliver and
nothing to tell, or it carries one layer. A pool of such fetchers is `Settled`. Its layers are then
in three places: in the queue, with the busy fetchers (`Pool.carried`), and among the finished
deliveries.

The operations of a pool that move layers are described by these three places. Handing out moves
the first layers of the queue to fetchers (`handOut_spec`, `dispatch_spec`). Shedding takes all
layers from a level on out of every place (`shedFrom_spec`).
-/

set_option autoImplicit false

namespace LayerCast

namespace Fetcher

/-! ### Fetchers between two turns -/

/-- A fetcher that has nothing to do, to deliver or to tell. -/
def AtRest (f : Fetcher) : Prop := f.view = ⟨.idle, [], none, none⟩

/-- A fetcher that carries a segment and has nothing to tell yet. -/
def Carries (f : Fetcher) (s : Segment) : Prop := f.view = ⟨.downloading, [], none, some s⟩

/-- A fetcher between two turns of its pool. -/
def IsSettled (f : Fetcher) : Prop := f.AtRest ∨ ∃ s, f.Carries s

/-- The segment that a fetcher is busy with. -/
def carried? (f : Fetcher) : Option Segment := if f.isBusy then f.segment? else none

/-- A reset leaves nothing to do, to deliver or to tell. -/
theorem atRest_reset (f : Fetcher) : f.reset.AtRest := rfl

/-- A fetcher at rest is free. -/
theorem AtRest.isBusy {f : Fetcher} (h : f.AtRest) : f.isBusy = false := by
  have hphase : f.phase = .idle := congrArg View.phase h
  rw [Fetcher.isBusy, hphase]
  rfl

/-- A fetcher at rest carries nothing. -/
theorem AtRest.carried? {f : Fetcher} (h : f.AtRest) : f.carried? = none := by
  rw [Fetcher.carried?, h.isBusy]
  rfl

/-- A fetcher that carries a segment is busy. -/
theorem Carries.isBusy {f : Fetcher} {s : Segment} (h : f.Carries s) : f.isBusy = true := by
  have hphase : f.phase = .downloading := congrArg View.phase h
  rw [Fetcher.isBusy, hphase]
  rfl

/-- It is busy with that segment. -/
theorem Carries.segment? {f : Fetcher} {s : Segment} (h : f.Carries s) : f.segment? = some s :=
  congrArg View.segment h

/-- So that segment is what it carries. -/
theorem Carries.carried? {f : Fetcher} {s : Segment} (h : f.Carries s) :
    f.carried? = some s := by
  rw [Fetcher.carried?, h.isBusy]
  exact h.segment?

/-- A settled fetcher that is busy carries its segment. -/
theorem IsSettled.carries {f : Fetcher} (h : f.IsSettled) (hbusy : f.isBusy = true) :
    ∃ s, f.Carries s := by
  rcases h with hrest | hcarries
  · rw [hrest.isBusy] at hbusy
    cases hbusy
  · exact hcarries

/-- A settled fetcher that is not busy is at rest. -/
theorem IsSettled.atRest {f : Fetcher} (h : f.IsSettled) (hidle : f.isBusy = false) :
    f.AtRest := by
  rcases h with hrest | ⟨s, hcarries⟩
  · exact hrest
  · rw [hcarries.isBusy] at hidle
    cases hidle

/-- A settled fetcher has nothing to deliver. -/
theorem IsSettled.completed {f : Fetcher} (h : f.IsSettled) : f.completed = none := by
  rcases h with hrest | ⟨s, hcarries⟩
  · exact congrArg View.completed hrest
  · exact congrArg View.completed hcarries

/-- A settled fetcher has nothing to tell. -/
theorem IsSettled.events {f : Fetcher} (h : f.IsSettled) : f.events = [] := by
  rcases h with hrest | ⟨s, hcarries⟩
  · exact congrArg View.events hrest
  · exact congrArg View.events hcarries

/-- A fetcher that starts a transfer carries its segment: chunk 0 was never requested before, so
the first request cannot be one too many. -/
theorem carries_begin (f : Fetcher) (now : Nat) (s : Segment) : (f.begin now s).Carries s := by
  unfold Carries begin
  simp only [request, ChunkTable.attemptsOf_ofSize, mayRequest_zero, Bool.not_true,
    Bool.false_eq_true, if_false]
  -- Whether the interest could be sent or not, the fetcher is busy with the segment.
  split <;> rfl

end Fetcher

/-! ### Settled pools -/

namespace Pool

/-- The segments that the fetchers are busy with, in the order of the fetchers. -/
def carried (p : Pool) : List Segment := p.fetchers.filterMap Fetcher.carried?

/-- A pool between two turns. All that it can still have to tell is that a batch is complete. -/
structure Settled (p : Pool) : Prop where
  fetchers : ∀ f ∈ p.fetchers, f.IsSettled
  events : p.events = [] ∨ p.events = [.batchComplete]

/-! ### Handing out -/

/-- Handing out starts the first layers of the queue on fetchers that were at rest. -/
theorem handOut_spec (now : Nat) (last : Option Window) (fetchers : List Fetcher)
    (queue : List Segment) (pooled : Option Window) (h : ∀ f ∈ fetchers, f.IsSettled) :
    (∀ f ∈ (handOut now last fetchers queue pooled).1, f.IsSettled) ∧
      ∃ started, queue = started ++ (handOut now last fetchers queue pooled).2.1 ∧
        ((handOut now last fetchers queue pooled).1.filterMap Fetcher.carried?).Perm
          (started ++ fetchers.filterMap Fetcher.carried?) := by
  -- Along the fetchers. The queue shrinks with every free one, so that it has to be any queue.
  induction fetchers generalizing queue pooled with
  | nil => exact ⟨h, [], rfl, List.Perm.refl _⟩
  | cons f rest ih =>
      cases queue with
      | nil => exact ⟨h, [], rfl, List.Perm.refl _⟩
      | cons s queue =>
          have hf : f.IsSettled := h f List.mem_cons_self
          have hrest : ∀ g ∈ rest, g.IsSettled := fun g hg => h g (List.mem_cons_of_mem _ hg)
          by_cases hbusy : f.isBusy = true
          · -- The fetcher keeps what it carries.
            obtain ⟨held, hcarries⟩ := hf.carries hbusy
            obtain ⟨hsettled, started, hqueue, hperm⟩ := ih (s :: queue) pooled hrest
            rw [handOut, if_pos hbusy]
            refine ⟨?_, started, hqueue, ?_⟩
            · intro g hg
              rcases List.mem_cons.mp hg with rfl | hg
              · exact hf
              · exact hsettled g hg
            · rw [List.filterMap_cons_some hcarries.carried?,
                List.filterMap_cons_some hcarries.carried?]
              exact (hperm.cons held).trans List.perm_middle.symm
          · -- The fetcher takes the first layer.
            rw [handOut, if_neg hbusy]
            obtain ⟨hsettled, started, hqueue, hperm⟩ := ih queue none hrest
            have hrestf := hf.atRest (Bool.not_eq_true _ ▸ hbusy)
            refine ⟨?_, s :: started, congrArg (s :: ·) hqueue, ?_⟩
            · intro g hg
              rcases List.mem_cons.mp hg with rfl | hg
              · exact .inr ⟨s, Fetcher.carries_begin _ now s⟩
              · exact hsettled g hg
            · rw [List.filterMap_cons_some (Fetcher.carries_begin _ now s).carried?,
                List.filterMap_cons_none hrestf.carried?]
              exact hperm.cons s

/-- Handing out leaves a layer in the queue only where no fetcher is free. -/
theorem handOut_busy (now : Nat) (last : Option Window) (fetchers : List Fetcher)
    (queue : List Segment) (pooled : Option Window)
    (hleft : (handOut now last fetchers queue pooled).2.1 ≠ []) :
    ∀ f ∈ (handOut now last fetchers queue pooled).1, f.isBusy = true := by
  induction fetchers generalizing queue pooled with
  | nil =>
      intro f hf
      cases hf
  | cons f rest ih =>
      cases queue with
      | nil => exact absurd rfl hleft
      | cons s queue =>
          -- The fetcher was busy before, or it is now.
          by_cases hbusy : f.isBusy = true
          · rw [handOut, if_pos hbusy] at hleft ⊢
            exact List.forall_mem_cons.mpr ⟨hbusy, ih (s :: queue) pooled hleft⟩
          · rw [handOut, if_neg hbusy] at hleft ⊢
            exact List.forall_mem_cons.mpr
              ⟨(Fetcher.carries_begin _ now s).isBusy, ih queue none hleft⟩

/-- What handing out does to a pool. -/
structure Dispatched (p q : Pool) (started : List Segment) : Prop where
  settled : ∀ f ∈ q.fetchers, f.IsSettled
  queue : p.queue = started ++ q.queue
  carried : q.carried.Perm (started ++ p.carried)
  finished : q.finished = p.finished
  events : q.events = p.events

/-- Segments are handed out from the front of the queue, to fetchers that are free. -/
theorem dispatch_spec {p : Pool} (h : ∀ f ∈ p.fetchers, f.IsSettled) (now : Nat) :
    ∃ started, Dispatched p (p.dispatch now) started := by
  obtain ⟨hsettled, started, hqueue, hperm⟩ :=
    handOut_spec now p.lastReleased p.fetchers p.queue p.pooled h
  exact ⟨started, hsettled, hqueue, hperm, rfl, rfl⟩

/-! ### Shedding -/

/-- A fetcher at rest has nothing to shed. -/
theorem holdsFrom_of_atRest {f : Fetcher} (h : f.AtRest) (level : Nat) :
    holdsFrom level f = false := by
  have hsegment : f.segment? = none := congrArg Fetcher.View.segment h
  rw [Pool.holdsFrom, hsegment]

/-- A busy fetcher sheds its layer if that lies at or above the level. -/
theorem holdsFrom_of_carries {f : Fetcher} {s : Segment} (h : f.Carries s) (level : Nat) :
    holdsFrom level f = decide (level ≤ s.level) := by
  rw [Pool.holdsFrom, h.segment?, h.isBusy]
  rfl

/-- Of the layers that fetchers carry, those from the level on are shed and the others stay. -/
theorem shed_fetchers (level : Nat) (fetchers : List Fetcher) (h : ∀ f ∈ fetchers, f.IsSettled) :
    (fetchers.filter (holdsFrom level)).filterMap Fetcher.segment? =
        (fetchers.filterMap Fetcher.carried?).filter (level ≤ ·.level) ∧
      (fetchers.map fun f => if holdsFrom level f then f.reset else f).filterMap Fetcher.carried? =
        (fetchers.filterMap Fetcher.carried?).filter (·.level < level) := by
  -- Both lists at once: every fetcher is on exactly one of them.
  induction fetchers with
  | nil => exact ⟨rfl, rfl⟩
  | cons f rest ih =>
      obtain ⟨hshed, hkept⟩ := ih fun g hg => h g (List.mem_cons_of_mem _ hg)
      rw [List.map_cons]
      rcases h f List.mem_cons_self with hrest | ⟨s, hcarries⟩
      · -- A fetcher at rest has nothing to shed and nothing to keep.
        have hholds := holdsFrom_of_atRest hrest level
        rw [List.filter_cons_of_neg (by simp [hholds]), hholds, if_neg Bool.false_ne_true,
          List.filterMap_cons_none hrest.carried?, List.filterMap_cons_none hrest.carried?]
        exact ⟨hshed, hkept⟩
      · have hholds := holdsFrom_of_carries hcarries level
        rw [List.filterMap_cons_some hcarries.carried?, hholds]
        by_cases hlevel : level ≤ s.level
        · -- The layer is shed, and its fetcher is at rest then.
          rw [List.filter_cons_of_pos (by simp [hholds, hlevel]), if_pos (by simp [hlevel]),
            List.filterMap_cons_some hcarries.segment?,
            List.filterMap_cons_none (Fetcher.atRest_reset f).carried?,
            List.filter_cons_of_pos (by simp [hlevel]),
            List.filter_cons_of_neg (by simp [hlevel]), hshed]
          exact ⟨rfl, hkept⟩
        · -- The layer lies below the level and stays.
          rw [List.filter_cons_of_neg (by simp [hholds, hlevel]), if_neg (by simp [hlevel]),
            List.filterMap_cons_some hcarries.carried?,
            List.filter_cons_of_neg (by simp [hlevel]),
            List.filter_cons_of_pos (by simp; omega), hkept]
          exact ⟨hshed, rfl⟩

/-- The segments of the finished layers, in the order of their arrival. -/
def arrived (p : Pool) : List Segment := p.finished.map Delivery.segment

/-- The same deliveries are the same segments. -/
theorem arrived_of_eq {p q : Pool} (h : q.finished = p.finished) : q.arrived = p.arrived :=
  congrArg (List.map Delivery.segment) h

/-- One more delivery is one more segment. -/
theorem arrived_of_append {p q : Pool} {d : Delivery} (h : q.finished = p.finished ++ [d]) :
    q.arrived = p.arrived ++ [d.segment] := by
  rw [arrived, h, List.map_append]
  rfl

/-- Deliveries below a level are those of the segments below it. -/
theorem arrived_of_filter {p q : Pool} {level : Nat}
    (h : q.finished = p.finished.filter (·.segment.level < level)) :
    q.arrived = p.arrived.filter (·.level < level) := by
  rw [arrived, h, arrived, List.filter_map]
  rfl

/-- What shedding from a level on does to a pool, with the layers that are shed. -/
structure ShedFrom (p q : Pool) (level : Nat) (shed : List Segment) : Prop where
  settled : ∀ f ∈ q.fetchers, f.IsSettled
  shed : shed.Perm (p.queue ++ p.carried.filter (level ≤ ·.level) ++
    p.arrived.filter (level ≤ ·.level))
  queue : q.queue = []
  carried : q.carried = p.carried.filter (·.level < level)
  finished : q.finished = p.finished.filter (·.segment.level < level)
  events : q.events = p.events

/-- To shed from a level on takes the queue and the finished layers from that level on, and aborts
the fetchers that are busy with such layers. -/
theorem shedFrom_spec {p : Pool} (h : ∀ f ∈ p.fetchers, f.IsSettled) (level : Nat) :
    ShedFrom p (p.shedFrom level).2 level (p.shedFrom level).1 := by
  obtain ⟨hshed, hkept⟩ := shed_fetchers level p.fetchers h
  have harrived : (p.finished.filter (level ≤ ·.segment.level)).map Delivery.segment =
      p.arrived.filter (level ≤ ·.level) := by
    rw [arrived, List.filter_map]
    rfl
  refine ⟨?_, ?_, rfl, hkept, rfl, rfl⟩
  · intro g hg
    obtain ⟨f, hf, rfl⟩ := List.mem_map.mp hg
    split
    · exact .inl f.atRest_reset
    · exact h f hf
  · -- What is shed is only put in order.
    refine (byLevel_perm _).trans ?_
    rw [hshed, harrived]
    exact List.Perm.refl _

/-! ### Replacing one fetcher -/

/-- Of a list with one element replaced, all but that element stays. -/
theorem set_perm {α : Type} {l : List α} {i : Nat} {a : α} (h : l[i]? = some a) (b : α) :
    l.Perm (a :: l.eraseIdx i) ∧ (l.set i b).Perm (b :: l.eraseIdx i) := by
  obtain ⟨hi, rfl⟩ := List.getElem?_eq_some_iff.mp h
  refine ⟨(List.getElem_cons_eraseIdx_perm hi).symm, ?_⟩
  have hset : i < (l.set i b).length := by rwa [List.length_set]
  have hperm := (List.getElem_cons_eraseIdx_perm hset).symm
  rwa [List.getElem_set_self, List.eraseIdx_set_eq] at hperm

/-- The layers that all fetchers but one carry. -/
def carriedBeside (p : Pool) (id : Nat) : List Segment :=
  (p.fetchers.eraseIdx id).filterMap Fetcher.carried?

/-- A fetcher of a pool carries its layer beside those of the others. -/
theorem carried_perm {p : Pool} {id : Nat} {f : Fetcher} {s : Segment}
    (hf : p.fetchers[id]? = some f) (hcarries : f.Carries s) :
    p.carried.Perm (s :: p.carriedBeside id) := by
  have hperm := (set_perm hf f).1.filterMap Fetcher.carried?
  rwa [List.filterMap_cons_some hcarries.carried?] at hperm

/-- A fetcher that replaces another one carries its layer beside those of the others. -/
theorem carried_set_of_carries {p : Pool} {id : Nat} {f g : Fetcher} {s : Segment}
    (hf : p.fetchers[id]? = some f) (hcarries : g.Carries s) :
    ((p.fetchers.set id g).filterMap Fetcher.carried?).Perm (s :: p.carriedBeside id) := by
  have hperm := (set_perm hf g).2.filterMap Fetcher.carried?
  rwa [List.filterMap_cons_some hcarries.carried?] at hperm

/-- A fetcher at rest that replaces another one leaves what the others carry. -/
theorem carried_set_of_atRest {p : Pool} {id : Nat} {f g : Fetcher}
    (hf : p.fetchers[id]? = some f) (hrest : g.AtRest) :
    ((p.fetchers.set id g).filterMap Fetcher.carried?).Perm (p.carriedBeside id) := by
  have hperm := (set_perm hf g).2.filterMap Fetcher.carried?
  rwa [List.filterMap_cons_none hrest.carried?] at hperm

/-- Replacing a fetcher by a settled one keeps all settled. -/
theorem settled_set {p : Pool} (h : ∀ f ∈ p.fetchers, f.IsSettled) (id : Nat) {g : Fetcher}
    (hg : g.IsSettled) : ∀ f ∈ p.fetchers.set id g, f.IsSettled := by
  intro f hf
  rcases List.mem_or_eq_of_mem_set hf with hf | rfl
  · exact h f hf
  · exact hg

/-! ### Idle pools -/

/-- A settled pool carries nothing when none of its fetchers is busy. -/
theorem isQuiet_iff {p : Pool} (h : ∀ f ∈ p.fetchers, f.IsSettled) :
    p.isQuiet = true ↔ p.carried = [] := by
  rw [isQuiet, List.all_eq_true, carried, List.filterMap_eq_nil_iff]
  constructor
  · intro hidle f hf
    exact ((h f hf).atRest (by simpa using hidle f hf)).carried?
  · intro hnone f hf
    -- A busy fetcher would carry a layer.
    by_contra hbusy
    obtain ⟨s, hcarries⟩ := (h f hf).carries (by simpa using hbusy)
    have hsome := hnone f hf
    rw [hcarries.carried?] at hsome
    cases hsome

/-- A settled pool is idle when nothing is queued and nothing is carried. -/
theorem isIdle_iff {p : Pool} (h : ∀ f ∈ p.fetchers, f.IsSettled) :
    p.isIdle = true ↔ p.queue = [] ∧ p.carried = [] := by
  rw [isIdle, Bool.and_eq_true, isQuiet_iff h, List.isEmpty_iff]

/-- A settled pool carries something when one of its fetchers is busy. -/
theorem carried_ne_nil_iff {p : Pool} (h : ∀ f ∈ p.fetchers, f.IsSettled) :
    p.carried ≠ [] ↔ ∃ f ∈ p.fetchers, f.isBusy = true := by
  rw [Ne, ← isQuiet_iff h, isQuiet, List.all_eq_true]
  simp

/-- Where layers wait, a fetcher is busy. -/
def Working (p : Pool) : Prop := p.queue ≠ [] → p.carried ≠ []

/-- Handing out sets a pool with fetchers to work. -/
theorem dispatch_working {p : Pool} (h : ∀ f ∈ p.fetchers, f.IsSettled)
    (hsome : p.fetchers ≠ []) (now : Nat) : (p.dispatch now).Working := by
  intro hleft
  obtain ⟨started, hstarted⟩ := dispatch_spec h now
  have hlength : (p.dispatch now).fetchers.length = p.fetchers.length :=
    length_handOut now p.lastReleased p.fetchers p.queue p.pooled
  have hsome' : (p.dispatch now).fetchers ≠ [] := by
    rw [← List.length_pos_iff] at hsome ⊢
    omega
  obtain ⟨f, hf⟩ := List.exists_mem_of_ne_nil _ hsome'
  refine (carried_ne_nil_iff hstarted.settled).mpr ⟨f, hf, ?_⟩
  exact handOut_busy now p.lastReleased p.fetchers p.queue p.pooled hleft f hf

end Pool

end LayerCast
