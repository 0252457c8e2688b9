import LayerCast.Proofs.Pool.Conservation

/-!
# `LayerCast.Proofs.Pool.Size`: the number of fetchers

A pool keeps its fetchers. Whatever is called and whatever happens, there are as many of them as the
pool was built with (`size_…`).
-/

set_option autoImplicit false

namespace LayerCast.Pool

/-- The number of fetchers of a pool. -/
def size (p : Pool) : Nat := p.fetchers.length

@[simp] theorem size_dispatch (p : Pool) (now : Nat) : (p.dispatch now).size = p.size :=
  length_handOut now p.lastReleased p.fetchers p.queue p.pooled

@[simp] theorem size_checkComplete (p : Pool) : p.checkComplete.size = p.size := by
  unfold checkComplete
  split <;> rfl

@[simp] theorem size_emit (p : Pool) (e : PoolEvent) : (p.emit e).size = p.size := rfl

@[simp] theorem size_shedFrom (p : Pool) (level : Nat) : (p.shedFrom level).2.size = p.size :=
  List.length_map ..

@[simp] theorem size_place (p : Pool) (id : Nat) (f : Fetcher) : (p.place id f).size = p.size :=
  List.length_set

@[simp] theorem size_stop (p : Pool) : p.stop.size = p.size := List.length_map ..

@[simp] theorem size_collect (p : Pool) : p.collect.size = p.size := List.length_map ..

@[simp] theorem size_takeFinished (p : Pool) : p.takeFinished.2.size = p.size := rfl

@[simp] theorem size_announce (p : Pool) : p.announce.2.size = p.size := by
  unfold announce takeEvent?
  cases p.events with
  | nil => rfl
  | cons e rest => rfl

@[simp] theorem size_afterSent (p : Pool) (closed : Nat → Bool) :
    (p.afterSent closed).size = p.size :=
  List.length_mapIdx

@[simp] theorem size_enqueue (p : Pool) (now : Nat) (batch : List Segment) :
    (p.enqueue now batch).size = p.size := by
  obtain ⟨r, hr, hfetchers, -⟩ := enqueue_eq p now batch
  have hsame : r.size = p.size := congrArg List.length hfetchers
  rw [hr]
  split <;> simp [hsame]

@[simp] theorem size_onEvent (p : Pool) (now id : Nat) (e : FetchEvent) :
    (p.onEvent now id e).size = p.size := by
  unfold onEvent
  cases p.fetchers[id]? with
  | none => rfl
  | some f =>
      cases e with
      | finished =>
          simp only [onFinished, size_checkComplete, size_dispatch]
          exact size_place p id _
      | soonFinished => exact size_dispatch p now
      | rejected =>
          simp only [onRejected]
          split
          · exact size_place p id _
          · simp only [size_checkComplete, size_emit, size_shedFrom]
            exact size_place p id _

@[simp] theorem size_listen (p : Pool) (now id : Nat) (f : Fetcher) :
    (p.listen now id f).size = p.size := by
  unfold listen
  split <;> simp

/-- A poll puts a fetcher in place of itself. -/
theorem size_poll {p q : Pool} {now id : Nat} {w : Wake} {e : Option PoolEvent}
    (h : p.poll now id w = .ok (e, q)) : q.size = p.size := by
  cases poll_cases h with
  | told | resting => rfl
  | handled f g => rw [size_announce, size_listen]

/-- A pool is built with the number of fetchers that is asked for. -/
theorem size_ofSettings {count : Nat} {settings : FetchSettings} {p : Pool}
    (h : Pool.ofSettings count settings = .ok (.ok p)) : p.size = count := by
  unfold Pool.ofSettings at h
  split at h
  · cases h
  · obtain ⟨fetchers, hfetchers, h⟩ := Checked.bind_eq_ok_iff.mp h
    obtain rfl := Except.ok.inj (Except.ok.inj h)
    exact (Checked.mapM_eq_ok hfetchers).1.trans List.length_range

/-- After a salvage the pool has the fetchers that it had. -/
theorem size_salvage {p q : Pool} {s : Salvage} (h : p.salvage = .ok (s, q)) :
    q.size = p.size := by
  rcases salvage_cases h with ⟨-, rfl⟩ | ⟨-, -, -, rfl⟩ <;> simp

end LayerCast.Pool
