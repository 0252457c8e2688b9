import Mathlib.Data.List.Nodup
import LayerCast.Transfer.Timers

/-!
# `LayerCast.Proofs.Transfer.Timers`: one timer for each chunk

A timer is armed in the queue, and its key is kept for its chunk. `Timers.Keyed` says that the two
places agree: the keys that are kept are those of the armed timers, and no other timer is armed.
Then no chunk has two timers (`Keyed.nodup_chunks`).

Every operation keeps the two places in agreement, and what it does to the chunks that have a timer
is said by one equation for each of them:

* `mem_chunks_cancel`, `mem_chunks_cancelAll` and `mem_chunks_expire`: the timers of the given
  chunks are gone, and those of all other chunks are still there. This is where a key that was not
  forgotten would do harm, since another timer might have got it.
* `mem_chunks_arm`: the chunk has a timer, and all others have what they had.
-/

set_option autoImplicit false

namespace LayerCast

/-! ### Entries by chunk -/

section
variable {α : Type}

/-- The first entry for a chunk is the one that is looked up. -/
theorem lookup_entry (c : Nat) (a : α) (i : Nat) (rest : List (Nat × α)) :
    ((c, a) :: rest).lookup i = if i = c then some a else rest.lookup i := by
  by_cases hi : i = c
  · subst hi
    simp
  · have hbeq : (i == c) = false := beq_eq_false_iff_ne.mpr hi
    simp [List.lookup_cons, hbeq, hi]

/-- Leaving out the entries of one chunk keeps those of all others. -/
theorem lookup_filter_ne (entries : List (Nat × α)) (chunk i : Nat) :
    (entries.filter (·.1 != chunk)).lookup i =
      if i = chunk then none else entries.lookup i := by
  induction entries with
  | nil => simp
  | cons entry rest ih =>
      obtain ⟨c, a⟩ := entry
      by_cases hc : c = chunk
      · -- The entry is left out.
        have hdrop : ((c, a) :: rest).filter (·.1 != chunk) = rest.filter (·.1 != chunk) := by
          simp [hc]
        rw [hdrop, ih, lookup_entry, hc]
        split <;> rfl
      · have hkeep : ((c, a) :: rest).filter (·.1 != chunk) =
            (c, a) :: rest.filter (·.1 != chunk) := by
          simp [hc]
        rw [hkeep, lookup_entry, lookup_entry, ih]
        -- The entry stays, and is the one that is looked for or not.
        by_cases hi : i = c
        · rw [if_pos hi, if_pos hi, if_neg (hi ▸ hc)]
        · rw [if_neg hi, if_neg hi]

/-- There is nothing to leave out for a chunk without an entry. -/
theorem filter_ne_of_lookup_eq_none {entries : List (Nat × α)} {chunk : Nat}
    (h : entries.lookup chunk = none) : entries.filter (·.1 != chunk) = entries := by
  refine List.filter_eq_self.mpr fun entry hentry => bne_iff_ne.mpr fun hsame => ?_
  have hne := List.lookup_eq_none_iff.mp h entry hentry
  simp [hsame] at hne

end

namespace Timers

/-! ### Timers and their keys -/

/-- The keys that are kept are those of the armed timers. -/
structure Keyed (t : Timers) : Prop where
  /-- No two armed timers have the same key. -/
  distinct : (t.queue.map Timer.key).Nodup
  /-- The key of every armed timer is kept for its chunk. -/
  kept : ∀ timer ∈ t.queue, t.keys.lookup timer.chunk = some timer.key
  /-- Every key that is kept is that of a timer armed for the chunk. -/
  armed : ∀ chunk key, t.keys.lookup chunk = some key →
    ∃ timer ∈ t.queue, timer.chunk = chunk ∧ timer.key = key

/-- Where no timer is armed, no key is used. -/
theorem keyed_empty : ({} : Timers).Keyed where
  distinct := List.nodup_nil
  kept := by simp
  armed := by simp

section
variable {t u : Timers} {chunk i : Nat}

/-- A chunk has at most one timer. -/
theorem Keyed.eq_of_chunk (h : t.Keyed) {timer other : Timer} (htimer : timer ∈ t.queue)
    (hother : other ∈ t.queue) (hchunk : timer.chunk = other.chunk) : timer = other := by
  have hkey : some timer.key = some other.key := by
    rw [← h.kept timer htimer, ← h.kept other hother, hchunk]
  exact List.inj_on_of_nodup_map h.distinct htimer hother (Option.some.inj hkey)

/-- So no chunk is listed twice among those with a timer. -/
theorem Keyed.nodup_chunks (h : t.Keyed) : t.chunks.Nodup := by
  refine List.Nodup.map_on ?_ h.distinct.of_map
  intro timer htimer other hother hchunk
  exact h.eq_of_chunk htimer hother hchunk

/-- Without a key there is no timer. -/
theorem Keyed.chunk_ne_of_lookup (h : t.Keyed) (hnone : t.keys.lookup chunk = none) {timer : Timer}
    (htimer : timer ∈ t.queue) : timer.chunk ≠ chunk := by
  intro hchunk
  have hkept := h.kept timer htimer
  rw [hchunk, hnone] at hkept
  cases hkept

/-- Forgetting the key of one chunk keeps those of all others. -/
theorem lookup_forget (t : Timers) (chunk i : Nat) :
    (t.forget chunk).keys.lookup i = if i = chunk then none else t.keys.lookup i :=
  lookup_filter_ne t.keys chunk i

/-! ### Disarming -/

/-- The timer of one chunk is gone, with its key, and all others are still there. -/
structure Without (t u : Timers) (chunk : Nat) : Prop where
  sublist : u.queue.Sublist t.queue
  mem : ∀ timer, timer ∈ u.queue ↔ timer ∈ t.queue ∧ timer.chunk ≠ chunk
  keys : ∀ i, u.keys.lookup i = if i = chunk then none else t.keys.lookup i

/-- Without one of its timers a queue is as well keyed as before. -/
theorem Without.keyed (hu : Without t u chunk) (h : t.Keyed) : u.Keyed where
  distinct := (hu.sublist.map Timer.key).nodup h.distinct
  kept := by
    intro timer htimer
    obtain ⟨hold, hne⟩ := (hu.mem timer).mp htimer
    rw [hu.keys, if_neg hne]
    exact h.kept timer hold
  armed := by
    intro i key hkey
    rw [hu.keys] at hkey
    split at hkey
    · cases hkey
    · rename_i hne
      obtain ⟨timer, htimer, rfl, hsame⟩ := h.armed i key hkey
      exact ⟨timer, (hu.mem timer).mpr ⟨htimer, hne⟩, rfl, hsame⟩

/-- Exactly the one chunk has lost its timer. -/
theorem Without.mem_chunks (hu : Without t u chunk) :
    i ∈ u.chunks ↔ i ≠ chunk ∧ i ∈ t.chunks := by
  simp only [chunks, List.mem_map, hu.mem]
  constructor
  · rintro ⟨timer, ⟨hold, hne⟩, rfl⟩
    exact ⟨hne, timer, hold, rfl⟩
  · rintro ⟨hne, timer, hold, rfl⟩
    exact ⟨timer, ⟨hold, hne⟩, rfl⟩

/-- Where a chunk has no timer only its key has to be forgotten. -/
theorem without_forget (hnone : ∀ timer ∈ t.queue, timer.chunk ≠ chunk) :
    Without t (t.forget chunk) chunk where
  sublist := List.Sublist.refl t.queue
  mem := by
    intro timer
    exact ⟨fun htimer => ⟨htimer, hnone timer htimer⟩, And.left⟩
  keys := lookup_forget t chunk

/-- To cancel the timer of a chunk takes that timer from the queue and no other. -/
theorem without_cancel (h : t.Keyed) (chunk : Nat) : Without t (t.cancel chunk) chunk := by
  unfold cancel
  split
  · -- There is no key, and so no timer.
    rename_i hnone
    refine ⟨List.Sublist.refl t.queue, fun timer => ?_, fun i => ?_⟩
    · exact ⟨fun htimer => ⟨htimer, h.chunk_ne_of_lookup hnone htimer⟩, And.left⟩
    · split
      · rename_i hi
        rw [hi, hnone]
      · rfl
  · rename_i key hkey
    refine ⟨List.filter_sublist, fun timer => ?_, lookup_forget t chunk⟩
    show timer ∈ t.queue.filter (·.key != key) ↔ _
    rw [List.mem_filter, bne_iff_ne]
    -- The kept key is that of the chunk's own timer.
    refine and_congr_right fun htimer => not_congr ⟨fun hsame => ?_, fun hchunk => ?_⟩
    · obtain ⟨own, hown, hchunk, hownKey⟩ := h.armed chunk key hkey
      have heq : timer = own :=
        List.inj_on_of_nodup_map h.distinct htimer hown (hsame.trans hownKey.symm)
      rw [heq, hchunk]
    · have hkept := h.kept timer htimer
      rw [hchunk, hkey] at hkept
      exact (Option.some.inj hkept).symm

/-- Cancelling keeps the keys in order. -/
theorem Keyed.cancel (h : t.Keyed) (chunk : Nat) : (t.cancel chunk).Keyed :=
  (without_cancel h chunk).keyed h

/-- Exactly the timer of the chunk is cancelled. -/
theorem mem_chunks_cancel (h : t.Keyed) :
    i ∈ (t.cancel chunk).chunks ↔ i ≠ chunk ∧ i ∈ t.chunks :=
  (without_cancel h chunk).mem_chunks

/-- Several timers are disarmed one after the other. -/
theorem Keyed.cancelAll (h : t.Keyed) (dropped : List Nat) :
    (t.cancelAll dropped).Keyed ∧
      ∀ i, i ∈ (t.cancelAll dropped).chunks ↔ i ∉ dropped ∧ i ∈ t.chunks := by
  induction dropped generalizing t with
  | nil => exact ⟨h, fun i => by simp [Timers.cancelAll]⟩
  | cons chunk rest ih =>
      obtain ⟨hkeyed, hmem⟩ := ih (h.cancel chunk)
      refine ⟨hkeyed, fun i => ?_⟩
      show i ∈ ((t.cancel chunk).cancelAll rest).chunks ↔ _
      rw [hmem, mem_chunks_cancel h, List.mem_cons, not_or, and_left_comm, and_assoc]

/-- Exactly the timers of the dropped chunks are cancelled. -/
theorem mem_chunks_cancelAll (h : t.Keyed) {dropped : List Nat} :
    i ∈ (t.cancelAll dropped).chunks ↔ i ∉ dropped ∧ i ∈ t.chunks :=
  (h.cancelAll dropped).2 i

/-! ### Expiry -/

/-- The timer that expires first is one of them. -/
theorem mem_of_earliest? {queue : List Timer} {timer : Timer}
    (h : earliest? queue = some timer) : timer ∈ queue := by
  cases queue with
  | nil => cases h
  | cons first rest =>
      obtain rfl := Option.some.inj h
      clear h
      -- The best one so far is replaced by another one of the queue, or stays.
      induction rest generalizing first with
      | nil => exact List.mem_singleton_self first
      | cons next rest ih =>
          rw [List.foldl_cons]
          split
          · exact List.mem_cons_of_mem first (ih next)
          · rcases List.mem_cons.mp (ih first) with hfirst | hrest
            · rw [hfirst]
              exact List.mem_cons_self
            · exact List.mem_cons_of_mem first (List.mem_cons_of_mem next hrest)

/-- Only an empty queue has no earliest timer. -/
theorem eq_nil_of_earliest? {queue : List Timer} (h : earliest? queue = none) : queue = [] := by
  cases queue with
  | nil => rfl
  | cons first rest => cases h

/-- A timer that expires is taken from the queue like one that is cancelled. -/
theorem without_expire (h : t.Keyed) (chunk : Nat) : Without t (t.expire chunk) chunk := by
  unfold expire
  split
  · rename_i hnone
    refine without_forget fun timer htimer hchunk => ?_
    have hempty := List.filter_eq_nil_iff.mp (eq_nil_of_earliest? hnone) timer htimer
    exact hempty (beq_iff_eq.mpr hchunk)
  · rename_i first hfirst
    obtain ⟨hmem, hchunk⟩ := List.mem_filter.mp (mem_of_earliest? hfirst)
    have hchunk : first.chunk = chunk := beq_iff_eq.mp hchunk
    refine ⟨List.erase_sublist, fun timer => ?_, lookup_forget t chunk⟩
    -- The timer that leaves the queue is the only one of its chunk.
    show timer ∈ t.queue.erase first ↔ _
    rw [h.distinct.of_map.mem_erase_iff, and_comm]
    refine and_congr_right fun htimer => not_congr ⟨fun heq => ?_, fun hsame => ?_⟩
    · rw [heq, hchunk]
    · exact h.eq_of_chunk htimer hmem (hsame.trans hchunk.symm)

/-- Expiry keeps the keys in order. -/
theorem Keyed.expire (h : t.Keyed) (chunk : Nat) : (t.expire chunk).Keyed :=
  (without_expire h chunk).keyed h

/-- Exactly the timer of the chunk expires. -/
theorem mem_chunks_expire (h : t.Keyed) :
    i ∈ (t.expire chunk).chunks ↔ i ≠ chunk ∧ i ∈ t.chunks :=
  (without_expire h chunk).mem_chunks

/-- The timer that has expired is one of those that are armed. -/
theorem mem_chunks_of_expired? {now : Nat} (h : t.expired? now = some chunk) :
    chunk ∈ t.chunks := by
  obtain ⟨timer, hfirst, htimer⟩ := Option.bind_eq_some_iff.mp h
  split at htimer
  · obtain rfl := Option.some.inj htimer
    exact List.mem_map_of_mem (mem_of_earliest? hfirst)
  · cases htimer

/-! ### Arming -/

/-- A free key lies above all keys that are taken. -/
theorem key_lt_freeKey {queue : List Timer} {timer : Timer} (h : timer ∈ queue) :
    timer.key < freeKey queue := by
  induction queue with
  | nil => cases h
  | cons first rest ih =>
      show timer.key < max (first.key + 1) (freeKey rest)
      rcases List.mem_cons.mp h with rfl | hrest
      · omega
      · have hlt := ih hrest
        omega

/-- Arming a timer disarms the one before it, and puts the new one at the end of the queue. -/
theorem arm_eq (h : t.Keyed) (chunk expiry : Nat) :
    t.arm chunk expiry = {
      queue := (t.cancel chunk).queue ++ [⟨freeKey t.queue, chunk, expiry⟩]
      keys := (chunk, freeKey t.queue) :: (t.forget chunk).keys } := by
  unfold arm cancel
  cases hlookup : t.keys.lookup chunk with
  | none => rfl
  | some stale =>
      -- The old timer is armed, so that the new one has another key.
      obtain ⟨old, hold, -, rfl⟩ := h.armed chunk stale hlookup
      have hfree : freeKey t.queue ≠ old.key := Nat.ne_of_gt (key_lt_freeKey hold)
      simp [remove, forget, List.filter_append, hfree]

/-- A timer is armed under a key that no other timer has. -/
theorem Keyed.arm (h : t.Keyed) (chunk expiry : Nat) : (t.arm chunk expiry).Keyed := by
  have hwithout := without_cancel h chunk
  have hcancel := h.cancel chunk
  -- The old timer of the chunk is disarmed, and the new one has a key that is free.
  have hlookup : ∀ i, (t.arm chunk expiry).keys.lookup i =
      if i = chunk then some (freeKey t.queue) else t.keys.lookup i := by
    intro i
    rw [arm_eq h, lookup_entry, lookup_forget]
    by_cases hi : i = chunk
    · rw [if_pos hi, if_pos hi]
    · rw [if_neg hi, if_neg hi, if_neg hi]
  have hmem : ∀ timer, timer ∈ (t.arm chunk expiry).queue ↔
      (timer ∈ t.queue ∧ timer.chunk ≠ chunk) ∨ timer = ⟨freeKey t.queue, chunk, expiry⟩ := by
    intro timer
    rw [arm_eq h, List.mem_append, List.mem_singleton, hwithout.mem]
  refine ⟨?_, ?_, ?_⟩
  · rw [arm_eq h, List.map_append, List.map_singleton, List.nodup_append]
    refine ⟨hcancel.distinct, List.nodup_singleton _, ?_⟩
    intro key hkey other hother
    obtain ⟨timer, htimer, rfl⟩ := List.mem_map.mp hkey
    obtain rfl := List.mem_singleton.mp hother
    exact Nat.ne_of_lt (key_lt_freeKey ((hwithout.mem timer).mp htimer).1)
  · intro timer htimer
    rw [hlookup]
    rcases (hmem timer).mp htimer with ⟨hold, hne⟩ | rfl
    · rw [if_neg hne]
      exact h.kept timer hold
    · exact if_pos rfl
  · intro i key hkey
    rw [hlookup] at hkey
    split at hkey
    · rename_i hi
      cases hkey
      exact ⟨_, (hmem _).mpr (.inr rfl), hi.symm, rfl⟩
    · rename_i hi
      obtain ⟨timer, htimer, rfl, hsame⟩ := h.armed i key hkey
      exact ⟨timer, (hmem timer).mpr (.inl ⟨htimer, hi⟩), rfl, hsame⟩

/-- The chunk has a timer now, and every other one that had. -/
theorem mem_chunks_arm (h : t.Keyed) {expiry : Nat} :
    i ∈ (t.arm chunk expiry).chunks ↔ i = chunk ∨ i ∈ t.chunks := by
  have hold : i ∈ (t.cancel chunk).chunks ↔ i ≠ chunk ∧ i ∈ t.chunks := mem_chunks_cancel h
  unfold chunks at hold ⊢
  rw [arm_eq h, List.map_append, List.mem_append, hold, List.map_singleton, List.mem_singleton]
  -- A timer that was armed before has made room for the new one.
  by_cases hi : i = chunk <;> simp [hi]

end

end Timers

end LayerCast
