import Mathlib.Data.List.Pairwise
import LayerCast.Proofs.Policy.InStep

/-!
# `LayerCast.Proofs.Playback.Occupancy`: what is held lies ahead of playback

`Holdings.Ahead` says that the playout queue stands in the order of its numbers, and that everything
that is queued or held lies behind the last segment that was played. In contrast to
`Holdings.Queues` the queue may have gaps and the numbers may come in any order. Recording a layer
(`Ahead.recorded`), scheduling a segment (`Ahead.schedule`) and consuming time (`Ahead.advance`)
keep this. Playback never goes back: what was played once stays played (`Ahead.isPlayed_advance`),
and a layer that was recorded is held until it is played (`Ahead.held_advance`).

`Holdings.Below` bounds all numbers that occur, which matters where they are read as words.
-/

set_option autoImplicit false

namespace LayerCast.Holdings

variable {h k : Holdings} {level number last bound time : Nat}

/-! ### What was played and what is held -/

/-- A segment is played if it, or a later one, was the last that was consumed. -/
theorem isPlayed_eq_true_iff :
    h.isPlayed number = true ↔ ∃ last, h.lastConsumed = some last ∧ number ≤ last := by
  unfold isPlayed
  cases h.lastConsumed with
  | none => simp
  | some last => simp

/-- A segment is still to be played if everything consumed lies before it. -/
theorem isPlayed_eq_false_iff :
    h.isPlayed number = false ↔ ∀ last, h.lastConsumed = some last → last < number := by
  rw [← Bool.not_eq_true, isPlayed_eq_true_iff]
  simp only [not_exists, not_and, Nat.not_le]

/-- The last segment that is held on a level. -/
theorem mem_of_last? (hlast : h.last? level = some last) :
    (level, last) ∈ h.held ∧ ∀ number, (level, number) ∈ h.held → number ≤ last := by
  obtain ⟨hmem, hle⟩ := List.max?_eq_some_iff.mp hlast
  exact ⟨mem_numbersAt.mp hmem, fun number hnumber => hle number (mem_numbersAt.mpr hnumber)⟩

/-- On a level without a last segment nothing is held. -/
theorem not_mem_of_last? (hlast : h.last? level = none) : (level, number) ∉ h.held := by
  intro hmem
  have hnumber := mem_numbersAt.mpr hmem
  rw [List.max?_eq_none_iff.mp hlast] at hnumber
  cases hnumber

/-- A layer can be recorded exactly if its segment was not played and it is not held. -/
theorem isSome_record?_iff :
    (h.record? level number).isSome = true ↔
      h.isPlayed number = false ∧ h.contains level number = false := by
  rw [Option.isSome_iff_exists]
  exact ⟨fun ⟨k, hk⟩ => (record?_eq_some_iff.mp hk).1,
    fun hfresh => ⟨_, record?_eq_some_iff.mpr ⟨hfresh, rfl⟩⟩⟩

/-- A segment can be queued exactly if it was not played and is not queued, and is put at its place
then. -/
theorem schedule?_eq_some_iff :
    h.schedule? number time = some k ↔
      (h.isPlayed number = false ∧ ∀ u ∈ h.playout, u.number ≠ number) ∧
        k = { h with playout := insertUnplayed ⟨number, time⟩ h.playout } := by
  have hnew : h.playout.any (·.number == number) = false ↔
      ∀ u ∈ h.playout, u.number ≠ number := by simp
  unfold schedule?
  rw [← hnew, ← Bool.or_eq_false_iff]
  split <;> rename_i hc
  · simp [hc]
  · simp [eq_false_of_ne_true hc, eq_comm]

/-! ### The order of playback -/

/-- What is queued stands in the order of the numbers, and all that is queued or held is still to be
played. -/
structure Ahead (h : Holdings) : Prop where
  sorted : (h.playout.map Unplayed.number).Pairwise (· < ·)
  queued : ∀ u ∈ h.playout, h.isPlayed u.number = false
  held : ∀ level number, (level, number) ∈ h.held → h.isPlayed number = false

/-- Where nothing is held or queued, nothing is out of order. -/
theorem ahead_empty : ({} : Holdings).Ahead :=
  ⟨List.Pairwise.nil, fun _ hu => (nomatch hu), fun _ _ hheld => (nomatch hheld)⟩

/-- Recording layers of a segment keeps the order. -/
theorem Ahead.recorded (hh : h.Ahead) (number : Nat) (levels : List Nat) :
    (levels.foldl (Holdings.recorded number) h).Ahead := by
  have hmem := mem_held_foldl_recorded levels h number
  obtain ⟨held, hheld⟩ := foldl_recorded_eq number levels h
  rw [hheld] at hmem ⊢
  refine ⟨hh.sorted, hh.queued, fun level n hn => ?_⟩
  rcases (hmem level n).mp hn with hold | ⟨rfl, -, hfresh⟩
  · exact hh.held level n hold
  · exact hfresh

/-- A segment of another number finds its place in a queue in order. -/
theorem sorted_insertUnplayed {u : Unplayed} {queue : List Unplayed}
    (hsorted : (queue.map Unplayed.number).Pairwise (· < ·))
    (hnew : ∀ v ∈ queue, v.number ≠ u.number) :
    ((insertUnplayed u queue).map Unplayed.number).Pairwise (· < ·) := by
  rw [List.pairwise_map] at hsorted ⊢
  induction queue with
  | nil => exact List.pairwise_singleton _ _
  | cons v rest ih =>
      obtain ⟨hfirst, hrest⟩ := List.pairwise_cons.mp hsorted
      obtain ⟨hv, hothers⟩ := List.forall_mem_cons.mp hnew
      unfold insertUnplayed
      split
      · rename_i hlt
        refine List.pairwise_cons.mpr ⟨fun w hw => ?_, ih hrest hothers⟩
        -- Behind the first one stand the new segment and those that stood there before.
        rcases List.mem_cons.mp ((insertUnplayed_perm u rest).mem_iff.mp hw) with rfl | hw
        · exact hlt
        · exact hfirst w hw
      · rename_i hge
        have hlt : u.number < v.number := by omega
        refine List.pairwise_cons.mpr ⟨fun w hw => ?_, hsorted⟩
        rcases List.mem_cons.mp hw with rfl | hw
        · exact hlt
        · exact Nat.lt_trans hlt (hfirst w hw)

/-- Scheduling a segment keeps the order. -/
theorem Ahead.schedule (hh : h.Ahead) (hk : h.schedule? number time = some k) : k.Ahead := by
  obtain ⟨⟨hfresh, hnew⟩, rfl⟩ := schedule?_eq_some_iff.mp hk
  refine ⟨sorted_insertUnplayed hh.sorted hnew, fun u hu => ?_, hh.held⟩
  rcases List.mem_cons.mp ((insertUnplayed_perm _ _).mem_iff.mp hu) with rfl | hu
  · exact hfresh
  · exact hh.queued u hu

/-! ### Consuming -/

/-- What consumed time plays is the first part of the queue, and the rest stays. -/
theorem advance_spec (h : Holdings) (time : Nat) :
    (h.advance time).1 ++ (h.advance time).2.playout.map Unplayed.number =
        h.playout.map Unplayed.number ∧
      (h.advance time).2.lastConsumed = (h.advance time).1.getLast?.or h.lastConsumed ∧
      ∀ level number, (level, number) ∈ (h.advance time).2.held ↔
        (level, number) ∈ h.held ∧ ∀ n ∈ (h.advance time).1, n < number := by
  refine ⟨?_, (foldl_passed _ _).2, mem_held_foldl_passed _ _⟩
  rw [playout_advance]
  exact playOut_numbers time h.playout

/-- What is played lies ahead of what was played before, and in order. -/
theorem Ahead.played (hh : h.Ahead) (time : Nat) :
    (h.advance time).1.Pairwise (· < ·) ∧
      (∀ n ∈ (h.advance time).1, h.isPlayed n = false) ∧
      ∀ n ∈ (h.advance time).1, ∀ u ∈ (h.advance time).2.playout, n < u.number := by
  obtain ⟨hsplit, -, -⟩ := advance_spec h time
  have hsorted := hh.sorted
  rw [← hsplit] at hsorted
  obtain ⟨hplayed, -, hbetween⟩ := List.pairwise_append.mp hsorted
  refine ⟨hplayed, fun n hn => ?_, fun n hn u hu => ?_⟩
  · have hmem : n ∈ h.playout.map Unplayed.number := hsplit ▸ List.mem_append_left _ hn
    obtain ⟨u, hu, rfl⟩ := List.mem_map.mp hmem
    exact hh.queued u hu
  · exact hbetween n hn u.number (List.mem_map_of_mem hu)

/-- Of numbers in order no one lies behind the last one. -/
theorem le_of_getLast? {numbers : List Nat} (hsorted : numbers.Pairwise (· < ·))
    (hlast : numbers.getLast? = some last) {n : Nat} (hn : n ∈ numbers) : n ≤ last := by
  have hle := (hsorted.imp Nat.le_of_lt).rel_getLast hn
  rw [List.getLast?_eq_some_getLast (List.ne_nil_of_mem hn)] at hlast
  exact Option.some.inj hlast ▸ hle

/-- What was played after time was consumed was played before, or is not beyond a segment that was
played with this time. -/
theorem Ahead.isPlayed_advance_iff (hh : h.Ahead) (time : Nat) :
    (h.advance time).2.isPlayed number = true ↔
      h.isPlayed number = true ∨ ∃ n ∈ (h.advance time).1, number ≤ n := by
  obtain ⟨-, hconsumed, -⟩ := advance_spec h time
  obtain ⟨hsorted, hfresh, -⟩ := hh.played time
  rw [isPlayed_eq_true_iff, isPlayed_eq_true_iff, hconsumed]
  -- The last segment played is the highest, since playback keeps the order.
  cases hlast : (h.advance time).1.getLast? with
  | none =>
      rw [List.getLast?_eq_none_iff.mp hlast]
      simp
  | some last =>
      have hmem := List.mem_of_getLast? hlast
      simp only [Option.some_or, Option.some.injEq, exists_eq_left']
      constructor
      · exact fun hnumber => .inr ⟨last, hmem, hnumber⟩
      · rintro (⟨earlier, hearlier, hnumber⟩ | ⟨n, hn, hnumber⟩)
        · have := isPlayed_eq_false_iff.mp (hfresh last hmem) earlier hearlier
          omega
        · have := le_of_getLast? hsorted hlast hn
          omega

/-- What was played once stays played. -/
theorem Ahead.isPlayed_advance (hh : h.Ahead) (time : Nat) (hplayed : h.isPlayed number = true) :
    (h.advance time).2.isPlayed number = true :=
  (hh.isPlayed_advance_iff time).mpr (.inl hplayed)

/-- What is held is held until it is played. -/
theorem Ahead.held_advance (hh : h.Ahead) (time : Nat) (hheld : (level, number) ∈ h.held) :
    (level, number) ∈ (h.advance time).2.held ∨ (h.advance time).2.isPlayed number = true := by
  obtain ⟨-, -, hmem⟩ := advance_spec h time
  by_cases hbehind : ∀ n ∈ (h.advance time).1, n < number
  · exact .inl ((hmem level number).mpr ⟨hheld, hbehind⟩)
  · simp only [not_forall, Nat.not_lt] at hbehind
    obtain ⟨n, hn, hle⟩ := hbehind
    exact .inr ((hh.isPlayed_advance_iff time).mpr (.inr ⟨n, hn, hle⟩))

/-- Consuming time keeps the order. -/
theorem Ahead.advance (hh : h.Ahead) (time : Nat) : (h.advance time).2.Ahead := by
  obtain ⟨hsplit, -, hmem⟩ := advance_spec h time
  obtain ⟨-, -, hbetween⟩ := hh.played time
  -- What is not played with this time was not played before.
  have hfresh : ∀ number, h.isPlayed number = false → (∀ n ∈ (h.advance time).1, n < number) →
      (h.advance time).2.isPlayed number = false := by
    intro number hbefore hbehind
    rw [← Bool.not_eq_true, hh.isPlayed_advance_iff]
    rintro (hplayed | ⟨n, hn, hle⟩)
    · rw [hbefore] at hplayed
      cases hplayed
    · exact absurd (hbehind n hn) (Nat.not_lt.mpr hle)
  refine ⟨?_, fun u hu => ?_, fun level number hheld => ?_⟩
  · have hsorted := hh.sorted
    rw [← hsplit] at hsorted
    exact (List.pairwise_append.mp hsorted).2.1
  · refine hfresh u.number ?_ fun n hn => hbetween n hn u hu
    have hnumber : u.number ∈ h.playout.map Unplayed.number :=
      hsplit ▸ List.mem_append_right _ (List.mem_map_of_mem hu)
    obtain ⟨v, hv, hsame⟩ := List.mem_map.mp hnumber
    exact hsame ▸ hh.queued v hv
  · obtain ⟨hold, hbehind⟩ := (hmem level number).mp hheld
    exact hfresh number (hh.held level number hold) hbehind

/-! ### Bounds -/

/-- All numbers of what was played and is held lie before a bound. -/
structure Within (h : Holdings) (bound : Nat) : Prop where
  held : ∀ level number, (level, number) ∈ h.held → number < bound
  consumed : ∀ number, h.lastConsumed = some number → number < bound

/-- All numbers that occur lie before a bound. -/
structure Below (h : Holdings) (bound : Nat) : Prop extends h.Within bound where
  queued : ∀ u ∈ h.playout, u.number < bound

/-- Where nothing is held or queued, every bound will do. -/
theorem below_empty (bound : Nat) : ({} : Holdings).Below bound :=
  ⟨⟨fun _ _ hheld => (nomatch hheld), fun _ hnone => (nomatch hnone)⟩, fun _ hu => (nomatch hu)⟩

/-- Layers of a segment before the bound may be recorded. -/
theorem Below.recorded (hh : h.Below bound) (hnumber : number < bound) (levels : List Nat) :
    (levels.foldl (Holdings.recorded number) h).Below bound := by
  have hmem := mem_held_foldl_recorded levels h number
  obtain ⟨held, hheld⟩ := foldl_recorded_eq number levels h
  rw [hheld] at hmem ⊢
  refine ⟨⟨fun level n hn => ?_, hh.consumed⟩, hh.queued⟩
  rcases (hmem level n).mp hn with hold | ⟨rfl, -, -⟩
  · exact hh.held level n hold
  · exact hnumber

/-- A segment before the bound may be queued. -/
theorem Below.schedule (hh : h.Below bound) (hnumber : number < bound)
    (hk : h.schedule? number time = some k) : k.Below bound := by
  obtain ⟨-, rfl⟩ := schedule?_eq_some_iff.mp hk
  refine ⟨⟨hh.held, hh.consumed⟩, fun u hu => ?_⟩
  rcases List.mem_cons.mp ((insertUnplayed_perm _ _).mem_iff.mp hu) with rfl | hu
  · exact hnumber
  · exact hh.queued u hu

/-- Playback brings no new numbers. -/
theorem Below.advance (hh : h.Below bound) (time : Nat) : (h.advance time).2.Below bound := by
  obtain ⟨hsplit, hconsumed, hmem⟩ := advance_spec h time
  -- What is played was queued, and what is still queued was so before.
  have hqueue : ∀ n ∈ h.playout.map Unplayed.number, n < bound := List.forall_mem_map.mpr hh.queued
  rw [← hsplit] at hqueue
  refine ⟨⟨fun level number hheld => hh.held level number ((hmem level number).mp hheld).1,
    fun number hlast => ?_⟩, fun u hu => ?_⟩
  · rw [hconsumed] at hlast
    cases hplayed : (h.advance time).1.getLast? with
    | none =>
        rw [hplayed] at hlast
        exact hh.consumed number hlast
    | some last =>
        rw [hplayed] at hlast
        obtain rfl := Option.some.inj hlast
        exact hqueue last (List.mem_append_left _ (List.mem_of_getLast? hplayed))
  · exact hqueue u.number (List.mem_append_right _ (List.mem_map_of_mem hu))

end LayerCast.Holdings
