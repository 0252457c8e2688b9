import Mathlib.Algebra.GroupWithZero.Nat
import LayerCast.Playback.Holdings

/-!
# `LayerCast.Proofs.Playback.Playout`: the playout queue stands without gaps

`Holdings.Queues first next time` says how far a playback has come: every segment before `first` was
played, the segments from `first` up to, and without, `next` are queued in their order, and there
are `time` nanoseconds left to play in them.

Recording a layer keeps this. Scheduling the segment `next` moves `next` on by one
(`Queues.schedule`). Consuming time that is there plays the next few segments from `first` on, and
moves `first` behind them (`Queues.advance`).
-/

set_option autoImplicit false

namespace LayerCast.Holdings

/-- Everything before `first` is played, and everything from there up to `next` is queued. -/
structure Queues (h : Holdings) (first next time : Nat) : Prop where
  order : first ≤ next
  numbers : h.playout.map Unplayed.number = List.range' first (next - first)
  /-- A segment with nothing left to play is not queued any more. -/
  left : ∀ u ∈ h.playout, 0 < u.left
  time : (h.playout.map Unplayed.left).sum = time
  consumed : h.lastConsumed = if first = 0 then none else some (first - 1)

/-- At the start nothing is played and nothing is queued. -/
theorem Queues.empty : ({} : Holdings).Queues 0 0 0 :=
  ⟨Nat.le_refl 0, rfl, fun _ hu => absurd hu List.not_mem_nil, rfl, rfl⟩

section
variable {h : Holdings} {first next time : Nat}

/-- What was played are the segments before `first`. -/
theorem Queues.isPlayed (hq : h.Queues first next time) (number : Nat) :
    h.isPlayed number = decide (number < first) := by
  rw [Holdings.isPlayed, hq.consumed]
  by_cases hfirst : first = 0
  · simp [hfirst]
  · rw [if_neg hfirst, Bool.eq_iff_iff]
    simp only [decide_eq_true_eq]
    omega

/-- Without time left to play nothing is queued. -/
theorem Queues.eq_of_time (hq : h.Queues first next 0) : first = next := by
  have hempty : h.playout = [] := by
    have htime := hq.time
    have hleft := hq.left
    -- A queued segment would still take time.
    cases hplayout : h.playout with
    | nil => rfl
    | cons u rest =>
        rw [hplayout, List.map_cons, List.sum_cons] at htime
        have hpositive := hleft u (hplayout ▸ List.mem_cons_self)
        omega
  have hnumbers := hq.numbers
  rw [hempty, List.map_nil, eq_comm, List.range'_eq_nil_iff] at hnumbers
  have horder := hq.order
  omega

/-- Without a segment that is queued there is nothing left to play. -/
theorem Queues.time_eq_zero (hq : h.Queues first first time) : time = 0 := by
  have hnumbers := hq.numbers
  rw [Nat.sub_self] at hnumbers
  rw [← hq.time, List.map_eq_nil_iff.mp hnumbers]
  rfl

/-- Where layers are recorded, nothing else changes. -/
theorem Queues.withHeld (hq : h.Queues first next time) (held : List (Nat × Nat)) :
    ({ h with held } : Holdings).Queues first next time :=
  ⟨hq.order, hq.numbers, hq.left, hq.time, hq.consumed⟩

/-- Recording a layer leaves the queue. -/
theorem Queues.record (hq : h.Queues first next time) (level number : Nat) :
    ((h.record? level number).getD h).Queues first next time := by
  cases hrecord : h.record? level number with
  | none => exact hq
  | some k =>
      obtain ⟨-, rfl⟩ := record?_eq_some_iff.mp hrecord
      exact hq.withHeld _

/-! ### Scheduling -/

/-- A segment that comes after all others is put at the end. -/
theorem insertUnplayed_of_lt {u : Unplayed} {queue : List Unplayed}
    (hlast : ∀ v ∈ queue, v.number < u.number) : insertUnplayed u queue = queue ++ [u] := by
  induction queue with
  | nil => rfl
  | cons v rest ih =>
      have hv : v.number < u.number := hlast v List.mem_cons_self
      rw [insertUnplayed, if_pos hv, ih fun w hw => hlast w (List.mem_cons_of_mem _ hw)]
      rfl

/-- The segment `next` can be scheduled, and comes at the end of the queue. -/
theorem Queues.schedule (hq : h.Queues first next time) {duration : Nat}
    (hduration : 0 < duration) :
    ∃ k, h.schedule? next duration = some k ∧ k.held = h.held ∧
      k.playout = h.playout ++ [⟨next, duration⟩] ∧
      k.Queues first (next + 1) (time + duration) := by
  have horder := hq.order
  have hlast : ∀ v ∈ h.playout, v.number < next := by
    intro v hv
    have hnumber := List.mem_map_of_mem (f := Unplayed.number) hv
    rw [hq.numbers, List.mem_range'_1] at hnumber
    omega
  -- So the segment `next` was neither played nor queued.
  have hfresh : (h.isPlayed next || h.playout.any (·.number == next)) = false := by
    rw [Bool.or_eq_false_iff, hq.isPlayed, List.any_eq_false]
    refine ⟨by simpa using horder, fun v hv => ?_⟩
    have hlt := hlast v hv
    simp only [beq_iff_eq]
    omega
  refine ⟨{ h with playout := h.playout ++ [⟨next, duration⟩] }, ?_, rfl, rfl, ?_⟩
  · rw [schedule?, hfresh, if_neg Bool.false_ne_true, insertUnplayed_of_lt hlast]
  · refine ⟨by omega, ?_, ?_, ?_, hq.consumed⟩
    · have hlength : next + 1 - first = next - first + 1 := by omega
      have hnext : first + (next - first) = next := by omega
      rw [List.map_append, hq.numbers, hlength, List.range'_concat, Nat.one_mul, hnext]
      rfl
    · intro u hu
      rcases List.mem_append.mp hu with hu | hu
      · exact hq.left u hu
      · obtain rfl := List.mem_singleton.mp hu
        exact hduration
    · rw [List.map_append, List.sum_append, hq.time]
      rfl

/-! ### Consuming -/

/-- What stays queued has something left. -/
theorem left_playOut {queue : List Unplayed} (hleft : ∀ u ∈ queue, 0 < u.left) (time : Nat) :
    ∀ u ∈ (playOut time queue).2, 0 < u.left := by
  induction queue generalizing time with
  | nil => exact hleft
  | cons u rest ih =>
      obtain ⟨-, hrest⟩ := List.forall_mem_cons.mp hleft
      unfold playOut
      by_cases hpart : time < u.left
      · -- The first segment is not played to its end.
        rw [if_pos hpart]
        exact List.forall_mem_cons.mpr ⟨Nat.sub_pos_of_lt hpart, hrest⟩
      · rw [if_neg hpart]
        exact ih hrest (time - u.left)

/-- Consuming takes its time out of the queue, if the queue has that much. -/
theorem sum_playOut {queue : List Unplayed} {time : Nat}
    (htime : time ≤ (queue.map Unplayed.left).sum) :
    ((playOut time queue).2.map Unplayed.left).sum = (queue.map Unplayed.left).sum - time := by
  induction queue generalizing time with
  | nil =>
      show 0 = 0 - time
      omega
  | cons u rest ih =>
      rw [List.map_cons, List.sum_cons] at htime ⊢
      unfold playOut
      by_cases hpart : time < u.left
      · -- The first segment is not played to its end.
        rw [if_pos hpart]
        show u.left - time + (rest.map Unplayed.left).sum = _
        omega
      · -- The first segment is played to its end, and the others take the rest of the time.
        rw [if_neg hpart]
        have hbeyond : time - u.left ≤ (rest.map Unplayed.left).sum := by omega
        show ((playOut (time - u.left) rest).2.map Unplayed.left).sum = _
        rw [ih hbeyond]
        omega

/-- Behind the first segment that stays queued, nothing is consumed. -/
theorem tail_playOut_suffix (queue : List Unplayed) (time : Nat) :
    (playOut time queue).2.tail <:+ queue.tail := by
  induction queue generalizing time with
  | nil => exact List.suffix_refl _
  | cons u rest ih =>
      unfold playOut
      split
      · exact List.suffix_refl _
      · exact (ih (time - u.left)).trans (List.tail_suffix rest)

/-- Passing numbers forgets layers and adds none. -/
theorem held_foldl_passed_sublist (numbers : List Nat) (h : Holdings) :
    (numbers.foldl passed h).held.Sublist h.held := by
  induction numbers generalizing h with
  | nil => exact List.Sublist.refl _
  | cons n rest ih => exact (ih (h.passed n)).trans List.filter_sublist

/-- Passing several numbers forgets what lies at or below one of them. -/
theorem mem_held_foldl_passed (numbers : List Nat) (h : Holdings) (level number : Nat) :
    (level, number) ∈ (numbers.foldl passed h).held ↔
      (level, number) ∈ h.held ∧ ∀ n ∈ numbers, n < number := by
  induction numbers generalizing h with
  | nil => simp
  | cons n rest ih =>
      rw [List.foldl_cons, ih, passed]
      simp only [List.mem_filter, decide_eq_true_eq, List.forall_mem_cons, and_assoc]

/-- Passing several numbers leaves the queue, and the last of them was consumed last. -/
theorem foldl_passed (numbers : List Nat) (h : Holdings) :
    (numbers.foldl passed h).playout = h.playout ∧
      (numbers.foldl passed h).lastConsumed = numbers.getLast?.or h.lastConsumed := by
  induction numbers generalizing h with
  | nil => exact ⟨rfl, rfl⟩
  | cons n rest ih =>
      obtain ⟨hplayout, hconsumed⟩ := ih (h.passed n)
      refine ⟨hplayout, ?_⟩
      rw [List.foldl_cons, hconsumed, List.getLast?_cons]
      cases rest.getLast? with
      | none => rfl
      | some last => rfl

/-- Consumed time leaves the queue that is not played out. -/
theorem playout_advance (h : Holdings) (time : Nat) :
    (h.advance time).2.playout = (playOut time h.playout).2 :=
  (foldl_passed _ _).1

/-- Consumed time plays the next few segments from `first` on. -/
theorem Queues.advance (hq : h.Queues first next time) {consumed : Nat} (hle : consumed ≤ time) :
    ∃ count, (h.advance consumed).1 = List.range' first count ∧
      (h.advance consumed).2.Queues (first + count) next (time - consumed) ∧
      ∀ level number, (level, number) ∈ (h.advance consumed).2.held ↔
        (level, number) ∈ h.held ∧ ∀ n ∈ List.range' first count, n < number := by
  have horder := hq.order
  have hthere : consumed ≤ (h.playout.map Unplayed.left).sum := by
    rw [hq.time]
    exact hle
  have hleft := left_playOut hq.left consumed
  have hsum := sum_playOut hthere
  -- The numbers of the queue are split into those that are played and those that stay.
  have hsplit := playOut_numbers consumed h.playout
  rw [hq.numbers, eq_comm, List.range'_eq_append_iff] at hsplit
  obtain ⟨count, hcount, hplayed, hqueued⟩ := hsplit
  obtain ⟨hplayout, hconsumed⟩ := foldl_passed (playOut consumed h.playout).1
    { h with playout := (playOut consumed h.playout).2 }
  refine ⟨count, hplayed, ⟨by omega, ?_, ?_, ?_, ?_⟩, ?_⟩
  · show ((playOut consumed h.playout).1.foldl passed _).playout.map Unplayed.number = _
    have hrest : next - first - count = next - (first + count) := by omega
    rw [hplayout, hqueued, Nat.mul_one, hrest]
  · show ∀ u ∈ ((playOut consumed h.playout).1.foldl passed _).playout, 0 < u.left
    rw [hplayout]
    exact hleft
  · show (((playOut consumed h.playout).1.foldl passed _).playout.map Unplayed.left).sum = _
    rw [hplayout, hsum, hq.time]
  · show ((playOut consumed h.playout).1.foldl passed _).lastConsumed = _
    rw [hconsumed, hplayed, hq.consumed]
    -- What was consumed last is the last number that was played, if any.
    cases count with
    | zero => rfl
    | succ count =>
        rw [List.range'_concat, List.getLast?_append]
        simp only [List.getLast?_singleton, Option.some_or]
        rw [if_neg (by omega)]
        congr 1
        omega
  · intro level number
    rw [← hplayed]
    exact mem_held_foldl_passed _ _ level number

end

end LayerCast.Holdings
