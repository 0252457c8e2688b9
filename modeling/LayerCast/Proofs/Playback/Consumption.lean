import LayerCast.Playback.Player
import LayerCast.Proofs.Playback.Occupancy

/-!
# `LayerCast.Proofs.Playback.Consumption`: what is played over a whole history

A history of the holdings is a list of `Call`s. Layers are recorded, segments are queued for playout
and time is consumed, with numbers and times as they come: out of order, twice, too late, with
nothing to play.

`InOrder played h` says that a history has played these numbers and has left `h`. Every call keeps
it (`InOrder.perform`), and so does every history (`InOrder.performAll`). `plays_forward` is what
this says about the holdings and about their answers.

`advance_split` says that only the sum of the consumed times matters, and not how it is cut into
ticks. It rests on `playOut_add`, which is about the queue alone.
-/

set_option autoImplicit false

namespace LayerCast.Holdings

variable {h k : Holdings} {played : List Nat}

/-! ### Histories -/

/-- A call of the holdings. -/
inductive Call where
  | record (level number : Nat)
  | schedule (number time : Nat)
  | advance (time : Nat)
  deriving DecidableEq, Repr

/-- What a call answers. -/
inductive Answer where
  /-- Whether a layer was recorded, or a segment queued. -/
  | accepted (yes : Bool)
  /-- The numbers of the segments that were played to their end, in order. -/
  | played (numbers : List Nat)
  deriving DecidableEq, Repr

/-- The numbers that were played according to an answer. -/
def Answer.numbers : Answer → List Nat
  | .accepted _ => []
  | .played numbers => numbers

/-- Takes new holdings over, if there are any. -/
def accept (h : Holdings) : Option Holdings → Answer × Holdings
  | some k => (.accepted true, k)
  | none => (.accepted false, h)

/-- Makes one call. -/
def perform (h : Holdings) : Call → Answer × Holdings
  | .record level number => h.accept (h.record? level number)
  | .schedule number time => h.accept (h.schedule? number time)
  | .advance time => (.played (h.advance time).1, (h.advance time).2)

/-- Makes calls one after the other. -/
def performAll (h : Holdings) : List Call → List Answer × Holdings
  | [] => ([], h)
  | call :: calls =>
    let (answer, h) := h.perform call
    let (answers, h) := h.performAll calls
    (answer :: answers, h)

/-- All numbers that were played during a history, in order. -/
def numbersPlayed (answers : List Answer) : List Nat := answers.flatMap Answer.numbers

/-! ### Playing forward -/

/-- A call that may be refused is refused exactly if nothing comes of it. -/
theorem accept_refused_iff {answer : Option Holdings} (hchange : ∀ k, answer = some k → k ≠ h) :
    (h.accept answer).1 = .accepted false ↔ (h.accept answer).2 = h := by
  cases answer with
  | none => exact iff_of_true rfl rfl
  | some k => exact iff_of_false (fun hyes => nomatch hyes) (hchange k rfl)

/-- A layer that is recorded was not held. -/
theorem ne_of_record? {level number : Nat} (hk : h.record? level number = some k) : k ≠ h := by
  obtain ⟨-, rfl⟩ := record?_eq_some_iff.mp hk
  exact fun hsame => List.cons_ne_self _ _ (congrArg held hsame)

/-- A segment that is queued makes the queue longer. -/
theorem ne_of_schedule? {number time : Nat} (hk : h.schedule? number time = some k) : k ≠ h := by
  obtain ⟨-, rfl⟩ := schedule?_eq_some_iff.mp hk
  intro hsame
  have hqueue : insertUnplayed ⟨number, time⟩ h.playout = h.playout := congrArg playout hsame
  have hlength := (insertUnplayed_perm ⟨number, time⟩ h.playout).length_eq
  rw [hqueue] at hlength
  exact absurd hlength (Nat.ne_of_lt (Nat.lt_succ_self _))

/-- The holdings after a history that has played these numbers. -/
structure InOrder (played : List Nat) (h : Holdings) : Prop where
  ahead : h.Ahead
  sorted : played.Pairwise (· < ·)
  consumed : h.lastConsumed = played.getLast?

/-- Before anything has been played, everything is in order. -/
theorem inOrder_empty : InOrder [] {} := ⟨ahead_empty, List.Pairwise.nil, rfl⟩

/-- What was played last is the highest number that was played. -/
theorem InOrder.le_consumed (hh : InOrder played h) {last number : Nat}
    (hlast : h.lastConsumed = some last) (hmem : number ∈ played) : number ≤ last :=
  le_of_getLast? hh.sorted (hh.consumed ▸ hlast) hmem

/-- Recording a layer plays nothing. -/
theorem InOrder.record (hh : InOrder played h) {level number : Nat}
    (hk : h.record? level number = some k) : InOrder played k := by
  have hahead := hh.ahead.recorded number [level]
  rw [List.foldl_cons, List.foldl_nil, recorded, hk] at hahead
  obtain ⟨-, rfl⟩ := record?_eq_some_iff.mp hk
  exact ⟨hahead, hh.sorted, hh.consumed⟩

/-- Queueing a segment plays nothing. -/
theorem InOrder.schedule (hh : InOrder played h) {number time : Nat}
    (hk : h.schedule? number time = some k) : InOrder played k := by
  have hahead := hh.ahead.schedule hk
  obtain ⟨-, rfl⟩ := schedule?_eq_some_iff.mp hk
  exact ⟨hahead, hh.sorted, hh.consumed⟩

/-- Consumed time plays on behind what was played. -/
theorem InOrder.advance (hh : InOrder played h) (time : Nat) :
    InOrder (played ++ (h.advance time).1) (h.advance time).2 := by
  obtain ⟨hsorted, hfresh, -⟩ := hh.ahead.played time
  obtain ⟨-, hconsumed, -⟩ := advance_spec h time
  refine ⟨hh.ahead.advance time, List.pairwise_append.mpr ⟨hh.sorted, hsorted, ?_⟩, ?_⟩
  · -- Whatever was played is not beyond the last one, and nothing new was played by then.
    intro earlier hearlier n hn
    cases hlast : h.lastConsumed with
    | none =>
        rw [hh.consumed, List.getLast?_eq_none_iff] at hlast
        rw [hlast] at hearlier
        cases hearlier
    | some last =>
        exact Nat.lt_of_le_of_lt (hh.le_consumed hlast hearlier)
          (isPlayed_eq_false_iff.mp (hfresh n hn) last hlast)
  · rw [hconsumed, hh.consumed, List.getLast?_append]

/-- One call plays on behind what was played. -/
theorem InOrder.perform (hh : InOrder played h) (call : Call) :
    InOrder (played ++ (h.perform call).1.numbers) (h.perform call).2 := by
  cases call with
  | record level number =>
      simp only [Holdings.perform]
      cases hk : h.record? level number with
      | none => simpa [accept, Answer.numbers] using hh
      | some k => simpa [accept, Answer.numbers] using hh.record hk
  | schedule number time =>
      simp only [Holdings.perform]
      cases hk : h.schedule? number time with
      | none => simpa [accept, Answer.numbers] using hh
      | some k => simpa [accept, Answer.numbers] using hh.schedule hk
  | advance time => exact hh.advance time

/-- A whole history plays on behind what was played. -/
theorem InOrder.performAll (hh : InOrder played h) (calls : List Call) :
    InOrder (played ++ numbersPlayed (h.performAll calls).1) (h.performAll calls).2 := by
  induction calls generalizing h played with
  | nil => simpa [Holdings.performAll, numbersPlayed] using hh
  | cons call calls ih =>
      have hrest := ih (hh.perform call)
      rw [List.append_assoc] at hrest
      exact hrest

/-- Playback does not go back during a history. -/
theorem InOrder.consumed_le (hh : InOrder played h) (calls : List Call) {last : Nat}
    (hlast : h.lastConsumed = some last) :
    ∃ later, (h.performAll calls).2.lastConsumed = some later ∧ last ≤ later := by
  have hend := hh.performAll calls
  have hmem : last ∈ played := List.mem_of_getLast? (hh.consumed ▸ hlast)
  cases hlater : (h.performAll calls).2.lastConsumed with
  | none =>
      rw [hend.consumed, List.getLast?_eq_none_iff, List.append_eq_nil_iff] at hlater
      rw [hlater.1] at hmem
      cases hmem
  | some later => exact ⟨later, rfl, hend.le_consumed hlater (List.mem_append_left _ hmem)⟩

/-- **Playback only goes forward.** After every history the queue stands in the order of its
numbers, and everything that is queued or held lies behind the segment that was played last, which
no further history takes back. All numbers that are ever played come in order, so that none is
played twice. A layer or a segment is refused exactly if the call changes nothing. -/
theorem plays_forward (calls more : List Call) :
    let answers := (({} : Holdings).performAll calls).1
    let h := (({} : Holdings).performAll calls).2
    (h.playout.map Unplayed.number).Pairwise (· < ·) ∧
      (∀ last, h.lastConsumed = some last →
        (∀ u ∈ h.playout, last < u.number) ∧
          (∀ level number, (level, number) ∈ h.held → last < number) ∧
          ∃ later, (h.performAll more).2.lastConsumed = some later ∧ last ≤ later) ∧
      (numbersPlayed answers).Pairwise (· < ·) ∧
      (∀ level number, (h.perform (.record level number)).1 = .accepted false ↔
        (h.perform (.record level number)).2 = h) ∧
      ∀ number time, (h.perform (.schedule number time)).1 = .accepted false ↔
        (h.perform (.schedule number time)).2 = h := by
  intro answers h
  have hh : InOrder (numbersPlayed answers) h := inOrder_empty.performAll calls
  refine ⟨hh.ahead.sorted, fun last hlast => ⟨fun u hu => ?_, fun level number hheld => ?_, ?_⟩,
    hh.sorted, fun level number => ?_, fun number time => ?_⟩
  · exact isPlayed_eq_false_iff.mp (hh.ahead.queued u hu) last hlast
  · exact isPlayed_eq_false_iff.mp (hh.ahead.held level number hheld) last hlast
  · exact hh.consumed_le more hlast
  · exact accept_refused_iff fun _ => ne_of_record?
  · exact accept_refused_iff fun _ => ne_of_schedule?

/-- Segments that come out of order, one of them without playing time, and calls that come twice or
too late. -/
def sampleHistory : List Call :=
  [.record 0 3, .schedule 3 2, .record 0 1, .record 1 1, .record 1 1, .schedule 1 0, .schedule 1 5,
    .advance 1, .record 2 1, .schedule 1 4, .record 1 5, .advance 3]

/-- In the sample history segment 1 is played and then segment 3. What comes too late or twice is
refused. -/
theorem plays_forward_sample :
    ({} : Holdings).performAll sampleHistory =
        ([.accepted true, .accepted true, .accepted true, .accepted true, .accepted false,
          .accepted true, .accepted false, .played [1], .accepted false, .accepted false,
          .accepted true, .played [3]],
          { held := [(1, 5)], lastConsumed := some 3 }) ∧
      ∃ later, (((({} : Holdings).performAll sampleHistory).2.performAll
        [.schedule 7 1, .advance 5]).2).lastConsumed = some later ∧ 3 ≤ later :=
  ⟨by decide,
    ((plays_forward sampleHistory [.schedule 7 1, .advance 5]).2.1 3 (by decide)).2.2⟩

/-! ### Ticks -/

/-- What is left of the queue after some time plays on with more time as if both were one. -/
theorem playOut_add (first second : Nat) (queue : List Unplayed) :
    playOut (first + second) queue =
      ((playOut first queue).1 ++ (playOut second (playOut first queue).2).1,
        (playOut second (playOut first queue).2).2) := by
  -- The first tick changes on the way, because every segment played leaves less of it.
  induction queue generalizing first with
  | nil => rfl
  | cons u rest ih =>
      by_cases hfirst : first < u.left
      · -- The first tick ends inside the segment, and the second one goes on there.
        have hplayed : playOut first (u :: rest) =
            ([], { u with left := u.left - first } :: rest) := by rw [playOut, if_pos hfirst]
        simp only [hplayed, List.nil_append]
        unfold playOut
        by_cases hboth : first + second < u.left
        · have hinside : second < u.left - first := by omega
          simp only [if_pos hboth, if_pos hinside, Nat.sub_sub]
        · have hbeyond : ¬ second < u.left - first := by omega
          have hrest : first + second - u.left = second - (u.left - first) := by omega
          simp only [if_neg hboth, if_neg hbeyond, hrest]
      · -- The first tick plays the segment to its end, and the rest of it goes to the next ones.
        have hboth : ¬ first + second < u.left := by omega
        have hrest : first + second - u.left = first - u.left + second := by omega
        simp only [playOut, if_neg hfirst, if_neg hboth, hrest, ih, List.cons_append]

/-- Passing numbers does not look at the queue. -/
theorem foldl_passed_playout (numbers : List Nat) (h : Holdings) (playout : List Unplayed) :
    ({ numbers.foldl passed h with playout } : Holdings) =
      numbers.foldl passed { h with playout } := by
  induction numbers generalizing h with
  | nil => rfl
  | cons n rest ih => exact ih (h.passed n)

/-- Two ticks are one. -/
theorem advance_add (h : Holdings) (first second : Nat) :
    h.advance (first + second) =
      ((h.advance first).1 ++ ((h.advance first).2.advance second).1,
        ((h.advance first).2.advance second).2) := by
  simp only [advance, playOut_add first second h.playout, (foldl_passed _ _).1, List.foldl_append,
    foldl_passed_playout]

/-- **Consumption does not depend on the ticks.** Two ticks play the same segments as one tick of
their sum and leave the same holdings, and so do any number of ticks. -/
theorem advance_split (h : Holdings) (first : Nat) (ticks : List Nat) :
    (∀ second, ((h.advance first).1 ++ ((h.advance first).2.advance second).1,
      ((h.advance first).2.advance second).2) = h.advance (first + second)) ∧
    (numbersPlayed (h.performAll ((first :: ticks).map .advance)).1,
      (h.performAll ((first :: ticks).map .advance)).2) = h.advance (first + ticks.sum) := by
  refine ⟨fun second => (h.advance_add first second).symm, ?_⟩
  induction ticks generalizing h first with
  | nil => simp [performAll, perform, numbersPlayed, Answer.numbers]
  | cons second ticks ih =>
      have hrest := ih (h.advance first).2 second
      rw [List.sum_cons, advance_add, ← hrest]
      rfl

end LayerCast.Holdings

namespace LayerCast.Player

/-- What a player has played does not depend on the ticks either. -/
theorem played_add (p : Player) (first second : Nat) :
    p.played (first + second) =
      ((p.played first).1 ++ ((p.played first).2.played second).1,
        ((p.played first).2.played second).2) := by
  simp only [played, Holdings.advance_add, Nat.add_assoc]

end LayerCast.Player
