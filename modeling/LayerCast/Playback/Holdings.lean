/-!
# `LayerCast.Playback.Holdings`: what is held on which level

`Holdings` knows the segments that have arrived, by level and number, and the order in which the
credited ones are played. Consumed time moves along the playout queue (`Holdings.advance`); a
segment whose time is used up is played, and everything up to its number is forgotten on every
level.
-/

set_option autoImplicit false

namespace LayerCast

/-- A credited segment that is not played to its end. -/
structure Unplayed where
  number : Nat
  /-- The part of its playback time that is not consumed, in nanoseconds. -/
  left : Nat
  deriving DecidableEq, Repr

/-- The segments that have arrived and are not played. -/
structure Holdings where
  /-- Level and number of every layer that is held. -/
  held : List (Nat × Nat) := []
  /-- The credited segments in the order of their numbers. -/
  playout : List Unplayed := []
  /-- The number of the last segment that was played to its end. -/
  lastConsumed : Option Nat := none
  deriving DecidableEq, Repr

namespace Holdings

/-- Whether playback has passed a number. -/
def isPlayed (h : Holdings) (number : Nat) : Bool :=
  match h.lastConsumed with
  | some last => number ≤ last
  | none => false

/-- Whether a layer is held. -/
def contains (h : Holdings) (level number : Nat) : Bool := (level, number) ∈ h.held

/-- The numbers that are held on a level. -/
def numbersAt (h : Holdings) (level : Nat) : List Nat :=
  (h.held.filter (·.1 == level)).map (·.2)

/-- How many segments are held on a level. -/
def count (h : Holdings) (level : Nat) : Nat := (h.numbersAt level).length

/-- The highest number that is held on a level. -/
def last? (h : Holdings) (level : Nat) : Option Nat := (h.numbersAt level).max?

/-- The highest level that holds a segment. -/
def highest? (h : Holdings) : Option Nat := (h.held.map (·.1)).max?

/-- Records a layer, unless it is held already or playback has passed it. -/
def record? (h : Holdings) (level number : Nat) : Option Holdings :=
  if h.isPlayed number || h.contains level number then none
  else some { h with held := (level, number) :: h.held }

/-- A layer is recorded exactly if it is new and its segment is still to be played. -/
theorem record?_eq_some_iff {h k : Holdings} {level number : Nat} :
    h.record? level number = some k ↔
      (h.isPlayed number = false ∧ h.contains level number = false) ∧
        k = { h with held := (level, number) :: h.held } := by
  unfold record?
  rw [← Bool.or_eq_false_iff]
  split <;> rename_i hc
  · simp [hc]
  · simp [eq_false_of_ne_true hc, eq_comm]

/-- Puts a segment at its place in the playout queue. -/
def insertUnplayed (u : Unplayed) : List Unplayed → List Unplayed
  | [] => [u]
  | v :: rest => if v.number < u.number then v :: insertUnplayed u rest else u :: v :: rest

/-- Queues a segment for playout, unless it is queued already or playback has passed it. -/
def schedule? (h : Holdings) (number time : Nat) : Option Holdings :=
  if h.isPlayed number || h.playout.any (·.number == number) then none
  else some { h with playout := insertUnplayed ⟨number, time⟩ h.playout }

/-- Wherever a segment is put, the queue has this segment and what it had before. -/
theorem insertUnplayed_perm (u : Unplayed) (queue : List Unplayed) :
    (insertUnplayed u queue).Perm (u :: queue) := by
  induction queue with
  | nil => exact List.Perm.refl _
  | cons v rest ih =>
      unfold insertUnplayed
      split
      · exact (ih.cons v).trans (List.Perm.swap u v rest)
      · exact List.Perm.refl _

/-- Consumes time from the front of the queue. Returns the numbers of the segments whose time is
used up, and the rest of the queue. Time beyond the end of the queue is lost. -/
def playOut (time : Nat) : List Unplayed → List Nat × List Unplayed
  | [] => ([], [])
  | u :: rest =>
    if time < u.left then ([], { u with left := u.left - time } :: rest)
    else
      let (played, rest) := playOut (time - u.left) rest
      (u.number :: played, rest)

/-- What is played and what is left have the numbers of the queue. -/
theorem playOut_numbers (time : Nat) (queue : List Unplayed) :
    (playOut time queue).1 ++ (playOut time queue).2.map Unplayed.number =
      queue.map Unplayed.number := by
  induction queue generalizing time with
  | nil => rfl
  | cons u rest ih =>
    unfold playOut
    split <;> simp [ih]

/-- Forgets everything up to a number that was played. -/
def passed (h : Holdings) (number : Nat) : Holdings :=
  { h with held := h.held.filter (number < ·.2), lastConsumed := some number }

/-- Accounts for consumed time. Returns the numbers of the segments that were played to their end,
in order. -/
def advance (h : Holdings) (time : Nat) : List Nat × Holdings :=
  let (played, playout) := playOut time h.playout
  (played, played.foldl passed { h with playout })

end Holdings

end LayerCast
