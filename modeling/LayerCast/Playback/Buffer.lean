import LayerCast.Clock.Span

/-!
# `LayerCast.Playback.Buffer`: the playback time in store

The buffer counts the playback time that is there to be consumed. Time is put in and taken out in
whole pieces: what does not fit is not put in, and what is not there is not taken.
-/

set_option autoImplicit false

namespace LayerCast

/-- A bounded store of playback time, in nanoseconds. -/
structure PlayoutBuffer where
  capacity : Nat
  filled : Nat := 0
  deriving DecidableEq, Repr

namespace PlayoutBuffer

/-- Whether so much more fits. -/
def hasRoom (b : PlayoutBuffer) (time : Nat) : Bool := b.filled + time ≤ b.capacity

/-- Puts time in, if it fits. -/
def add? (b : PlayoutBuffer) (time : Nat) : Option PlayoutBuffer :=
  if b.hasRoom time then some { b with filled := b.filled + time } else none

/-- Takes time out, if it is there. -/
def consume? (b : PlayoutBuffer) (time : Nat) : Option PlayoutBuffer :=
  if b.filled < time then none else some { b with filled := b.filled - time }

/-- Takes out whatever is left. -/
def drain (b : PlayoutBuffer) : Nat × PlayoutBuffer := (b.filled, { b with filled := 0 })

/-- Whether nothing is left. -/
def isEmpty (b : PlayoutBuffer) : Bool := b.filled == 0

/-- Time is added exactly if there is room for all of it. -/
theorem add?_eq_some_iff {b c : PlayoutBuffer} {time : Nat} :
    b.add? time = some c ↔
      b.filled + time ≤ b.capacity ∧ c = { b with filled := b.filled + time } := by
  simp [add?, hasRoom, eq_comm]

/-- Time is consumed exactly if all of it is there. -/
theorem consume?_eq_some_iff {b c : PlayoutBuffer} {time : Nat} :
    b.consume? time = some c ↔
      time ≤ b.filled ∧ c = { b with filled := b.filled - time } := by
  simp [consume?, eq_comm]

end PlayoutBuffer

end LayerCast
