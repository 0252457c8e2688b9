import LayerCast.Simulation.Face

/-!
# `LayerCast.Simulation.Listener`: reading a face without a fetcher

A listener writes down all that a face delivers, with the times of arrival. It sees the end of the
face once, after everything that was still on its way.
-/

set_option autoImplicit false

namespace LayerCast

/-- A face and whoever reads it. -/
structure Listener where
  face : Face
  /-- Whether the end was seen. -/
  ended : Bool := false

namespace Listener

/-- The client sends an interest. Tells whether the face takes it. -/
def express (l : Listener) (now : Nat) (i : Interest) : Bool × Listener :=
  let (taken, face) := l.face.express now i
  (taken, { l with face })

/-- Waits from `now` until a moment, and what arrives just then is still read. Returns the replies
with their times; `none` stands for the end of the face. -/
def listen (l : Listener) (now deadline : Nat) : List (Nat × Option Reply) × Listener :=
  let face := (l.face.settle now).2
  let waiting := face.inbox.map fun r => (now, some r)
  let (arrived, transit) := face.transit.takeWhile (· ≤ deadline)
  let replies := waiting ++ arrived.map fun (time, r) => (time, some r)
  let face := { face with inbox := [], transit }
  if l.ended || face.isOpen || !transit.isEmpty then (replies, { l with face })
  else
    let time := (replies.getLast?.map (·.1)).getD now
    (replies ++ [(time, none)], { face, ended := true })

end Listener

end LayerCast
