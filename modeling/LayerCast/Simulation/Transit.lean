import LayerCast.Network.Packet

/-!
# `LayerCast.Simulation.Transit`: replies on their way

Replies arrive in the order of their times, and those of one moment in the order in which they were
sent. They are kept in one group for each moment, so that a crowd of replies for the same moment
costs no more than a single one.
-/

set_option autoImplicit false

namespace LayerCast

/-- Replies on their way: each moment with the replies that arrive then, the latest sent first.
The earliest moment comes first. -/
structure Transit where
  groups : List (Nat × List Reply) := []

namespace Transit

/-- Whether nothing is on its way. -/
def isEmpty (t : Transit) : Bool := t.groups.isEmpty

/-- Puts a reply into the group of its moment. -/
def insertGroup (time : Nat) (r : Reply) : List (Nat × List Reply) → List (Nat × List Reply)
  | [] => [(time, [r])]
  | (t, rs) :: rest =>
    if time < t then (time, [r]) :: (t, rs) :: rest
    else if time = t then (t, r :: rs) :: rest
    else (t, rs) :: insertGroup time r rest

/-- Sends a reply on its way. -/
def insert (t : Transit) (time : Nat) (r : Reply) : Transit := ⟨insertGroup time r t.groups⟩

/-- Takes the first replies as long as their moments pass a test, each with its moment. -/
def takeWhile (t : Transit) (test : Nat → Bool) : List (Nat × Reply) × Transit :=
  let (arrived, rest) := t.groups.span (test ·.1)
  (arrived.flatMap fun (time, rs) => rs.reverse.map (time, ·), ⟨rest⟩)

/-- The first moment after `now` at which a reply arrives. -/
def next? (t : Transit) (now : Nat) : Option Nat := (t.groups.map (·.1)).find? (now < ·)

end Transit

end LayerCast
