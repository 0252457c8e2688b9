import LayerCast.Policy.Basic

/-!
# `LayerCast.Policy.Adaptation`: built-in policies and others

A player takes its decisions from a built-in policy, or from one that its owner brings along. Of the
latter nothing is known but the promise that comes with it: the layers it asks for are all of one
number. Its decisions are all that a player sees of it, so a `Foreign` policy is described by
these. It may come to them by anything that it is told, and in one life it comes to one decision
each time that it is asked.
-/

set_option autoImplicit false

namespace LayerCast

/-- What a policy decides when it is asked for layers. -/
structure Decision where
  /-- The layers to fetch next. -/
  batch : List Segment := []
  /-- The number of the segment of which they are. -/
  number : Nat := 0
  numbered : ∀ s ∈ batch, s.number = number

/-- A policy that is not built in. -/
structure Foreign where
  name : String
  isLayered : Bool := false
  /-- What it decides, by the number of times that it was asked before. -/
  decision : Nat → Decision
  /-- Whether it is exhausted once it was asked so many times. -/
  isExhausted : Nat → Bool
  /-- How many times it was asked. -/
  asked : Nat := 0

/-- What decides for a player. -/
inductive Adaptation where
  | builtIn (p : Policy)
  | foreign (f : Foreign)

instance : Coe Policy Adaptation := ⟨.builtIn⟩

namespace Adaptation

/-- The name of what decides. -/
def name : Adaptation → String
  | .builtIn p => p.name
  | .foreign f => f.name

/-- Whether a segment needs its base layer to be played. -/
def isLayered : Adaptation → Bool
  | .builtIn p => p.isLayered
  | .foreign f => f.isLayered

/-- The layers to fetch next, all of one number. -/
def next (a : Adaptation) (m : Manifest) (b : PlayoutBuffer) (h : Holdings) :
    Checked (List Segment × Adaptation) :=
  match a with
  | .builtIn p => do
    let (segments, p) ← p.next m b h
    return (segments, .builtIn p)
  | .foreign f => .ok ((f.decision f.asked).batch, .foreign { f with asked := f.asked + 1 })

/-- Whether everything has been asked for, so that an empty answer is the end of the content. -/
def isExhausted (a : Adaptation) (m : Manifest) (h : Holdings) : Checked Bool :=
  match a with
  | .builtIn p => p.isExhausted m h
  | .foreign f => .ok (f.isExhausted f.asked)

/-- A layer has arrived at a rate, in bits per second. -/
def delivered (a : Adaptation) (rate : Nat) : Adaptation :=
  match a with
  | .builtIn p => .builtIn (p.delivered rate)
  | .foreign _ => a

/-- The network has refused a segment. -/
def failed (a : Adaptation) (segment : Segment) : Adaptation :=
  match a with
  | .builtIn p => .builtIn (p.failed segment)
  | .foreign _ => a

/-- A segment was dropped before it arrived, and has still to be played. -/
def abandoned (a : Adaptation) (segment : Segment) : Adaptation :=
  match a with
  | .builtIn p => .builtIn (p.abandoned segment)
  | .foreign _ => a

end Adaptation

end LayerCast
