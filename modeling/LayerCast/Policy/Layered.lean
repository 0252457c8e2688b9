import LayerCast.Arith.Binary64
import LayerCast.Content.Manifest
import LayerCast.Playback.Holdings
import LayerCast.Settings.Basic

/-!
# `LayerCast.Policy.Layered`: quality layers over a deep base

Below a top level `t`, level `l` wants `gamma + ceil ((t - l) * alpha)` buffered segments, so the
lower layers build a deeper buffer than those above them. A decision has three phases. The steady
phase fills the levels up to the highest one in use, against that level as top. The growing phase
fills them against a top two levels higher. Then the next level is started. The first level of a
phase that lacks segments is asked for, and the levels above it that lack the same segment ride
along.

`alpha` grows with every failure and shrinks back after a run of successes. The sums of a decision
are those of words, so decisions are `Checked`.
-/

set_option autoImplicit false

namespace LayerCast

/-- The state of the layered policy. -/
structure Layered where
  gamma : Nat
  alpha : Float
  /-- The lower bound of `alpha`, its value at the start. -/
  alphaFloor : Float
  /-- The upper bound of `alpha`. -/
  alphaLimit : Float
  /-- Number of deliveries since the last failure or decay. -/
  successes : Nat := 0
  deriving Repr

/-- A level to be asked for first, with the number of the segment. -/
structure Target where
  level : Nat
  number : Nat
  deriving DecidableEq, Repr

/-- What a decision asks for. -/
inductive LayerChoice where
  /-- A level that lacks segments against `top`. -/
  | fill (target : Target) (top : Nat)
  /-- The first segment of a level that is not in use. -/
  | raise (target : Target)
  deriving DecidableEq, Repr

namespace Layered

/-- Number of successes that `alpha` endures before it decays. -/
def successStreak : Nat := 10

/-- The policy at its start. -/
def ofSettings (s : PolicySettings) : Layered :=
  { gamma := s.gamma, alpha := s.alpha, alphaFloor := s.alpha, alphaLimit := s.alphaLimit }

/-- Buffered segments that a level wants below a top level. -/
def desired (p : Layered) (level top : Nat) : Checked Nat :=
  let depth := (top - level).toUInt64.toFloat * p.alpha
  Checked.add p.gamma (Binary64.ceilWord depth)

/-- The number that a level needs next. A level that holds segments goes on behind the last one.
The base layer starts right behind playback, any other layer `gamma` segments ahead. -/
def nextNeeded (p : Layered) (h : Holdings) (level : Nat) : Checked Int :=
  match h.last? level with
  | some last => Checked.addSigned (asSigned last) 1
  | none =>
    let consumed :=
      match h.lastConsumed with
      | some n => asSigned n
      | none => -1
    Checked.addSigned consumed (if level = 0 then 1 else (p.gamma : Int))

/-- The number that can be asked for on a level, if it lies within the period. -/
def requestable (p : Layered) (m : Manifest) (h : Holdings) (level : Nat) :
    Checked (Option Nat) := do
  let next ← p.nextNeeded h level
  return if 0 ≤ next ∧ next < m.currentTotal then some next.toNat else none

/-- Whether a level lacks segments against a top level. -/
def isStarved (p : Layered) (h : Holdings) (top level : Nat) : Checked Bool := do
  let wanted ← p.desired level top
  return h.count level < wanted

/-- The number that a level lacks against a top level, if it can be asked for. -/
def lacking (p : Layered) (m : Manifest) (h : Holdings) (top level : Nat) :
    Checked (Option Nat) := do
  if ← p.isStarved h top level then p.requestable m h level else return none

/-- The first of several levels that lacks a segment. -/
def firstLacking (p : Layered) (m : Manifest) (h : Holdings) (top : Nat) :
    List Nat → Checked (Option Target)
  | [] => .ok none
  | level :: rest => do
    match ← p.lacking m h top level with
    | some number => return some ⟨level, number⟩
    | none => p.firstLacking m h top rest

/-- The highest level in use that the content has, or 0. -/
def highestInUse (m : Manifest) (h : Holdings) : Nat := min (h.highest?.getD 0) (m.levels - 1)

/-- What to ask for, if anything. -/
def decide (p : Layered) (m : Manifest) (h : Holdings) : Checked (Option LayerChoice) := do
  let highest := highestInUse m h
  let levels := List.range (highest + 1)
  match ← p.firstLacking m h highest levels with
  | some target => return some (.fill target highest)
  | none =>
    match ← p.firstLacking m h (highest + 2) levels with
    | some target => return some (.fill target (highest + 2))
    | none =>
      if highest + 1 < m.levels then
        let number ← p.requestable m h (highest + 1)
        return number.map fun n => .raise ⟨highest + 1, n⟩
      else return none

/-- The segments among several levels that lack just this number. -/
def riders (p : Layered) (m : Manifest) (h : Holdings) (top number : Nat) :
    List Nat → Checked (List Segment)
  | [] => .ok []
  | level :: rest => do
    let lacks ← p.lacking m h top level
    let others ← p.riders m h top number rest
    return (if lacks = some number then (m.segment? level number).toList else []) ++ others

/-- The layers to ask for next, all of one number and in the order of their levels. -/
def next (p : Layered) (m : Manifest) (h : Holdings) : Checked (List Segment) := do
  match ← p.decide m h with
  | none => return []
  | some (.raise target) => return (m.segment? target.level target.number).toList
  | some (.fill target top) =>
    let above := List.range' (target.level + 1) (highestInUse m h - target.level)
    let others ← p.riders m h top target.number above
    return (m.segment? target.level target.number).toList ++ others

/-- Whether the base layer has been asked for to its end. -/
def isExhausted (p : Layered) (m : Manifest) (h : Holdings) : Checked Bool := do
  let base ← p.requestable m h 0
  return base.isNone

/-- A layer has arrived: after a run of successes `alpha` decays towards its floor. -/
def delivered (p : Layered) : Layered :=
  if p.successes < successStreak then { p with successes := p.successes + 1 }
  else
    { p with successes := 0, alpha := Binary64.larger (p.alpha * 0.95) p.alphaFloor }

/-- A layer was refused: `alpha` grows towards its limit. -/
def failed (p : Layered) : Layered :=
  { p with successes := 0, alpha := Binary64.smaller (p.alpha * 1.2) p.alphaLimit }

end Layered

end LayerCast
