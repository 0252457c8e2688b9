import LayerCast.Content.Manifest
import LayerCast.Playback.Buffer
import LayerCast.Settings.Basic

/-!
# `LayerCast.Policy.Sequential`: one representation for each segment

A sequential policy walks through the numbers of a period and asks for every segment once, on the
level that its `LevelRule` picks. A segment that did not arrive moves the walk back to its number.
-/

set_option autoImplicit false

namespace LayerCast

/-- How a level is picked. -/
inductive LevelRule where
  /-- The best level that the mean of the measured rates can sustain; the last `window` rates are
  kept, the oldest first. -/
  | measured (rates : List Nat) (window : Nat)
  /-- The higher the buffer is filled above the reservoir, the better the level, up to the best
  one at the end of the cushion. Both are in nanoseconds. -/
  | filled (reservoir cushion : Nat)
  /-- Always the lowest level. -/
  | lowest
  /-- Always the level that was the best one at the start. -/
  | best (level : Nat)
  deriving DecidableEq, Repr

namespace LevelRule

/-- The mean of measured rates, rounded down; none without a measurement. -/
def estimate? (rates : List Nat) : Option Nat :=
  if rates.isEmpty then none else some (rates.foldl (· + ·) 0 / rates.length)

/-- The highest level of which the bandwidth does not exceed a rate, or 0. -/
def levelFor (representations : List Representation) (rate : Nat) : Nat :=
  (((representations.zipIdx.filter (·.1.bandwidth ≤ rate)).map (·.2)).getLast?).getD 0

/-- The level for a buffer fill: 0 up to the reservoir, `top` from the end of the cushion on, and
in proportion between them. -/
def levelAt (reservoir cushion top filled : Nat) : Nat :=
  if filled ≤ reservoir then 0
  else if reservoir + cushion ≤ filled ∨ cushion = 0 then top
  else
    let fraction := Span.toSeconds (filled - reservoir) / Span.toSeconds cushion
    min (fraction * top.toUInt64.toFloat).toUInt64.toNat top

/-- The level that a rule picks. -/
def level (rule : LevelRule) (m : Manifest) (b : PlayoutBuffer) : Nat :=
  match rule with
  | .measured rates _ =>
    match estimate? rates with
    | none => 0
    | some rate => levelFor (m.representations m.currentPeriod) rate
  | .filled reservoir cushion => levelAt reservoir cushion (m.levels - 1) b.filled
  | .lowest => 0
  | .best level => level

/-- Takes the rate of a delivery into account. -/
def observe (rule : LevelRule) (rate : Nat) : LevelRule :=
  match rule with
  | .measured rates window =>
    .measured ((if rates.length = window then rates.drop 1 else rates) ++ [rate]) window
  | _ => rule

/-- The name of a rule. -/
def name : LevelRule → String
  | .measured _ _ => "rate-based"
  | .filled _ _ => "buffer-based"
  | .lowest => "always-lowest"
  | .best _ => "always-best"

end LevelRule

/-- A policy that asks for every segment on one level. -/
structure Sequential where
  rule : LevelRule
  /-- The number to ask for next. -/
  next : Nat := 0
  deriving DecidableEq, Repr

namespace Sequential

/-- Asks for the next segment, if the period has one. -/
def take (s : Sequential) (m : Manifest) (b : PlayoutBuffer) : List Segment × Sequential :=
  match m.segment? (s.rule.level m b) s.next with
  | some segment => ([segment], { s with next := s.next + 1 })
  | none => ([], s)

/-- Whether every segment of the period has been asked for. -/
def isExhausted (s : Sequential) (m : Manifest) : Bool := m.currentTotal ≤ s.next

/-- Goes back to a number, unless it is still to come. -/
def rewind (s : Sequential) (number : Nat) : Sequential :=
  { s with next := min s.next number }

/-- Takes the rate of a delivery into account. -/
def observe (s : Sequential) (rate : Nat) : Sequential :=
  { s with rule := s.rule.observe rate }

end Sequential

end LayerCast
