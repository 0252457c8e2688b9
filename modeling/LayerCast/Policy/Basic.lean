import LayerCast.Policy.Layered
import LayerCast.Policy.Sequential

/-!
# `LayerCast.Policy.Basic`: what is fetched next

A `Policy` looks at the content, the playback buffer and the layers that are held, and answers
with the layers of one segment to fetch next. It is told what became of them. An empty answer
means that there is nothing to fetch now, or, when the policy is exhausted, that there is nothing
left.
-/

set_option autoImplicit false

namespace LayerCast

/-- One of the built-in policies with its state. -/
inductive Policy where
  | layered (p : Layered)
  | sequential (s : Sequential)

namespace Policy

/-- The policy that settings name, at its start. Room for all rates is set aside then and there,
which cannot be had for `2 ^ 60` rates or more. That limit is left out here: the rates are a list,
and the settings may ask for as many as they like. -/
def ofSettings (s : PolicySettings) (m : Manifest) : Policy :=
  match s.kind with
  | .layered => .layered (.ofSettings s)
  | .rateBased => .sequential { rule := .measured [] (max s.rateHistory 1) }
  | .bufferBased =>
    .sequential {
      rule := .filled (Span.ofMillis s.reservoirMillis) (Span.ofMillis s.cushionMillis) }
  | .alwaysLowest => .sequential { rule := .lowest }
  | .alwaysBest => .sequential { rule := .best (m.levels - 1) }

/-- The policy that settings name, if the content has anything to play. -/
def build (s : PolicySettings) (m : Manifest) : Except ManifestDefect Policy :=
  if (m.representations m.currentPeriod).isEmpty then .error (.noRepresentations m.currentPeriod)
  else if m.currentTotal = 0 then .error (.noSegments m.currentPeriod)
  else .ok (ofSettings s m)

/-- The name of a policy. -/
def name : Policy → String
  | .layered _ => "layered"
  | .sequential s => s.rule.name

/-- Whether a segment needs its base layer to be played. -/
def isLayered : Policy → Bool
  | .layered _ => true
  | .sequential _ => false

/-- The layers to fetch next, all of one number and in the order of their levels. -/
def next (p : Policy) (m : Manifest) (b : PlayoutBuffer) (h : Holdings) :
    Checked (List Segment × Policy) :=
  match p with
  | .layered l => do
    let segments ← l.next m h
    return (segments, p)
  | .sequential s =>
    let (segments, s) := s.take m b
    .ok (segments, .sequential s)

/-- Whether everything has been asked for, so that an empty answer is the end of the content. -/
def isExhausted (p : Policy) (m : Manifest) (h : Holdings) : Checked Bool :=
  match p with
  | .layered l => l.isExhausted m h
  | .sequential s => .ok (s.isExhausted m)

/-- A layer has arrived at a rate, in bits per second. -/
def delivered (p : Policy) (rate : Nat) : Policy :=
  match p with
  | .layered l => .layered l.delivered
  | .sequential s => .sequential (s.observe rate)

/-- The network has refused a segment. -/
def failed (p : Policy) (segment : Segment) : Policy :=
  match p with
  | .layered l => .layered l.failed
  | .sequential s => .sequential (s.rewind segment.number)

/-- A segment was dropped before it arrived, and has still to be played. The layered policy sees
that from what is held. -/
def abandoned (p : Policy) (segment : Segment) : Policy :=
  match p with
  | .layered _ => p
  | .sequential s => .sequential (s.rewind segment.number)

end Policy

end LayerCast
