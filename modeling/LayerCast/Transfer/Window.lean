import LayerCast.Settings.Basic

/-!
# `LayerCast.Transfer.Window`: the congestion window

The window bounds how many chunk requests are out at a time. It lies between 1 and a ceiling, the
number of packets that the link carries in a second, and so does the threshold below which it
doubles. One window's worth of requests is sent in a second (`Window.pacing`).
-/

set_option autoImplicit false

namespace LayerCast

/-- `n`, or the nearer of the two bounds. -/
def clamp (low high n : Nat) : Nat := max low (min n high)

/-- A congestion window. -/
structure Window where
  rule : WindowRule
  size : Nat
  /-- Below it, the window doubles instead of growing by one. -/
  threshold : Nat
  ceiling : Nat
  deriving DecidableEq, Repr

namespace Window

/-- The window for chunks of so many bytes. -/
def ofSettings (s : WindowSettings) (payload : Nat) : Checked Window := do
  let packet ← Checked.add payload s.packetOverhead
  let bits ← Checked.mul (max packet 1) 8
  let ceiling := clamp 1 (word32 - 1) (s.linkRate / bits)
  return {
    rule := s.rule
    size := clamp 1 ceiling (s.initialSize.getD ceiling)
    threshold := max (ceiling / 2) 1
    ceiling }

/-- Growth: twice the size below the threshold, else one more. -/
def grow (w : Window) : Window :=
  match w.rule with
  | .static => w
  | .aimd =>
    { w with size := min (if w.size < w.threshold then 2 * w.size else w.size + 1) w.ceiling }

/-- Half the size after congestion. -/
def shrink (w : Window) : Window :=
  match w.rule with
  | .static => w
  | .aimd => { w with size := max (w.size / 2) 1 }

/-- Moves the threshold. -/
def setThreshold (w : Window) (n : Nat) : Window :=
  match w.rule with
  | .static => w
  | .aimd => { w with threshold := clamp 1 w.ceiling n }

/-- The time between two requests, in nanoseconds. The size is at least 1, so that the part of a
second always is a length of time (`Window.InRange.ofSeconds?_eq_pacing`). -/
def pacing (w : Window) : Nat := (Span.ofSeconds? (1.0 / w.size.toUInt64.toFloat)).getD 0

end Window

end LayerCast
