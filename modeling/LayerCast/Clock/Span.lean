import LayerCast.Arith.Checked
import LayerCast.Arith.Binary64

/-!
# `LayerCast.Clock.Span`: lengths of time and points in time

A length of time is a count of nanoseconds, and so is a point in time, which counts from the
moment the clock was started. Both are plain `Nat`s, so that sums and comparisons of them are
linear arithmetic. The clock itself shows whole milliseconds: whatever is set to happen between
two of them happens at the later one (`Span.ceilMillis`, `Instant.after`).

Lengths of time also pass through doubles, as seconds. `Span.toSeconds` rounds as IEEE arithmetic
does; `Span.ofSeconds?` takes the exact value of the double and rounds it to the nearest
nanosecond. `Span.ofSeconds` is for callers who cannot go on without a length of time.
-/

set_option autoImplicit false

namespace LayerCast

namespace Span

/-- Nanoseconds in a millisecond. -/
def perMilli : Nat := 1000000

/-- Nanoseconds in a second. -/
def perSecond : Nat := 1000000000

/-- A length of whole milliseconds. The number that is not known comes last, since a product is
evaluated along its second factor. -/
def ofMillis (ms : Nat) : Nat := perMilli * ms

/-- The whole milliseconds in a length of time. -/
def toMillis (nanos : Nat) : Nat := nanos / perMilli

/-- The whole milliseconds as a 64-bit word: what does not fit is cut off at the top. -/
def millisWord (nanos : Nat) : Nat := toMillis nanos % word64

/-- The first whole millisecond that is not before `nanos`. -/
def ceilMillis (nanos : Nat) : Nat := (nanos + (perMilli - 1)) / perMilli * perMilli

/-- The next whole millisecond is not before the moment itself. -/
theorem le_ceilMillis (nanos : Nat) : nanos ≤ ceilMillis nanos := by
  unfold ceilMillis perMilli
  omega

/-- It is less than a millisecond later. -/
theorem ceilMillis_lt (nanos : Nat) : ceilMillis nanos < nanos + perMilli := by
  unfold ceilMillis perMilli
  omega

/-- Whole milliseconds are read back as they were written. -/
theorem toMillis_ofMillis (ms : Nat) : toMillis (ofMillis ms) = ms := by
  unfold toMillis ofMillis perMilli
  omega

/-- A length of time in seconds: whole seconds and the rest are converted apart and then added. -/
def toSeconds (nanos : Nat) : Float :=
  (nanos / perSecond).toUInt64.toFloat + (nanos % perSecond).toUInt64.toFloat / 1000000000.0

/-- So many seconds, to the nearest nanosecond, a half going to the even one. There is no length
of time for a negative number, for one that is not finite, and from `2 ^ 64` seconds on. -/
def ofSeconds? (seconds : Float) : Option Nat :=
  match Binary64.decode seconds with
  | .finite negative significand shift =>
    if negative && significand != 0 then none
    else
      let nanos := roundHalfEven (significand <<< shift * perSecond) (1 <<< 1074)
      if nanos < word64 * perSecond then some nanos else none
  | _ => none

/-- So many seconds. What is no length of time is a fault. -/
def ofSeconds (seconds : Float) : Checked Nat :=
  match ofSeconds? seconds with
  | some nanos => .ok nanos
  | none => .error (if seconds < 0.0 then .negativeSeconds else .secondsOutOfRange)

/-- A length of time is a result exactly if it is one for `ofSeconds?`. -/
theorem ofSeconds_eq_ok_iff {seconds : Float} {nanos : Nat} :
    ofSeconds seconds = .ok nanos ↔ ofSeconds? seconds = some nanos := by
  unfold ofSeconds
  cases ofSeconds? seconds <;> simp

end Span

namespace Instant

/-- The time that has passed since `earlier`, none if `earlier` is still to come. -/
def since (now earlier : Nat) : Nat := now - earlier

/-- The moment at which something set at `now` for `length` later happens. -/
def after (now length : Nat) : Nat := Span.ceilMillis (now + length)

/-- Nothing happens too early. -/
theorem le_after (now length : Nat) : now + length ≤ after now length :=
  Span.le_ceilMillis _

end Instant

end LayerCast
