import LayerCast.Proofs.Arith.Seconds
import LayerCast.Transfer.RoundTrip

/-!
# `LayerCast.Proofs.Transfer.Tame`: estimates that do not fail

The gain of a round trip estimate is not bounded by its settings, and with an absurd one the
smoothed values grow with every sample until they are no lengths of time any more. That is the only
way for an estimate to fail. It is excluded for a gain that is a part of 1 and for samples up to
`RoundTrip.horizon`: the mean then stays between the samples, and the deviation between the
deviations of single samples (`Tame.measure`, `Tame.ack`). Such an estimate is `RoundTrip.Tame`.

Under the same conditions the timeout is a length of time, too (`Tame.timeout_lt`), so that nothing
is lost by computing it without a bound.
-/

set_option autoImplicit false

namespace LayerCast.RoundTrip

open Binary64 (IsPart IsCount amount approach)

/-- The time up to which estimates are followed, in seconds: about 140 million years. -/
def horizonSeconds : Nat := 4503599627370496

/-- The time up to which estimates are followed. -/
def horizon : Nat := horizonSeconds * Span.perSecond

/-- An estimate whose gain is a part of 1, and whose smoothed values lie within the horizon. -/
structure Tame (r : RoundTrip) : Prop where
  gain : IsPart r.settings.gain
  mean : r.mean.getD 0 ≤ horizon
  deviation : r.deviation ≤ horizon

section
variable {r : RoundTrip}

/-! ### Smoothing -/

/-- The horizon counts a power of two. -/
theorem horizon_mul_one : horizonSeconds * Binary64.one = 2 ^ (52 + Binary64.onePlace) := by
  have hpower : horizonSeconds = 2 ^ 52 := by decide
  rw [hpower, Binary64.one, ← Nat.pow_add]

/-- Within the horizon, whole seconds and their parts are counted. -/
theorem toSeconds_le {nanos : Nat} (h : nanos ≤ horizon) :
    IsCount (Span.toSeconds nanos) ∧
      amount (Span.toSeconds nanos) ≤ 2 ^ (52 + Binary64.onePlace) := by
  rw [← horizon_mul_one]
  exact Span.toSeconds_spec h (by decide)

/-- **Smoothing** does not leave the horizon, and its result is a length of time. -/
theorem exists_ofSeconds_approach {gain x : Float} {old : Nat} (hgain : IsPart gain)
    (hold : old ≤ horizon) (hx : IsCount x) (hle : amount x ≤ 2 ^ (52 + Binary64.onePlace)) :
    ∃ nanos, Span.ofSeconds (approach gain (Span.toSeconds old) x) = .ok nanos ∧
      nanos ≤ horizon := by
  obtain ⟨hcount, hbound⟩ := toSeconds_le hold
  obtain ⟨hresult, hamount⟩ := Binary64.approach_spec hgain hbound hcount hx hle
    (by decide) (by decide)
  rw [← horizon_mul_one] at hamount
  obtain ⟨nanos, hnanos, hnanosLe⟩ := Span.ofSeconds?_spec hresult hamount (by decide)
  exact ⟨nanos, Span.ofSeconds_eq_ok_iff.mpr hnanos, hnanosLe⟩

/-- The deviation of a sample from the mean is within the horizon if both are. -/
theorem abs_sub_le {mean sample : Nat} (hmean : mean ≤ horizon) (hsample : sample ≤ horizon) :
    IsCount (Span.toSeconds sample - Span.toSeconds mean).abs ∧
      amount (Span.toSeconds sample - Span.toSeconds mean).abs ≤
        2 ^ (52 + Binary64.onePlace) := by
  obtain ⟨hcount, hle⟩ := toSeconds_le hsample
  obtain ⟨hcount', hle'⟩ := toSeconds_le hmean
  refine (Binary64.sub_spec hcount hcount' ?_ (Binary64.pow_lt_beyond (by decide))).2
  rw [← Binary64.nearest_two_pow (52 + Binary64.onePlace)]
  refine Binary64.nearest_mono ?_
  generalize amount (Span.toSeconds sample) = a at *
  generalize amount (Span.toSeconds mean) = b at *
  omega

/-! ### Steps -/

/-- The default gain is a part of 1. -/
theorem isPart_default : IsPart ({} : RoundTripSettings).gain :=
  ⟨by decide +kernel, by decide +kernel⟩

/-- An estimate before any sample. -/
theorem tame_ofSettings {settings : RoundTripSettings} (hgain : IsPart settings.gain) :
    (ofSettings settings).Tame :=
  ⟨hgain, Nat.zero_le _, Nat.zero_le _⟩

/-- **A sample** within the horizon is taken into the estimate. -/
theorem Tame.measure (h : r.Tame) {sample : Nat} (hsample : sample ≤ horizon) :
    ∃ next, r.measure sample = .ok next ∧ next.Tame := by
  have hmean := h.mean
  unfold RoundTrip.measure
  cases hr : r.mean with
  | none =>
      exact ⟨_, rfl, h.gain, hsample, Nat.le_trans (Nat.div_le_self _ _) hsample⟩
  | some mean =>
      rw [hr] at hmean
      change mean ≤ horizon at hmean
      obtain ⟨hcount, hle⟩ := toSeconds_le hsample
      obtain ⟨hcount', hle'⟩ := abs_sub_le hmean hsample
      -- Mean and deviation each go a part of the way to a length within the horizon.
      obtain ⟨newMean, hnew, hnewLe⟩ := exists_ofSeconds_approach h.gain hmean hcount hle
      obtain ⟨newDeviation, hdeviation, hdeviationLe⟩ :=
        exists_ofSeconds_approach h.gain h.deviation hcount' hle'
      simp only [hnew, hdeviation]
      exact ⟨_, rfl, h.gain, hnewLe, hdeviationLe⟩

/-- **An answer** within the horizon is noted, whether it is a sample or not. -/
theorem Tame.ack (h : r.Tame) (chunk : Nat) {now : Nat} (hnow : now ≤ horizon) :
    ∃ sample? next, r.ack chunk now = .ok (sample?, next) ∧ next.Tame := by
  unfold RoundTrip.ack
  split
  · exact ⟨none, r, rfl, h⟩
  · rename_i s _
    simp only
    split
    · exact ⟨none, _, rfl, { h with }⟩
    · have hrest : ({ r with outstanding := without r.outstanding chunk } : RoundTrip).Tame :=
        { h with }
      obtain ⟨next, hnext, htame⟩ :=
        hrest.measure (Nat.le_trans (Nat.sub_le now s.time) hnow)
      refine ⟨some (Instant.since now s.time), next, ?_, htame⟩
      exact Checked.bind_eq_ok_iff.mpr ⟨next, hnext, rfl⟩

/-- What an estimate is told besides answers does not touch the smoothed values. -/
theorem Tame.sent (h : r.Tame) (chunk now : Nat) : (r.sent chunk now).Tame := { h with }

/-- Nor does a doubled timeout. -/
theorem Tame.backOff (h : r.Tame) : r.backOff.Tame := { h with }

/-- Nor does it matter which requests are waited for. -/
theorem Tame.forget (h : r.Tame) : r.forget.Tame := { h with }

/-! ### The timeout -/

/-- **The timeout of such an estimate is a length of time**, if the times in the settings are words
of milliseconds. -/
theorem Tame.timeout_lt (h : r.Tame) (hmultiplier : r.multiplier ≤ maxMultiplier)
    (hinitial : r.settings.initialMillis < word64)
    (hminimum : r.settings.minTimeoutMillis < word64) :
    r.timeout < word64 * Span.perSecond := by
  have hmean := h.mean
  have hdeviation := h.deviation
  have hinitial' : r.settings.initial < Span.perMilli * word64 :=
    Nat.mul_lt_mul_of_pos_left hinitial (by decide)
  have hminimum' : r.settings.minTimeout < Span.perMilli * word64 :=
    Nat.mul_lt_mul_of_pos_left hminimum (by decide)
  -- There is room for the largest backoff factor.
  have hroom (base : Nat) (hbase : base < word64 / 128 * Span.perSecond) :
      max base r.settings.minTimeout * r.multiplier < word64 * Span.perSecond := by
    refine Nat.lt_of_le_of_lt (Nat.mul_le_mul_left _ hmultiplier) ?_
    unfold word64 Span.perSecond Span.perMilli maxMultiplier at *
    omega
  unfold timeout
  cases hr : r.mean with
  | none => exact hroom _ (Nat.lt_trans hinitial' (by decide))
  | some mean =>
      rw [hr] at hmean
      change mean ≤ horizon at hmean
      have hlimit : horizon * 5 < word64 / 128 * Span.perSecond := by decide
      have hbase : mean + r.deviation * 4 < word64 / 128 * Span.perSecond := by omega
      exact hroom _ hbase

end

end LayerCast.RoundTrip
