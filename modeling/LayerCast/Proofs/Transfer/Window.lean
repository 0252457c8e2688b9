import LayerCast.Proofs.Arith.Seconds
import LayerCast.Proofs.Transfer.Clockwork

/-!
# `LayerCast.Proofs.Transfer.Window`: the range of a congestion window

Whatever is done to a window, its size and its threshold stay between 1 and the ceiling that it was
made with, and the ceiling fits into a 32-bit word (`Window.InRange`). So nothing that is computed
from a size divides by zero, twice a size is cut off by the ceiling and not by the word, and the
time between two requests is a length of time (`InRange.ofSeconds?_eq_pacing`).

`stays_in_range` says so for every history of a window. A static window is never changed. Any other
one is brought to its ceiling by growth, doubling below the threshold, and stays there.
-/

set_option autoImplicit false

namespace LayerCast.Window

open Binary64 (IsCount amount amount_one amount_toFloat div_spec isCount_of_pos isCount_toFloat one
  pow_lt_beyond)

/-! ### Histories -/

/-- What can be done to a window. -/
inductive Step where
  | grow
  | shrink
  | setThreshold (n : Nat)
  deriving DecidableEq, Repr

/-- The window after one step. -/
def step (w : Window) : Step → Window
  | .grow => w.grow
  | .shrink => w.shrink
  | .setThreshold n => w.setThreshold n

/-- The window after a history, which begins with its latest step. -/
def after (w : Window) : List Step → Window
  | [] => w
  | s :: earlier => (w.after earlier).step s

/-- A window whose size and threshold lie between 1 and the ceiling. -/
structure InRange (w : Window) : Prop extends w.Sound where
  size_le : w.size ≤ w.ceiling
  threshold : 0 < w.threshold
  threshold_le : w.threshold ≤ w.ceiling
  word : w.ceiling < word32

section
variable {w : Window}

/-! ### The range -/

/-- What is clamped stays below the upper end, if there is room between the ends. -/
theorem clamp_le {high : Nat} (hhigh : 0 < high) (n : Nat) : clamp 1 high n ≤ high := by
  unfold clamp
  omega

/-- Every window starts in range, under the rule of its settings. -/
theorem inRange_ofSettings {settings : WindowSettings} {payload : Nat}
    (h : ofSettings settings payload = .ok w) : w.InRange ∧ w.rule = settings.rule := by
  have hsound := sound_ofSettings h
  obtain ⟨packet, -, h⟩ := Checked.bind_eq_ok_iff.mp h
  obtain ⟨bits, -, h⟩ := Checked.bind_eq_ok_iff.mp h
  have hceiling : clamp 1 (word32 - 1) (settings.linkRate / bits) < word32 :=
    Nat.lt_of_le_of_lt (clamp_le (by decide) _) (by decide)
  obtain rfl := Except.ok.inj h
  have hpos : 0 < clamp 1 (word32 - 1) (settings.linkRate / bits) := hsound.ceiling
  refine ⟨{ hsound with
    size_le := clamp_le hpos _
    threshold := Nat.lt_of_lt_of_le Nat.one_pos (Nat.le_max_right _ _)
    threshold_le := ?_
    word := hceiling }, rfl⟩
  exact Nat.max_le.mpr ⟨Nat.div_le_self _ _, hpos⟩

/-- A window is made if its packets can be counted in bits. -/
theorem ofSettings_ok {settings : WindowSettings} {payload : Nat}
    (hsum : payload + settings.packetOverhead < word64)
    (hbits : max (payload + settings.packetOverhead) 1 * 8 < word64) :
    ∃ w, ofSettings settings payload = .ok w :=
  ⟨_, Checked.bind_eq_ok_iff.mpr ⟨_, Checked.add_eq_ok_iff.mpr ⟨hsum, rfl⟩,
    Checked.bind_eq_ok_iff.mpr ⟨_, Checked.mul_eq_ok_iff.mpr ⟨hbits, rfl⟩, rfl⟩⟩⟩

/-- **A window is made exactly if the bits of a packet are a word.** -/
theorem exists_ofSettings_iff {settings : WindowSettings} {payload : Nat} (hpayload : 0 < payload) :
    (∃ w, ofSettings settings payload = .ok w) ↔
      payload + settings.packetOverhead < word64 / 8 := by
  have hwords : word64 / 8 * 8 = word64 := by decide
  constructor
  · rintro ⟨w, hw⟩
    obtain ⟨packet, hpacket, hw⟩ := Checked.bind_eq_ok_iff.mp hw
    obtain ⟨bits, hbits, -⟩ := Checked.bind_eq_ok_iff.mp hw
    obtain ⟨-, rfl⟩ := Checked.add_eq_ok_iff.mp hpacket
    obtain ⟨hlt, -⟩ := Checked.mul_eq_ok_iff.mp hbits
    omega
  · intro hlt
    exact ofSettings_ok (by omega) (by omega)

/-! ### Steps -/

/-- A static window is never changed. -/
theorem step_of_static (hstatic : w.rule = .static) (s : Step) : w.step s = w := by
  cases s <;> simp [step, grow, shrink, setThreshold, hstatic]

/-- An AIMD window doubles below its threshold and else grows by one, up to the ceiling. -/
theorem grow_of_aimd (haimd : w.rule = .aimd) :
    w.grow = { w with
      size := min (if w.size < w.threshold then 2 * w.size else w.size + 1) w.ceiling } := by
  simp [grow, haimd]

/-- An AIMD window is halved, but keeps room for one request. -/
theorem shrink_of_aimd (haimd : w.rule = .aimd) :
    w.shrink = { w with size := max (w.size / 2) 1 } := by
  simp [shrink, haimd]

/-- The threshold of an AIMD window is kept in range. -/
theorem setThreshold_of_aimd (haimd : w.rule = .aimd) (n : Nat) :
    w.setThreshold n = { w with threshold := clamp 1 w.ceiling n } := by
  simp [setThreshold, haimd]

/-- No step changes the rule or the ceiling. -/
theorem step_fixed (w : Window) (s : Step) :
    (w.step s).rule = w.rule ∧ (w.step s).ceiling = w.ceiling := by
  cases hrule : w.rule with
  | static =>
      rw [step_of_static hrule]
      exact ⟨hrule, rfl⟩
  | aimd => cases s <;> simp [step, grow, shrink, setThreshold, hrule]

/-- **One step** keeps the range. -/
theorem InRange.step (h : w.InRange) (s : Step) : (w.step s).InRange := by
  have hsize := h.size
  have hsizeLe := h.size_le
  -- A static window never moves, so that only the AIMD rule has steps.
  cases hrule : w.rule with
  | static =>
      rw [step_of_static hrule]
      exact h
  | aimd =>
      cases s with
      | grow =>
          show w.grow.InRange
          have hsound := h.toSound.grow
          rw [grow_of_aimd hrule] at hsound ⊢
          exact { h with size := hsound.size, size_le := Nat.min_le_right _ _ }
      | shrink =>
          show w.shrink.InRange
          rw [shrink_of_aimd hrule]
          refine { h with size := ?_, size_le := ?_ }
          · show 0 < max (w.size / 2) 1
            omega
          · show max (w.size / 2) 1 ≤ w.ceiling
            omega
      | setThreshold n =>
          show (w.setThreshold n).InRange
          rw [setThreshold_of_aimd hrule]
          exact { h with threshold := clamp_pos _ _, threshold_le := clamp_le h.ceiling n }

/-- **A history** keeps the range, the rule and the ceiling, and leaves a static window alone. -/
theorem InRange.after (h : w.InRange) (steps : List Step) :
    (w.after steps).InRange ∧ (w.after steps).rule = w.rule ∧
      (w.after steps).ceiling = w.ceiling ∧ (w.rule = .static → w.after steps = w) := by
  induction steps with
  | nil => exact ⟨h, rfl, rfl, fun _ => rfl⟩
  | cons s earlier ih =>
      obtain ⟨hrange, hrule, hceiling, hstatic⟩ := ih
      obtain ⟨hrule', hceiling'⟩ := step_fixed (w.after earlier) s
      refine ⟨hrange.step s, hrule'.trans hrule, hceiling'.trans hceiling, fun hw => ?_⟩
      rw [Window.after, step_of_static (hrule.trans hw), hstatic hw]

/-! ### Pacing -/

/-- **The time between two requests** is a length of time of at most a second. -/
theorem InRange.ofSeconds?_eq_pacing (h : w.InRange) :
    Span.ofSeconds? (1.0 / w.size.toUInt64.toFloat) = some w.pacing ∧
      w.pacing ≤ Span.perSecond := by
  have hfits : w.size < 2 ^ 53 :=
    Nat.lt_of_le_of_lt h.size_le (Nat.lt_trans h.word (by decide))
  have hsize : amount w.size.toUInt64.toFloat = w.size * one := amount_toFloat hfits
  have hpos : 0 < amount 1.0 := amount_one ▸ Binary64.one_pos
  have hunit : IsCount 1.0 :=
    isCount_of_pos hpos (amount_one ▸ pow_lt_beyond (show 1074 < 2098 by decide))
  -- A window has at least one request, so that the quotient is at most 1.
  have hle : amount 1.0 ≤ amount w.size.toUInt64.toFloat := by
    rw [amount_one, hsize]
    exact Nat.le_mul_of_pos_left one h.size
  obtain ⟨hcount, hone⟩ :=
    div_spec hunit (isCount_toFloat hfits) (Nat.lt_of_lt_of_le hpos hle) hle
  have hsecond : amount (1.0 / w.size.toUInt64.toFloat) ≤ 1 * one :=
    hone.trans_eq (Nat.one_mul one).symm
  obtain ⟨nanos, hnanos, hnanosLe⟩ := Span.ofSeconds?_spec hcount hsecond (by decide)
  have hpacing : w.pacing = nanos := by
    rw [pacing, hnanos, Option.getD_some]
  rw [hpacing]
  exact ⟨hnanos, hnanosLe.trans_eq (Nat.one_mul _)⟩

/-! ### Growth -/

/-- A window that has not reached its ceiling grows. -/
theorem InRange.size_grow (h : w.InRange) (haimd : w.rule = .aimd) :
    w.size + 1 ≤ w.grow.size ∨ w.grow.size = w.ceiling := by
  have hsize := h.size
  rw [grow_of_aimd haimd]
  show _ ≤ min _ w.ceiling ∨ min _ w.ceiling = w.ceiling
  split <;> omega

/-- Growing again and again brings a window to its ceiling, where it stays. -/
theorem InRange.size_after_growth (h : w.InRange) (haimd : w.rule = .aimd) (n : Nat) :
    min (w.size + n) w.ceiling ≤ (w.after (List.replicate n .grow)).size := by
  induction n with
  | zero => exact Nat.min_le_left _ _
  | succ n ih =>
      obtain ⟨hrange, hrule, hceiling, -⟩ := h.after (List.replicate n .grow)
      have hgrown := hrange.size_grow (hrule.trans haimd)
      rw [hceiling] at hgrown
      show _ ≤ (w.after (List.replicate n .grow)).grow.size
      omega

/-- **Windows stay in range.** Take settings for which the size of a packet and its number of bits
are 64-bit words. They give a window whose ceiling is a 32-bit word, and after any history of it the
size and the threshold lie between 1 and the ceiling, which does not change. A static window does
not change at all. Any other one shrinks to a half, but not below 1. Left to grow, it doubles below
its threshold as far as the ceiling allows, and after as many steps as the size was below the
ceiling it is there and stays. -/
theorem stays_in_range (settings : WindowSettings) (payload : Nat)
    (hsum : payload + settings.packetOverhead < word64)
    (hbits : max (payload + settings.packetOverhead) 1 * 8 < word64) :
    ∃ w, ofSettings settings payload = .ok w ∧ w.ceiling < word32 ∧
      ∀ steps v, w.after steps = v →
        (1 ≤ v.size ∧ v.size ≤ v.ceiling ∧ 1 ≤ v.threshold ∧ v.threshold ≤ v.ceiling) ∧
        v.ceiling = w.ceiling ∧
        (settings.rule = .static → v = w) ∧
        (settings.rule = .aimd → v.shrink.size = max 1 (v.size / 2) ∧
          (∀ n u, v.after (List.replicate n .grow) = u → u.size < u.threshold →
            u.grow.size = min (2 * u.size) v.ceiling) ∧
          ∀ n, v.ceiling - v.size ≤ n → (v.after (List.replicate n .grow)).size = v.ceiling) := by
  obtain ⟨w, hw⟩ := ofSettings_ok hsum hbits
  obtain ⟨hnew, hsettings⟩ := inRange_ofSettings hw
  refine ⟨w, hw, hnew.word, fun steps v hv => ?_⟩
  obtain ⟨hrange, hrule, hceiling, hstatic⟩ := hnew.after steps
  subst hv
  refine ⟨⟨hrange.size, hrange.size_le, hrange.threshold, hrange.threshold_le⟩, hceiling,
    fun h => hstatic (hsettings.trans h), fun haimd => ⟨?half, ?double, ?full⟩⟩
  -- The rule stays with the window.
  all_goals have haimd := hrule.trans (hsettings.trans haimd)
  case half =>
    rw [shrink_of_aimd haimd]
    exact Nat.max_comm _ _
  case double =>
    intro n u hu hbelow
    obtain ⟨-, hsame, hkept, -⟩ := hrange.after (List.replicate n .grow)
    subst hu
    rw [grow_of_aimd (hsame.trans haimd), ← hkept]
    simp only [if_pos hbelow]
  case full =>
    intro n hn
    obtain ⟨hgrown, -, hkept, -⟩ := hrange.after (List.replicate n .grow)
    have hreached := hrange.size_after_growth haimd n
    have hle := hgrown.size_le
    have hbelow := hrange.size_le
    omega

/-- A window of at most 5 packets, which starts with 2. -/
def sampleSettings : WindowSettings :=
  { linkRate := 400, packetOverhead := 2, initialSize := some 2 }

/-- Two decreases and a threshold of 4, the latest step first. -/
def sampleSteps : List Step := [.setThreshold 4, .shrink, .shrink]

/-- The sample window is 1 after two decreases, and has reached its ceiling after 4 steps. -/
theorem stays_in_range_sample :
    8 + sampleSettings.packetOverhead < word64 ∧
      max (8 + sampleSettings.packetOverhead) 1 * 8 < word64 ∧
      ∃ w, ofSettings sampleSettings 8 = .ok w ∧ w.ceiling = 5 ∧
        (w.after sampleSteps).size = 1 ∧ (w.after sampleSteps).threshold = 4 ∧
        ((w.after sampleSteps).after (List.replicate 4 .grow)).size = 5 := by
  have hsum : 8 + sampleSettings.packetOverhead < word64 := by decide
  have hbits : max (8 + sampleSettings.packetOverhead) 1 * 8 < word64 := by decide
  obtain ⟨w, hw, -, hsteps⟩ := stays_in_range sampleSettings 8 hsum hbits
  have hvalue : w = ⟨.aimd, 2, 2, 5⟩ := Except.ok.inj (hw.symm.trans (by decide))
  obtain ⟨-, hceiling, -, haimd⟩ := hsteps sampleSteps _ rfl
  obtain ⟨-, -, hfull⟩ := haimd rfl
  subst hvalue
  refine ⟨hsum, hbits, _, hw, rfl, rfl, rfl, ?_⟩
  exact (hfull 4 (by decide)).trans hceiling

end

end LayerCast.Window
