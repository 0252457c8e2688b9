import LayerCast.Proofs.Arith.Doubles
import LayerCast.Proofs.Policy.Decision

/-!
# `LayerCast.Proofs.Policy.Slope`: how steep the layered policy becomes

What a level wants below a top level is a product with `alpha`, rounded up to a word, and `gamma`
more. The settings bound `alpha`. Failures do not raise it beyond its limit, and it does not decay
below the value that it started with, which is no more than the limit. `Layered.Bounded` says so in
terms of what doubles count. Deliveries and failures keep it (`Bounded.delivered`,
`Bounded.failed`).

So no level ever wants more than the base layer does at the limit, below a top that lies two levels
above the highest one of the content. If that is a word, no sum of a decision overflows
(`Bounded.exists_next`). `PolicySettings.Fits` has all conditions. The first three of them are
bounds that the machine sets to the content and to the settings, the other two are about the limit.
A policy for which `gamma` and twice `alpha` are no word together fails as soon as the base layer
has all that it wants in the steady phase (`next_of_steep`).
-/

set_option autoImplicit false

namespace LayerCast

open Binary64

/-- Settings of a layered policy whose decisions have results for some content. -/
structure PolicySettings.Fits (s : PolicySettings) (m : Manifest) : Prop where
  gamma : s.gamma < word32
  levels : m.levels + 1 < word32
  numbers : m.currentTotal + word32 ≤ signed64
  limit : s.alphaLimit.isNaN = false
  /-- What the base layer wants below a top beyond all levels is a word. -/
  depth : s.gamma + ceilWord ((m.levels + 1).toUInt64.toFloat * s.alphaLimit) < word64

namespace Layered

variable {l : Layered} {s : PolicySettings} {m : Manifest} {h : Holdings} {level top : Nat}

/-- A policy of these settings whose slope is within their limit. -/
structure Bounded (l : Layered) (s : PolicySettings) : Prop where
  gamma : l.gamma = s.gamma
  limit : l.alphaLimit = s.alphaLimit
  number : s.alphaLimit.isNaN = false
  start : amount l.alphaFloor ≤ amount s.alphaLimit
  slope : amount l.alpha ≤ amount s.alphaLimit

/-! ### The slope -/

/-- The factor of the decay makes nothing larger. -/
theorem decay_le : NotNegative (0.95 : Float).toModel.unpack ∧ amount 0.95 ≤ one := by
  have hpos : 0 < amount 0.95 := by decide +kernel
  exact ⟨notNegative_of_pos hpos, by decide +kernel⟩

/-- A policy starts within the limit if the limit is not below the start. -/
theorem bounded_ofSettings (hlimit : s.alphaLimit.isNaN = false)
    (hstart : ¬s.alphaLimit < s.alpha) : (ofSettings s).Bounded s where
  gamma := rfl
  limit := rfl
  number := hlimit
  start := amount_le_of_not_lt hlimit hstart
  slope := amount_le_of_not_lt hlimit hstart

/-- **A delivery** keeps the slope within the limit: it decays, but not below the start. -/
theorem Bounded.delivered (hl : l.Bounded s) : l.delivered.Bounded s := by
  unfold Layered.delivered
  split
  · exact { hl with }
  · refine { hl with slope := ?_ }
    show amount (larger (l.alpha * 0.95) l.alphaFloor) ≤ _
    unfold larger
    split
    · exact hl.start
    · obtain ⟨hsign, hone⟩ := decay_le
      exact Nat.le_trans (amount_mul_le_self l.alpha hsign hone) hl.slope

/-- **A failure** keeps the slope within the limit, as far as it may grow. -/
theorem Bounded.failed (hl : l.Bounded s) : l.failed.Bounded s := by
  refine { hl with slope := ?_ }
  show amount (smaller (l.alpha * 1.2) l.alphaLimit) ≤ _
  rw [hl.limit]
  unfold smaller
  split
  · exact Nat.le_refl _
  · rename_i hbelow
    exact amount_le_of_not_lt hl.number (not_or.mp hbelow).1

/-! ### Decisions -/

/-- What a level wants is the more, the deeper it lies and the steeper the policy is. -/
theorem Bounded.exists_desired (hl : l.Bounded s) (hfits : s.Fits m) (htop : top ≤ m.levels + 1) :
    ∃ wanted, l.desired level top = .ok wanted := by
  have hword := hfits.levels
  have hdeepest : m.levels + 1 < 2 ^ 53 := Nat.lt_trans hword (by decide)
  have hlower : top - level < 2 ^ 53 := by omega
  have hdepth : amount ((top - level).toUInt64.toFloat * l.alpha) ≤
      amount ((m.levels + 1).toUInt64.toFloat * s.alphaLimit) := by
    rw [amount_mul (.inl (notNegative_toFloat hlower)),
      amount_mul (.inl (notNegative_toFloat hdeepest)), amount_toFloat hlower,
      amount_toFloat hdeepest]
    exact product_mono (Nat.mul_le_mul_right one (by omega)) hl.slope
  have hceil := ceilWord_mono hdepth
  have hsum := hfits.depth
  refine ⟨_, Checked.add_eq_ok_iff.mpr ⟨?_, rfl⟩⟩
  rw [hl.gamma]
  omega

/-- The tops of both phases lie less than two levels above the content. -/
theorem Bounded.sized (hl : l.Bounded s) (hfits : s.Fits m) (hsome : 0 < m.levels) :
    l.Sized m h := by
  intro level hlevel top htop
  have hhighest : highestInUse m h ≤ m.levels - 1 := Nat.min_le_right _ _
  have htop : top = highestInUse m h ∨ top = highestInUse m h + 2 := by simpa using htop
  exact hl.exists_desired hfits (by omega)

/-- **Decisions have results** as long as the slope is within a limit that fits the content. -/
theorem Bounded.exists_next (hl : l.Bounded s) (hfits : s.Fits m) (hsome : 0 < m.levels)
    (hwithin : h.Within m.currentTotal) : ∃ batch, l.next m h = .ok batch := by
  have hgamma := hfits.gamma
  have hnumbers := hfits.numbers
  rw [← hl.gamma] at hgamma
  exact Layered.exists_next hwithin (by omega) (hl.sized hfits hsome)

/-- **A slope that is too steep for the words fails.** Only the base layer is in use, and nothing is
to be asked for in the steady phase. What the base layer wants below a top two levels higher is no
word, and so there is no decision. -/
theorem next_of_steep (hhighest : highestInUse m h = 0) (hsteady : l.lacking m h 0 0 = .ok none)
    (hsteep : word64 ≤ l.gamma + ceilWord ((2 : Nat).toUInt64.toFloat * l.alpha)) :
    l.next m h = .error .addOverflow := by
  have hgrowing : l.desired 0 2 = .error .addOverflow :=
    if_neg (Nat.not_lt.mpr hsteep)
  have hlacking : l.lacking m h 2 0 = .error .addOverflow := by
    rw [lacking, isStarved, hgrowing]
    rfl
  -- With one level in use the search looks at that level only.
  have hsteady' : l.firstLacking m h 0 [0] = .ok none := by
    rw [firstLacking, hsteady]
    rfl
  have hgrowing' : l.firstLacking m h 2 [0] = .error .addOverflow := by
    rw [firstLacking, hlacking]
    rfl
  have hdecide : l.decide m h = .error .addOverflow := by
    have hlevels : List.range (highestInUse m h + 1) = [0] := by
      rw [hhighest]
      rfl
    simp only [decide, hlevels]
    rw [hhighest, hsteady']
    show (l.firstLacking m h 2 [0] >>= _) = _
    rw [hgrowing']
    rfl
  rw [next, hdecide]
  rfl

end Layered

end LayerCast
