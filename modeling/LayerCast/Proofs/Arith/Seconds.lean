import LayerCast.Clock.Span
import LayerCast.Proofs.Arith.Sums

/-!
# `LayerCast.Proofs.Arith.Seconds`: lengths of time as doubles

A length of time of at most so many seconds counts at most so many as a double
(`Span.toSeconds_spec`), and a double that counts at most so many seconds is a length of time of at
most so many (`Span.ofSeconds?_spec`). Rounding does no harm in either direction, since whole
seconds are not rounded as long as they are numbers of 53 digits.
-/

set_option autoImplicit false

namespace LayerCast

namespace Binary64

open Float.Model Float.Model.UnpackedFloat

/-- A double that counts something, but not as much as an infinite one, is finite. -/
theorem isCount_of_pos {x : Float} (hpos : 0 < amount x) (hrange : amount x < beyond) :
    IsCount x := by
  rw [amount_eq] at hpos hrange
  unfold IsCount
  generalize x.toModel.unpack = u at *
  cases u with
  | notANumber => exact absurd hpos (Nat.lt_irrefl 0)
  | zero s => trivial
  | infinity s =>
      cases s with
      | negative => exact absurd hpos (Nat.lt_irrefl 0)
      | positive => exact absurd hrange (Nat.lt_irrefl _)
  | finite s m e h =>
      cases s with
      | negative => exact absurd hpos (Nat.lt_irrefl 0)
      | positive => trivial

/-- A number of 53 digits is in range. -/
theorem mul_one_lt_beyond {n : Nat} (hn : n < 2 ^ 53) : n * one < beyond :=
  Nat.lt_of_lt_of_le (Nat.mul_lt_mul_of_pos_right hn one_pos)
    (mul_one_le_beyond (Nat.le_refl _) (by decide))

/-- A number of 53 digits is not rounded. -/
theorem nearest_mul_one {n : Nat} (hn : n < 2 ^ 53) : nearest 0 (n * one) = n * one :=
  nearest_zero_mul_pow n onePlace hn

/-- The double of a number is finite and not negative. -/
theorem isCount_toFloat {n : Nat} (hn : n < 2 ^ 53) : IsCount n.toUInt64.toFloat := by
  rcases Nat.eq_zero_or_pos n with rfl | hpos
  · have hzero : (0 : Nat).toUInt64.toFloat.toModel.unpack = .zero .positive := unpack_packedZero
    rw [IsCount, hzero]
    trivial
  · have hamount := amount_toFloat hn
    refine isCount_of_pos ?_ ?_
    · rw [hamount]
      exact Nat.mul_pos hpos one_pos
    · rw [hamount]
      exact mul_one_lt_beyond hn

/-- A count is read from the bits as a finite number, which is not negative unless it is zero. -/
theorem IsCount.decode_eq {x : Float} (h : IsCount x) :
    ∃ negative significand shift, decode x = .finite negative significand shift ∧
      (negative && significand != 0) = false ∧ significand <<< shift = amount x := by
  unfold IsCount at h
  rw [unpack_eq_decode] at h
  unfold amount
  cases hx : decode x with
  | nan =>
      rw [hx] at h
      exact h.elim
  | infinite negative =>
      rw [hx] at h
      exact h.elim
  | finite negative significand shift =>
      refine ⟨negative, significand, shift, rfl, ?_⟩
      cases negative with
      | false => exact ⟨rfl, rfl⟩
      | true =>
          -- A minus sign is allowed before a zero only.
          rcases Nat.eq_zero_or_pos significand with rfl | hpos
          · exact ⟨rfl, Nat.zero_shiftLeft shift⟩
          · rw [hx] at h
            simp only [signOfBit, ofSignificand, dif_neg (Nat.ne_of_gt hpos)] at h
            exact h.elim

end Binary64

namespace Span

open Binary64

variable {nanos seconds : Nat}

/-- The nanoseconds of a last second, as a part of the second. -/
theorem rest_spec (h : nanos < perSecond) :
    IsCount (nanos.toUInt64.toFloat / 1000000000.0) ∧
      amount (nanos.toUInt64.toFloat / 1000000000.0) ≤ one ∧
      (nanos = 0 → amount (nanos.toUInt64.toFloat / 1000000000.0) = 0) := by
  have hsecond : amount 1000000000.0 = perSecond * one := by decide +kernel
  have hpos : 0 < amount 1000000000.0 := by
    rw [hsecond]
    exact Nat.mul_pos (by decide) Binary64.one_pos
  have hrange : amount 1000000000.0 < beyond := by
    rw [hsecond]
    exact mul_one_lt_beyond (by decide)
  have hnanos : nanos < 2 ^ 53 := Nat.lt_trans h (by decide)
  have hle : amount nanos.toUInt64.toFloat ≤ amount 1000000000.0 := by
    rw [amount_toFloat hnanos, hsecond]
    exact Nat.mul_le_mul_right _ (Nat.le_of_lt h)
  -- The quotient of a count by a larger one is at most 1.
  obtain ⟨hcount, hamount⟩ :=
    div_spec (isCount_toFloat hnanos) (isCount_of_pos hpos hrange) hpos hle
  refine ⟨hcount, hamount, ?_⟩
  rintro rfl
  decide +kernel

/-- **A length of time of at most so many seconds** counts at most so many. -/
theorem toSeconds_spec (h : nanos ≤ seconds * perSecond) (hseconds : seconds < 2 ^ 53) :
    IsCount (toSeconds nanos) ∧ amount (toSeconds nanos) ≤ seconds * one := by
  have hwhole : nanos / perSecond ≤ seconds :=
    Nat.div_le_of_le_mul (h.trans_eq (Nat.mul_comm _ _))
  obtain ⟨hcount, hrest, hnone⟩ := rest_spec (Nat.mod_lt nanos (show 0 < perSecond by decide))
  have hsum : (nanos / perSecond) * one +
      amount ((nanos % perSecond).toUInt64.toFloat / 1000000000.0) ≤ seconds * one := by
    rcases Nat.lt_or_eq_of_le hwhole with hlt | hsame
    · calc _ ≤ (nanos / perSecond) * one + one := Nat.add_le_add_left hrest _
        _ = (nanos / perSecond + 1) * one := (Nat.succ_mul _ _).symm
        _ ≤ seconds * one := Nat.mul_le_mul_right _ hlt
    · -- All seconds are full, and nothing is left over.
      have hmod : nanos % perSecond = 0 := by
        have hdm := Nat.div_add_mod nanos perSecond
        rw [hsame, Nat.mul_comm] at hdm
        omega
      rw [hnone hmod, hsame, Nat.add_zero]
  have hfits : nanos / perSecond < 2 ^ 53 := Nat.lt_of_le_of_lt hwhole hseconds
  refine isCount_add (isCount_toFloat hfits) hcount ?_ (mul_one_lt_beyond hseconds)
  rw [amount_toFloat hfits]
  exact Nat.le_trans (nearest_mono hsum) (Nat.le_of_eq (nearest_mul_one hseconds))

/-- **A double that counts at most so many seconds** is a length of time of at most so many. -/
theorem ofSeconds?_spec {x : Float} (hx : IsCount x) (h : amount x ≤ seconds * one)
    (hseconds : seconds < word64) :
    ∃ nanos, ofSeconds? x = some nanos ∧ nanos ≤ seconds * perSecond := by
  obtain ⟨negative, significand, shift, hdecode, hsign, hamount⟩ := hx.decode_eq
  have hunit : 1 <<< 1074 = one := by
    show 1 <<< onePlace = one
    exact Nat.one_shiftLeft onePlace
  -- Rounding keeps the order, and the bound is rounded to itself.
  have hround : roundHalfEven (amount x * perSecond) one ≤ seconds * perSecond := by
    rw [← roundHalfEven_mul_self (seconds * perSecond) Binary64.one_pos]
    apply roundHalfEven_mono
    rw [Nat.mul_right_comm]
    exact Nat.mul_le_mul_right _ h
  have hfits : roundHalfEven (amount x * perSecond) one < word64 * perSecond :=
    Nat.lt_of_le_of_lt hround (Nat.mul_lt_mul_of_pos_right hseconds (by decide))
  refine ⟨_, ?_, hround⟩
  unfold ofSeconds?
  rw [hdecode, hunit]
  simp only [hsign, hamount, Bool.false_eq_true, if_false, if_pos hfits]

end Span

end LayerCast
