import LayerCast.Proofs.Arith.Doubles

/-!
# `LayerCast.Proofs.Arith.Sums`: sums, differences and quotients of doubles

The sum of two doubles is computed exactly and then rounded, so that it counts no more than what is
nearest to the sum of what they count (`Binary64.amount_add_le`). A difference of doubles that are
not negative counts no more than what is nearest to the difference, and neither does its absolute
value (`Binary64.sub_spec`). A quotient counts at most 1 if the divisor counts no less than the
dividend (`Binary64.div_spec`). From these it follows that a mean which moves a part of the way
towards what is measured stays within the bounds of both (`Binary64.approach_spec`).

Only upper bounds are stated. They do not depend on the sign of a result, since a negative double
counts nothing. Where the sign matters, `Binary64.IsCount` says that a double is a finite number
and not negative.
-/

set_option autoImplicit false

namespace LayerCast.Binary64

open Float.Model Float.Model.UnpackedFloat

/-! ### Finite doubles that are not negative -/

/-- A finite double that is not negative. A negative zero is one, too. -/
def IsCountOf : UnpackedFloat → Prop
  | .zero _ => True
  | .finite .positive _ _ _ => True
  | _ => False

/-- A finite double that is not negative, from its bits. -/
def IsCount (x : Float) : Prop := IsCountOf x.toModel.unpack

/-- What is read from the bits of a double is regular. -/
theorem regular_toModel (x : Float) : Regular x.toModel.unpack :=
  (regular_unpack x.toModel.toBits.toBitVec).1

/-- What has one sign is not negative if the sign is not. -/
theorem isCountOf_ofSignificand (m : Nat) (e : Int) : IsCountOf (ofSignificand .positive m e) := by
  unfold ofSignificand
  split <;> trivial

/-- What is rounded keeps its sign. -/
theorem isCountOf_roundWithAccuracy (m : Nat) (e : Int) (accuracy : Accuracy) :
    IsCountOf (roundWithAccuracy Format.binary64 .positive m e accuracy) :=
  isCountOf_ofSignificand _ _

/-- A finite double that is regular and in range is read back from its bits. -/
theorem unpack_pack_eq {u : UnpackedFloat} (hu : Regular u) (hcount : IsCountOf u.abs)
    (hrange : amountOf u.abs < beyond) :
    UnpackedFloat.unpack Format.binary64 (UnpackedFloat.pack Format.binary64 u) = u := by
  cases u with
  | infinity s => exact hcount.elim
  | notANumber => exact hcount.elim
  | zero s => exact unpack_packedZero
  | finite s m e h =>
      obtain ⟨hm, he, hdigits⟩ := hu
      have hexponent : e ≤ 971 := by
        by_contra hlarge
        exact absurd (beyond_le_amountOf (h := h) (by omega) (by omega)) (Nat.not_le_of_lt hrange)
      rw [unpack_pack_finite s h hm he hdigits, if_pos hexponent]

/-- The absolute value of a double that is not negative counts the same. -/
theorem IsCountOf.abs {u : UnpackedFloat} (h : IsCountOf u) :
    IsCountOf u.abs ∧ amountOf u.abs = amountOf u := by
  cases u with
  | infinity s => exact h.elim
  | notANumber => exact h.elim
  | zero s => exact ⟨trivial, rfl⟩
  | finite s m e hm =>
      cases s with
      | negative => exact h.elim
      | positive => exact ⟨trivial, rfl⟩

/-- The result of an operation, if it is finite and not negative, is packed as it is. -/
theorem isCount_of_unpack {x : Float} {u : UnpackedFloat} {bound : Nat}
    (hx : x.toModel.unpack =
      UnpackedFloat.unpack Format.binary64 (UnpackedFloat.pack Format.binary64 u))
    (hu : Regular u) (hcount : IsCountOf u) (hbound : amountOf u ≤ bound)
    (hrange : bound < beyond) :
    IsCount x ∧ amount x ≤ bound := by
  obtain ⟨habs, hamount⟩ := hcount.abs
  have hsame : x.toModel.unpack = u :=
    hx.trans (unpack_pack_eq hu habs (hamount.trans_lt (hbound.trans_lt hrange)))
  rw [IsCount, amount_eq, hsame]
  exact ⟨hcount, hbound⟩

/-- What a regular double counts is not rounded. -/
theorem nearest_amountOf {u : UnpackedFloat} (hu : Regular u) :
    nearest 0 (amountOf u) = amountOf u := by
  have hnone : nearest 0 0 = 0 := by simp [nearest, roundHalfEven]
  cases u with
  | infinity s =>
      cases s with
      | negative => exact hnone
      | positive => exact nearest_two_pow range
  | notANumber => exact hnone
  | zero s => exact hnone
  | finite s m e h =>
      cases s with
      | negative => exact hnone
      | positive => exact nearest_zero_mul_pow m _ hu.1

/-! ### Exact sums -/

/-- The absolute value of what is rounded is what the absolute value is rounded to. -/
theorem abs_round (s : Sign) (m : Nat) (e : Int) :
    (UnpackedFloat.round Format.binary64 s m e).abs =
      UnpackedFloat.round Format.binary64 .positive m e := by
  simp only [UnpackedFloat.round, roundWithAccuracy_eq, settle, ofSignificand]
  split <;> rfl

/-- A sum that is not too short or too long is rounded once, and so is its absolute value. -/
theorem normalize_spec (n : Int) {e : Int} (he : -1074 ≤ e) :
    Regular (UnpackedFloat.normalize Format.binary64 n e .positive) ∧
      amountOf (UnpackedFloat.normalize Format.binary64 n e .positive) =
        nearest 0 (n.toNat * 2 ^ (e + 1074).toNat) ∧
      amountOf (UnpackedFloat.normalize Format.binary64 n e .positive).abs =
        nearest 0 (n.natAbs * 2 ^ (e + 1074).toNat) ∧
      IsCountOf (UnpackedFloat.normalize Format.binary64 n e .positive).abs ∧
      (0 ≤ n → IsCountOf (UnpackedFloat.normalize Format.binary64 n e .positive)) := by
  have hnone : nearest 0 0 = 0 := by simp [nearest, roundHalfEven]
  unfold UnpackedFloat.normalize
  -- The sign is taken off first, and what is rounded is the absolute value.
  rcases Int.lt_trichotomy n 0 with hlt | rfl | hgt
  · rw [Int.compare_eq_lt.mpr hlt]
    simp only
    have hpos : 0 < (-n).toNat := by omega
    obtain ⟨hregular, hamount⟩ := round_spec .negative hpos he
    have habs := (round_spec .positive hpos he).2
    have hsize : (-n).toNat = n.natAbs := by omega
    have hzero : n.toNat = 0 := by omega
    rw [abs_round, habs, hamount, hzero, Nat.zero_mul, hnone, ← hsize]
    exact ⟨hregular, rfl, rfl, isCountOf_roundWithAccuracy _ _ _, fun hn => by omega⟩
  · rw [Int.compare_eq_eq.mpr rfl]
    simp only [Int.toNat_zero, Int.natAbs_zero, Nat.zero_mul, hnone]
    exact ⟨trivial, rfl, rfl, trivial, fun _ => trivial⟩
  · rw [Int.compare_eq_gt.mpr hgt]
    simp only
    have hpos : 0 < n.toNat := by omega
    obtain ⟨hregular, hamount⟩ := round_spec .positive hpos he
    have hsize : n.toNat = n.natAbs := by omega
    rw [abs_round, hamount, ← hsize]
    exact ⟨hregular, rfl, rfl, isCountOf_roundWithAccuracy _ _ _,
      fun _ => isCountOf_roundWithAccuracy _ _ _⟩

/-- A significand that is written with a lower exponent is the same number. -/
theorem decreaseExponent_mul (m : Nat) {e low : Int} (hlow : -1074 ≤ low) (he : low ≤ e) :
    (decreaseExponent m e low).1 * 2 ^ (low + 1074).toNat = m * 2 ^ (e + 1074).toNat := by
  show m <<< (e - low).toNat * _ = _
  rw [Nat.shiftLeft_eq, Nat.mul_assoc, ← Nat.pow_add]
  congr 2
  omega

/-- What a sign leaves of a number that is not negative. -/
def positivePart (s : Sign) (m : Nat) : Nat :=
  match s with
  | .positive => m
  | .negative => 0

/-- The positive part of a number does not depend on the exponent with which it is written. -/
theorem positivePart_decreaseExponent (s : Sign) (m : Nat) {e low : Int} (hlow : -1074 ≤ low)
    (he : low ≤ e) : positivePart s (decreaseExponent m e low).1 * 2 ^ (low + 1074).toNat =
      positivePart s m * 2 ^ (e + 1074).toNat := by
  cases s with
  | negative => exact (Nat.zero_mul _).trans (Nat.zero_mul _).symm
  | positive => exact decreaseExponent_mul m hlow he

/-- The amount of a finite double is the positive part. -/
theorem amountOf_finite (s : Sign) (m : Nat) (e : Int) (h : 0 < m) :
    amountOf (.finite s m e h) = positivePart s m * 2 ^ (e + 1074).toNat := by
  cases s
  · exact (Nat.zero_mul _).symm
  · rfl

/-- A sum is not larger than the sum of the positive parts. -/
theorem toNat_apply_add_le (s s' : Sign) (m n : Nat) :
    (s.apply m + s'.apply n).toNat ≤ positivePart s m + positivePart s' n := by
  cases s <;> cases s' <;> simp only [Sign.apply, positivePart] <;> omega

/-! ### Sums -/

/-- The sum of two doubles counts no more than what is nearest to the sum, before it is packed. -/
theorem amountOf_add_le {u v : UnpackedFloat} (hu : Regular u) (hv : Regular v) :
    Regular (UnpackedFloat.add Format.binary64 u v) ∧
      amountOf (UnpackedFloat.add Format.binary64 u v) ≤ nearest 0 (amountOf u + amountOf v) := by
  have hleft : amountOf u ≤ nearest 0 (amountOf u + amountOf v) :=
    (nearest_amountOf hu).symm.trans_le (nearest_mono (Nat.le_add_right _ _))
  have hright : amountOf v ≤ nearest 0 (amountOf u + amountOf v) :=
    (nearest_amountOf hv).symm.trans_le (nearest_mono (Nat.le_add_left _ _))
  have hnone (k : Nat) : amountOf .notANumber ≤ k := Nat.zero_le k
  -- All cases but that of two finite numbers are answered by one of the summands.
  cases u with
  | notANumber => exact ⟨trivial, hnone _⟩
  | infinity s =>
      cases v with
      | infinity s' =>
          cases s <;> cases s'
          · exact ⟨trivial, hleft⟩
          · exact ⟨trivial, hnone _⟩
          · exact ⟨trivial, hnone _⟩
          · exact ⟨trivial, hleft⟩
      | notANumber => exact ⟨trivial, hnone _⟩
      | zero s' => exact ⟨trivial, hleft⟩
      | finite s' n f hn => exact ⟨trivial, hleft⟩
  | zero s =>
      cases v with
      | zero s' => cases s <;> cases s' <;> exact ⟨trivial, hleft⟩
      | notANumber => exact ⟨trivial, hnone _⟩
      | infinity s' => exact ⟨trivial, hright⟩
      | finite s' n f hn => exact ⟨hv, hright⟩
  | finite s m e hm =>
      cases v with
      | notANumber => exact ⟨trivial, hnone _⟩
      | infinity s' => exact ⟨trivial, hright⟩
      | zero s' => exact ⟨hu, hleft⟩
      | finite s' n f hn =>
          -- Both numbers are written with the smaller exponent, where their sum is exact.
          have hlow : -1074 ≤ min e f := by
            have := hu.2.1
            have := hv.2.1
            omega
          obtain ⟨hregular, hamount, -⟩ := normalize_spec
            (s.apply (decreaseExponent m e (min e f)).1 +
              s'.apply (decreaseExponent n f (min e f)).1) hlow
          refine ⟨hregular, hamount.trans_le (nearest_mono ?_)⟩
          refine Nat.le_trans (Nat.mul_le_mul_right _ (toNat_apply_add_le s s' _ _)) ?_
          rw [Nat.add_mul, positivePart_decreaseExponent s m hlow (Int.min_le_left e f),
            positivePart_decreaseExponent s' n hlow (Int.min_le_right e f), amountOf_finite,
            amountOf_finite]

/-- **The sum of two doubles** counts no more than what is nearest to the sum. -/
theorem amount_add_le (x y : Float) : amount (x + y) ≤ nearest 0 (amount x + amount y) := by
  have hadd : amount (x + y) = amountOf (UnpackedFloat.unpack Format.binary64
      (UnpackedFloat.pack Format.binary64
        (UnpackedFloat.add Format.binary64 x.toModel.unpack y.toModel.unpack))) :=
    amount_eq (x + y)
  obtain ⟨hregular, hamount⟩ := amountOf_add_le (regular_toModel x) (regular_toModel y)
  rw [hadd, amountOf_unpack_pack hregular, amount_eq x, amount_eq y]
  exact Nat.le_trans (Nat.min_le_left _ _) hamount

/-- The sum of two finite doubles that are not negative is not negative, before it is packed. -/
theorem isCountOf_add {u v : UnpackedFloat} (hu : IsCountOf u) (hv : IsCountOf v)
    (hu' : Regular u) (hv' : Regular v) : IsCountOf (UnpackedFloat.add Format.binary64 u v) := by
  cases u with
  | infinity s => exact hu.elim
  | notANumber => exact hu.elim
  | zero s =>
      cases v with
      | infinity s' => exact hv.elim
      | notANumber => exact hv.elim
      | zero s' => cases s <;> cases s' <;> trivial
      | finite s' n f hn => exact hv
  | finite s m e hm =>
      cases v with
      | infinity s' => exact hv.elim
      | notANumber => exact hv.elim
      | zero s' => exact hu
      | finite s' n f hn =>
          cases s with
          | negative => exact hu.elim
          | positive =>
              cases s' with
              | negative => exact hv.elim
              | positive =>
                  -- A sum of two positive numbers has no sign to lose.
                  have he := hu'.2.1
                  have hf := hv'.2.1
                  obtain ⟨-, -, -, -, hcount⟩ := normalize_spec
                    (((decreaseExponent m e (min e f)).1 : Int) +
                      (decreaseExponent n f (min e f)).1)
                    (e := min e f) (by omega)
                  exact hcount (by omega)

/-- **The sum of two finite doubles that are not negative** is one, too, if it is in range. -/
theorem isCount_add {x y : Float} (hx : IsCount x) (hy : IsCount y) {bound : Nat}
    (hbound : nearest 0 (amount x + amount y) ≤ bound) (hrange : bound < beyond) :
    IsCount (x + y) ∧ amount (x + y) ≤ bound := by
  obtain ⟨hregular, hamount⟩ := amountOf_add_le (regular_toModel x) (regular_toModel y)
  rw [amount_eq x, amount_eq y] at hbound
  exact isCount_of_unpack (x := x + y) rfl hregular
    (isCountOf_add hx hy (regular_toModel x) (regular_toModel y))
    (Nat.le_trans hamount hbound) hrange

/-! ### Differences -/

/-- What is computed as the difference of two doubles, before it is packed, counts no more than what
is nearest to the difference. Its absolute value is not negative, and counts no more than what is
nearest to the difference of the larger one and the smaller one. -/
structure IsDifference (u v d : UnpackedFloat) : Prop where
  regular : Regular d
  amount_le : amountOf d ≤ nearest 0 (amountOf u - amountOf v)
  count : IsCountOf d.abs
  abs_le : amountOf d.abs ≤ nearest 0 (amountOf u - amountOf v + (amountOf v - amountOf u))

/-- The difference of two positive numbers. -/
theorem isDifference_finite {m n : Nat} {e f : Int} (hm : 0 < m) (hn : 0 < n) (he : -1074 ≤ e)
    (hf : -1074 ≤ f) :
    IsDifference (.finite .positive m e hm) (.finite .positive n f hn)
      (UnpackedFloat.sub Format.binary64 (.finite .positive m e hm)
        (.finite .positive n f hn)) := by
  -- Written with the smaller exponent, the two significands are subtracted as integers.
  have hlow : -1074 ≤ min e f := by omega
  obtain ⟨hregular, hamount, habs, hcount, -⟩ := normalize_spec
    (((decreaseExponent m e (min e f)).1 : Int) - (decreaseExponent n f (min e f)).1) hlow
  have hm' := decreaseExponent_mul m hlow (Int.min_le_left e f)
  have hn' := decreaseExponent_mul n hlow (Int.min_le_right e f)
  refine ⟨hregular, hamount.trans_le (nearest_mono ?_), hcount, habs.trans_le (nearest_mono ?_)⟩
  · show _ ≤ m * 2 ^ (e + 1074).toNat - n * 2 ^ (f + 1074).toNat
    rw [← hm', ← hn', ← Nat.sub_mul]
    exact Nat.mul_le_mul_right _ (by omega)
  · show _ ≤ m * 2 ^ (e + 1074).toNat - n * 2 ^ (f + 1074).toNat +
      (n * 2 ^ (f + 1074).toNat - m * 2 ^ (e + 1074).toNat)
    rw [← hm', ← hn', ← Nat.sub_mul, ← Nat.sub_mul, ← Nat.add_mul]
    exact Nat.mul_le_mul_right _ (by omega)

/-- The difference of two finite doubles that are not negative, before it is packed. -/
theorem isDifference_sub {u v : UnpackedFloat} (hu : IsCountOf u) (hv : IsCountOf v)
    (hu' : Regular u) (hv' : Regular v) :
    IsDifference u v (UnpackedFloat.sub Format.binary64 u v) := by
  cases u with
  | infinity s => exact hu.elim
  | notANumber => exact hu.elim
  | zero s =>
      have hnone : amountOf (.zero s) = 0 := rfl
      cases v with
      | infinity s' => exact hv.elim
      | notANumber => exact hv.elim
      | zero s' =>
          cases s <;> cases s' <;> exact ⟨trivial, Nat.zero_le _, trivial, Nat.zero_le _⟩
      | finite s' n f hn =>
          cases s' with
          | negative => exact hv.elim
          | positive =>
              refine ⟨hv', Nat.zero_le _, trivial, ?_⟩
              rw [hnone, Nat.sub_zero, Nat.zero_sub, Nat.zero_add]
              exact (nearest_amountOf hv').ge
  | finite s m e hm =>
      cases s with
      | negative => exact hu.elim
      | positive =>
          cases v with
          | infinity s' => exact hv.elim
          | notANumber => exact hv.elim
          | zero s' =>
              have hnone : amountOf (.zero s') = 0 := rfl
              refine ⟨hu', ?_, trivial, ?_⟩
              · rw [hnone, Nat.sub_zero]
                exact (nearest_amountOf hu').ge
              · rw [hnone, Nat.sub_zero, Nat.zero_sub, Nat.add_zero]
                exact (nearest_amountOf hu').ge
          | finite s' n f hn =>
              cases s' with
              | negative => exact hv.elim
              | positive => exact isDifference_finite hm hn hu'.2.1 hv'.2.1

/-- **The difference of two finite doubles that are not negative** counts no more than what is
nearest to the difference, and its absolute value is such a double, if the difference of the larger
one and the smaller one is in range. -/
theorem sub_spec {x y : Float} (hx : IsCount x) (hy : IsCount y) {bound : Nat}
    (hbound : nearest 0 (amount x - amount y + (amount y - amount x)) ≤ bound)
    (hrange : bound < beyond) :
    amount (x - y) ≤ nearest 0 (amount x - amount y) ∧
      IsCount (x - y).abs ∧ amount (x - y).abs ≤ bound := by
  obtain ⟨hregular, hamount, hcount, habs⟩ := isDifference_sub hx hy
    (regular_toModel x) (regular_toModel y)
  rw [amount_eq x, amount_eq y] at hbound ⊢
  -- The difference is in range, so that it is packed as it is.
  have hsame : (x - y).toModel.unpack =
      UnpackedFloat.sub Format.binary64 x.toModel.unpack y.toModel.unpack :=
    unpack_pack_eq hregular hcount (Nat.lt_of_le_of_lt (Nat.le_trans habs hbound) hrange)
  have habsRegular : Regular (UnpackedFloat.sub Format.binary64 x.toModel.unpack
      y.toModel.unpack).abs := by
    generalize UnpackedFloat.sub Format.binary64 x.toModel.unpack y.toModel.unpack = d at hregular
    cases d <;> exact hregular
  refine ⟨?_, isCount_of_unpack (x := (x - y).abs) ?_ habsRegular hcount
    (Nat.le_trans habs hbound) hrange⟩
  · rw [amount_eq, hsame]
    exact hamount
  · show UnpackedFloat.unpack _ (UnpackedFloat.pack _ (x - y).toModel.unpack.abs) = _
    rw [hsame]

/-! ### Quotients -/

/-- A shift to the right drops digits of the significand, however exact that is. -/
theorem mantissa_shiftRight (em : ExtendedMantissa) (k : Nat) :
    (em >>> k).mantissa = em.mantissa / 2 ^ k := by
  induction k with
  | zero => exact (Nat.div_one _).symm
  | succ k ih =>
      show (em >>> k).mantissa / 2 = _
      rw [ih, Nat.div_div_eq_div_mul, Nat.pow_succ]

/-- What is rounded is a significand or the number after it. -/
theorem roundedMantissa_bounds (em : ExtendedMantissa) :
    em.mantissa ≤ em.roundedMantissa ∧ em.roundedMantissa ≤ em.mantissa + 1 := by
  obtain ⟨q, round, sticky⟩ := em
  rw [roundedMantissa_mk]
  show q ≤ _ ∧ _ ≤ q + 1
  split
  · split <;> omega
  · omega

/-- A result that is not exact is one of the two numbers of 53 digits next to it. -/
theorem roundWithAccuracy_le (m : Nat) {e t : Int} (accuracy : Accuracy)
    (ht : t = max (m.log2 + e - 52) (-1074)) (he : e ≤ t) :
    Regular (roundWithAccuracy Format.binary64 .positive m e accuracy) ∧
      amountOf (roundWithAccuracy Format.binary64 .positive m e accuracy) ≤
        (m / 2 ^ (t - e).toNat + 1) * 2 ^ (t + 1074).toNat := by
  have hshift : shiftToTargetExponent Format.binary64 m e accuracy =
      (ExtendedMantissa.ofMantissaAndAccuracy m accuracy >>> (t - e).toNat, t) := by
    unfold shiftToTargetExponent shiftToExponent
    rw [targetExponent_eq, ← ht]
    simp only [Prod.mk.injEq, true_and]
    omega
  -- Rounding goes up by at most one unit of the last place.
  have hbounds := roundedMantissa_bounds
    (ExtendedMantissa.ofMantissaAndAccuracy m accuracy >>> (t - e).toNat)
  have hmantissa : (ExtendedMantissa.ofMantissaAndAccuracy m accuracy).mantissa = m := by
    rcases accuracy with _ | ordering
    · rfl
    · cases ordering <;> rfl
  rw [mantissa_shiftRight, hmantissa] at hbounds
  rw [roundWithAccuracy_eq, hshift]
  simp only
  generalize ExtendedMantissa.roundedMantissa _ = r at hbounds ⊢
  have hupper : m / 2 ^ (t - e).toNat < 2 ^ 53 := by
    rw [Nat.div_lt_iff_lt_mul (Nat.two_pow_pos _), ← Nat.pow_add]
    exact Nat.lt_of_lt_of_le Nat.lt_log2_self (Nat.pow_le_pow_right Nat.two_pos (by omega))
  -- What is left after the shift has at most 53 digits, and all 53 above the lowest place.
  obtain ⟨hregular, hamount⟩ := settle_spec .positive (r := r) (t := t) (by omega) (by omega) (by
    rcases eq_or_ne t (-1074) with hleast | hmore
    · exact .inr hleast
    · refine .inl (Nat.le_trans ?_ hbounds.1)
      rw [Nat.le_div_iff_mul_le (Nat.two_pow_pos _), ← Nat.pow_add]
      have hdigits : 52 + (t - e).toNat = m.log2 := by omega
      rw [hdigits]
      refine Nat.log2_self_le ?_
      rintro rfl
      simp at hdigits)
  exact ⟨hregular, hamount.trans_le (Nat.mul_le_mul_right _ hbounds.2)⟩

/-- The exponent of a quotient, with which it has no fewer than 53 digits. -/
theorem divCore_eq (m n : Nat) (e f : Int) :
    divCore Format.binary64 m e n f =
      let low := min (e - f) (max (m.log2 + e - (n.log2 + f) - 53) (-1074))
      (m * 2 ^ (e - f - low).toNat / n, low,
        accuracyOfFraction (m * 2 ^ (e - f - low).toNat % n) n) := by
  have htarget : Format.binary64.targetExponent (totalExponent m e - totalExponent n f) =
      max (m.log2 + e - (n.log2 + f) - 53) (-1074) := by
    have hmantissa : (Format.binary64.mantissaBits : Int) = 53 := rfl
    have hleast : Format.binary64.minExponent = -1074 := rfl
    simp only [Format.targetExponent, totalExponent, hmantissa, hleast]
    omega
  simp only [divCore, htarget, Nat.shiftLeft_eq]

/-- A quotient has as many digits as the dividend has more than the divisor, or one digit less. -/
theorem log2_le_log2_div (m : Nat) {n : Nat} (hn : 0 < n) :
    m.log2 ≤ (m / n).log2 + n.log2 + 1 := by
  -- A quotient of less than one digit is bounded by nothing but zero.
  rcases Nat.lt_or_ge m.log2 (n.log2 + 1) with hlt | hge
  · omega
  · have hm : m ≠ 0 := by
      rintro rfl
      simp at hge
    have hquotient : 2 ^ (m.log2 - (n.log2 + 1)) ≤ m / n := by
      rw [Nat.le_div_iff_mul_le hn]
      calc 2 ^ (m.log2 - (n.log2 + 1)) * n
          ≤ 2 ^ (m.log2 - (n.log2 + 1)) * 2 ^ (n.log2 + 1) :=
            Nat.mul_le_mul_left _ (Nat.le_of_lt Nat.lt_log2_self)
        _ = 2 ^ m.log2 := by rw [← Nat.pow_add, Nat.sub_add_cancel hge]
        _ ≤ m := Nat.log2_self_le hm
    have hlog := log2_mono hquotient
    rw [Nat.log2_two_pow] at hlog
    omega

/-- The quotient of two positive finite doubles is at most 1 if the divisor is not smaller. -/
theorem divCore_spec {m n : Nat} {e f : Int} (hm : 0 < m) (hn : 0 < n) (he : -1074 ≤ e)
    (hf : -1074 ≤ f) (hf' : f ≤ 971)
    (hle : m * 2 ^ (e + 1074).toNat ≤ n * 2 ^ (f + 1074).toNat) :
    ∃ q low accuracy, divCore Format.binary64 m e n f = (q, low, accuracy) ∧
      -2148 ≤ low ∧ low < 0 ∧ low ≤ max (q.log2 + low - 52) (-1074) ∧
      (q < 2 ^ (-low).toNat ∨ q = 2 ^ (-low).toNat ∧ accuracy = .exact) := by
  have hdigits : m.log2 + e ≤ n.log2 + f := by
    have hlog := log2_mono hle
    rw [log2_mul_pow hm, log2_mul_pow hn] at hlog
    omega
  refine ⟨_, _, _, divCore_eq m n e f, ?_⟩
  generalize hlow : min (e - f) (max (m.log2 + e - (n.log2 + f) - 53) (-1074)) = low
  have hlog := log2_le_log2_div (m * 2 ^ (e - f - low).toNat) hn
  rw [log2_mul_pow hm] at hlog
  -- The dividend is scaled by as much as the quotient needs for 53 digits.
  have hscaled : m * 2 ^ (e - f - low).toNat ≤ n * 2 ^ (-low).toNat := by
    refine Nat.le_of_mul_le_mul_right ?_ (Nat.two_pow_pos (f + 1074).toNat)
    have hleft : (e - f - low).toNat + (f + 1074).toNat = (e + 1074).toNat + (-low).toNat := by
      omega
    rw [Nat.mul_assoc, ← Nat.pow_add, hleft, Nat.pow_add, ← Nat.mul_assoc, Nat.mul_right_comm n]
    exact Nat.mul_le_mul_right _ hle
  have hquotient : m * 2 ^ (e - f - low).toNat / n ≤ 2 ^ (-low).toNat :=
    Nat.div_le_of_le_mul hscaled
  refine ⟨by omega, by omega, by omega, ?_⟩
  rcases Nat.lt_or_eq_of_le hquotient with hlt | hsame
  · exact .inl hlt
  · -- A quotient of 1 leaves no rest.
    refine .inr ⟨hsame, if_pos ?_⟩
    have hdm := Nat.div_add_mod (m * 2 ^ (e - f - low).toNat) n
    rw [hsame] at hdm
    omega

/-- The quotient of two positive finite doubles is rounded to at most 1. -/
theorem amountOf_roundWithAccuracy_le {q : Nat} {low : Int} {accuracy : Accuracy}
    (hlow : -2148 ≤ low) (hlow' : low < 0) (hdigits : low ≤ max (q.log2 + low - 52) (-1074))
    (hq : q < 2 ^ (-low).toNat ∨ q = 2 ^ (-low).toNat ∧ accuracy = .exact) :
    Regular (roundWithAccuracy Format.binary64 .positive q low accuracy) ∧
      amountOf (roundWithAccuracy Format.binary64 .positive q low accuracy) ≤ one := by
  -- A quotient below 1 stays at most 1 when it is rounded up. The quotient 1 is exact.
  rcases hq with hlt | ⟨rfl, rfl⟩
  · obtain ⟨t, ht⟩ : ∃ t, t = max (q.log2 + low - 52) (-1074) := ⟨_, rfl⟩
    obtain ⟨hregular, hamount⟩ := roundWithAccuracy_le q accuracy ht (by omega)
    refine ⟨hregular, Nat.le_trans hamount ?_⟩
    have hplace : t ≤ 0 := by
      have hlog : q.log2 ≤ (-low).toNat := by
        have hmono := log2_mono (Nat.le_of_lt hlt)
        rwa [Nat.log2_two_pow] at hmono
      omega
    have hpart : q / 2 ^ (t - low).toNat < 2 ^ (-t).toNat := by
      rw [Nat.div_lt_iff_lt_mul (Nat.two_pow_pos _), ← Nat.pow_add]
      have hsum : (-t).toNat + (t - low).toNat = (-low).toNat := by omega
      rwa [hsum]
    calc (q / 2 ^ (t - low).toNat + 1) * 2 ^ (t + 1074).toNat
        ≤ 2 ^ (-t).toNat * 2 ^ (t + 1074).toNat := Nat.mul_le_mul_right _ hpart
      _ = 2 ^ ((-t).toNat + (t + 1074).toNat) := (Nat.pow_add 2 _ _).symm
      _ = one := by
          rw [one, onePlace]
          congr 1
          omega
  · obtain ⟨hregular, hamount⟩ :=
      roundWithAccuracy_spec .positive (Nat.two_pow_pos (-low).toNat) hlow hdigits
    refine ⟨hregular, Nat.le_of_eq (hamount.trans ?_)⟩
    have hsum : (-low).toNat + (low + 2148).toNat = onePlace + 1074 := by
      rw [onePlace]
      omega
    rw [← Nat.pow_add, hsum]
    exact nearest_two_pow_add 1074 onePlace

/-- **A quotient of finite doubles that are not negative** is one, too, and at most 1, if the
divisor is positive and not smaller than the dividend. -/
theorem div_spec {x y : Float} (hx : IsCount x) (hy : IsCount y) (hpos : 0 < amount y)
    (hle : amount x ≤ amount y) : IsCount (x / y) ∧ amount (x / y) ≤ one := by
  have hone : one < beyond := pow_lt_beyond (show 1074 < 2098 by decide)
  have hquotient : Regular (UnpackedFloat.div Format.binary64 x.toModel.unpack y.toModel.unpack) ∧
      IsCountOf (UnpackedFloat.div Format.binary64 x.toModel.unpack y.toModel.unpack) ∧
      amountOf (UnpackedFloat.div Format.binary64 x.toModel.unpack y.toModel.unpack) ≤ one := by
    have hxregular := regular_toModel x
    obtain ⟨hyregular, hyrange⟩ := regular_unpack y.toModel.toBits.toBitVec
    change Regular y.toModel.unpack at hyregular
    change ∀ s m e h, y.toModel.unpack = .finite s m e h → e ≤ 971 at hyrange
    rw [amount_eq] at hpos
    rw [amount_eq, amount_eq] at hle
    unfold IsCount at hx hy
    generalize x.toModel.unpack = u at *
    generalize y.toModel.unpack = v at *
    -- By the hypotheses the divisor is positive and finite, and so is the dividend unless it is
    -- zero.
    cases v with
    | infinity s => exact hy.elim
    | notANumber => exact hy.elim
    | zero s => exact absurd hpos (Nat.lt_irrefl 0)
    | finite s n f hn =>
        cases s with
        | negative => exact hy.elim
        | positive =>
            cases u with
            | infinity s => exact hx.elim
            | notANumber => exact hx.elim
            | zero s => exact ⟨trivial, trivial, Nat.zero_le _⟩
            | finite s m e hm =>
                cases s with
                | negative => exact hx.elim
                | positive =>
                    obtain ⟨q, low, accuracy, hcore, hlow, hlow', hdigits, hq⟩ :=
                      divCore_spec hm hn hxregular.2.1 hyregular.2.1 (hyrange _ _ _ _ rfl) hle
                    have hsame : UnpackedFloat.div Format.binary64 (.finite .positive m e hm)
                        (.finite .positive n f hn) =
                        roundWithAccuracy Format.binary64 .positive q low accuracy := by
                      simp only [UnpackedFloat.div, hcore]
                      rfl
                    rw [hsame]
                    obtain ⟨hregular, hamount⟩ :=
                      amountOf_roundWithAccuracy_le hlow hlow' hdigits hq
                    exact ⟨hregular, isCountOf_roundWithAccuracy _ _ _, hamount⟩
  obtain ⟨hregular, hcount, hamount⟩ := hquotient
  exact isCount_of_unpack (x := x / y) rfl hregular hcount hamount hone

/-! ### Part of the way -/

/-- A part of a whole: it is not below zero and not above 1. What is not a number is one, too. -/
def IsPart (part : Float) : Prop := ¬part < 0.0 ∧ ¬1.0 < part

/-- What the number 1 counts. -/
theorem amount_one : amount 1.0 = one := by decide +kernel

/-- The number 0. -/
theorem unpack_zero : (0.0 : Float).toModel.unpack = .zero .positive := by
  have hdecode : decode 0.0 = .finite false 0 0 := by decide +kernel
  rw [unpack_eq_decode, hdecode]
  rfl

/-- A double that is not below zero has no negative sign, except for a zero. -/
theorem notNegative_of_not_lt {x : Float} (h : ¬x < 0.0) : NotNegative x.toModel.unpack := by
  have hcompare : x.toModel.unpack.compare (.zero .positive) ≠ some .lt := by
    rw [← unpack_zero]
    exact fun hlt => h (lt_of_compare hlt)
  generalize x.toModel.unpack = u at hcompare ⊢
  cases u with
  | notANumber => trivial
  | zero s => trivial
  | infinity s =>
      cases s with
      | negative => exact absurd rfl hcompare
      | positive => trivial
  | finite s m e hm =>
      cases s with
      | negative => exact absurd rfl hcompare
      | positive => trivial

/-- A double in range that is neither negative nor no number is a count. -/
theorem isCount_of_notNegative {x : Float} (h : NotNegative x.toModel.unpack)
    (hnumber : x.isNaN = false) (hrange : amount x < beyond) : IsCount x := by
  change x.toModel.unpack.isNaN = false at hnumber
  rw [amount_eq] at hrange
  unfold IsCount
  generalize x.toModel.unpack = u at *
  cases u with
  | notANumber => cases hnumber
  | zero s => trivial
  | infinity s =>
      cases s with
      | negative => exact h.elim
      | positive => exact absurd hrange (Nat.lt_irrefl _)
  | finite s m e hm =>
      cases s with
      | negative => exact h.elim
      | positive => trivial

/-- What is cut off at zero is a count. -/
theorem larger_zero_spec {x : Float} {bound : Nat} (h : amount x ≤ bound)
    (hrange : bound < beyond) :
    IsCount (larger x 0.0) ∧ amount (larger x 0.0) ≤ bound := by
  unfold larger
  split
  · rw [IsCount, amount_eq, unpack_zero]
    exact ⟨trivial, Nat.zero_le _⟩
  · rename_i hnot
    obtain ⟨hlt, hnumber⟩ := not_or.mp hnot
    exact ⟨isCount_of_notNegative (notNegative_of_not_lt hlt) (Bool.eq_false_iff.mpr hnumber)
      (Nat.lt_of_le_of_lt h hrange), h⟩

/-- Factors may be swapped. -/
theorem product_comm (a b : Nat) : product a b = product b a := by
  unfold product
  rw [Nat.mul_comm a b]
  simp only [or_comm]

/-- A part of a double counts no more than the double. -/
theorem IsPart.amount_mul_le {part : Float} (h : IsPart part) (x : Float) :
    amount (part * x) ≤ amount x := by
  have hsign := notNegative_of_not_lt h.1
  have hone : amount part ≤ one := by
    rw [← amount_one]
    exact amount_le_of_not_lt (by decide +kernel) h.2
  have hswap : amount (part * x) = amount (x * part) := by
    rw [amount_mul (.inl hsign), amount_mul (.inr hsign), product_comm]
  exact hswap.trans_le (amount_mul_le_self x hsign hone)

/-- **Who goes a part of the way does not leave the bounds** of both ends, if the bound is a power
of two from `2 ^ 53` on. Rounding does no harm, as a power of two is not rounded. -/
theorem approach_spec {part a b : Float} {k : Nat} (hpart : IsPart part) (ha : amount a ≤ 2 ^ k)
    (hcounta : IsCount a) (hcountb : IsCount b) (hb : amount b ≤ 2 ^ k) (hk : 53 ≤ k)
    (hrange : k < range) :
    IsCount (approach part a b) ∧ amount (approach part a b) ≤ 2 ^ k := by
  have hbeyond : 2 ^ k < beyond := pow_lt_beyond hrange
  apply larger_zero_spec _ hbeyond
  have hdifference : amount (b - a) ≤ nearest 0 (2 ^ k - amount a) := by
    have hbound : nearest 0 (amount b - amount a + (amount a - amount b)) ≤ 2 ^ k := by
      rw [← nearest_two_pow k]
      exact nearest_mono (by omega)
    refine Nat.le_trans (sub_spec hcountb hcounta hbound hbeyond).1 (nearest_mono ?_)
    omega
  calc amount (a + part * (b - a))
      ≤ nearest 0 (amount a + amount (part * (b - a))) := amount_add_le _ _
    _ ≤ nearest 0 (amount a + nearest 0 (2 ^ k - amount a)) :=
        nearest_mono (Nat.add_le_add_left (Nat.le_trans (hpart.amount_mul_le _) hdifference) _)
    _ ≤ 2 ^ k := nearest_add_nearest_sub_le ha hk

end LayerCast.Binary64
