import Mathlib
import LayerCast.Proofs.Arith.Rounding

/-!
# `LayerCast.Proofs.Arith.Significands`: what a double counts

Every finite double is a whole number of least positive doubles. `Binary64.amount` is that number,
read from the bits of the double, and `Binary64.amountOf` the same for the sign, the significand and
the exponent that operations on doubles are about.

An operation computes an exact significand, rounds it (`Binary64.roundWithAccuracy_spec`) and packs
the result into bits. A result is `Binary64.Regular`, so that its bits tell what it counts, unless
it is out of range: then they tell an infinite double (`Binary64.amountOf_unpack_pack`).
-/

set_option autoImplicit false

namespace LayerCast.Binary64

open Float.Model Float.Model.UnpackedFloat

/-! ### Rounding of significands -/

/-- A significand that is shifted to the right keeps the last digit that was shifted out, and
whether anything else was. -/
theorem shiftRight_succ (m k : Nat) :
    ExtendedMantissa.ofMantissaAndAccuracy m .exact >>> (k + 1) =
      ⟨m / 2 ^ (k + 1), m / 2 ^ k % 2 != 0, m % 2 ^ k != 0⟩ := by
  induction k with
  | zero =>
      show ExtendedMantissa.mk (m / 2) (m % 2 != 0) false = _
      simp [Nat.mod_one]
  | succ k ih =>
      show (ExtendedMantissa.ofMantissaAndAccuracy m .exact >>> (k + 1)).shiftRightOne = _
      rw [ih]
      simp only [ExtendedMantissa.shiftRightOne, Nat.pow_succ, Nat.div_div_eq_div_mul]
      -- The remainder of the longer shift is one digit more than that of the shorter one.
      have hmod : m % (2 ^ k * 2) = m % 2 ^ k + 2 ^ k * (m / 2 ^ k % 2) := Nat.mod_mul
      have hsticky : (m / 2 ^ k % 2 != 0 || m % 2 ^ k != 0) = (m % (2 ^ k * 2) != 0) := by
        have hpos := Nat.two_pow_pos k
        rw [hmod]
        rcases Nat.mod_two_eq_zero_or_one (m / 2 ^ k) with hround | hround
        · simp [hround]
        · simp [hround]
      rw [hsticky]

/-- What is rounded down, to the even neighbour, or up. -/
theorem roundedMantissa_mk (q : Nat) (round sticky : Bool) :
    (ExtendedMantissa.mk q round sticky).roundedMantissa =
      if round then (if sticky then q + 1 else q + q % 2) else q := by
  cases round <;> cases sticky <;> rfl

/-- A significand that is shifted to the right is rounded like a quotient. -/
theorem roundedMantissa_shiftRight (m k : Nat) :
    (ExtendedMantissa.ofMantissaAndAccuracy m .exact >>> k).roundedMantissa =
      roundHalfEven m (2 ^ k) := by
  cases k with
  | zero =>
      show m = roundHalfEven m 1
      simpa using (roundHalfEven_mul_self m Nat.one_pos).symm
  | succ k =>
      have hpos := Nat.two_pow_pos k
      -- The two lowest parts of `m`: the digit that is shifted out last, and the rest behind it.
      have hmod : m % 2 ^ (k + 1) = m % 2 ^ k + 2 ^ k * (m / 2 ^ k % 2) := Nat.mod_pow_succ
      have hlt := Nat.mod_lt m hpos
      rw [shiftRight_succ, roundedMantissa_mk, roundHalfEven, hmod, Nat.pow_succ']
      generalize m / (2 * 2 ^ k) = q
      generalize m % 2 ^ k = rest at hlt
      generalize 2 ^ k = unit at hpos hlt
      rcases Nat.mod_two_eq_zero_or_one (m / unit) with hround | hround
      · -- Less than a half was shifted out.
        rw [hround, if_pos (show 2 * (rest + unit * 0) < 2 * unit by omega)]
        rfl
      · rw [hround, if_neg (show ¬2 * (rest + unit * 1) < 2 * unit by omega)]
        by_cases hrest : rest = 0
        · rw [hrest, if_neg (show ¬2 * unit < 2 * (0 + unit * 1) by omega)]
          rfl
        · rw [if_pos (show 2 * unit < 2 * (rest + unit * 1) by omega)]
          simp [hrest]

/-! ### Results of operations -/

/-- The exponent at which a result is rounded. -/
theorem targetExponent_eq (m : Nat) (e : Int) :
    Format.binary64.targetExponent (totalExponent m e) = max (m.log2 + e - 52) (-1074) := by
  have hmantissa : (Format.binary64.mantissaBits : Int) = 53 := rfl
  have hleast : Format.binary64.minExponent = -1074 := rfl
  simp only [Format.targetExponent, totalExponent, hmantissa, hleast]
  omega

/-- A significand of 53 digits is not shifted. -/
theorem shiftToTargetExponent_of_lt {m : Nat} {e : Int} (hm : m < 2 ^ 53) (he : -1074 ≤ e) :
    shiftToTargetExponent Format.binary64 m e .exact = (⟨m, false, false⟩, e) := by
  have hlog : m.log2 ≤ 52 := by
    rcases Nat.eq_zero_or_pos m with rfl | hpos
    · simp
    · exact Nat.le_of_lt_succ ((Nat.log2_lt (by omega)).mpr hm)
  have hshift : (Format.binary64.targetExponent (totalExponent m e) - e).toNat = 0 := by
    rw [targetExponent_eq]
    omega
  unfold shiftToTargetExponent shiftToExponent
  simp only [hshift]
  simp [ExtendedMantissa.ofMantissaAndAccuracy, HShiftRight.hShiftRight, Nat.repeat]

/-- The number after those of 53 digits is shifted by one digit. -/
theorem shiftToTargetExponent_carry {e : Int} (he : -1074 ≤ e) :
    shiftToTargetExponent Format.binary64 (2 ^ 53) e .exact = (⟨2 ^ 52, false, false⟩, e + 1) := by
  have hshift : (Format.binary64.targetExponent (totalExponent (2 ^ 53) e) - e).toNat = 1 := by
    rw [targetExponent_eq, Nat.log2_two_pow]
    omega
  unfold shiftToTargetExponent shiftToExponent
  simp only [hshift]
  rfl

/-- The place before the binary point, counted from the last digit of the least positive double. -/
def onePlace : Nat := 1074

/-- What the number 1 counts in units of the least positive double. -/
def one : Nat := 2 ^ onePlace

/-- The number 1 counts something. -/
theorem one_pos : 0 < one := Nat.two_pow_pos _

/-- The first power of two that is out of range, in units of the least positive double. -/
def range : Nat := 2098

/-- The units of the least positive double below which a number is finite as a double. -/
def beyond : Nat := 2 ^ range

/-- What a double counts in units of the least positive double. A negative double and one that is
not a number count nothing, and an infinite one counts as many as no finite double does. -/
def amountOf : UnpackedFloat → Nat
  | .finite .positive m e _ => m * 2 ^ (e + 1074).toNat
  | .infinity .positive => beyond
  | _ => 0

/-- A result has at most 53 digits, and as many if its last digit is not the lowest one. -/
def Regular : UnpackedFloat → Prop
  | .finite _ m e _ => m < 2 ^ 53 ∧ -1074 ≤ e ∧ (2 ^ 52 ≤ m ∨ e = -1074)
  | _ => True

/-- The double of a sign, a significand and an exponent. -/
def ofSignificand (s : Sign) (m : Nat) (e : Int) : UnpackedFloat :=
  if h : m = 0 then .zero s else .finite s m e (Nat.pos_of_ne_zero h)

/-- A significand that is not zero is that of a finite double. -/
theorem ofSignificand_eq {s : Sign} {m : Nat} {e e' : Int} (h : 0 < m) (he : e = e') :
    ofSignificand s m e = .finite s m e' h := by
  subst he
  exact dif_neg (Nat.ne_of_gt h)

/-- A rounded significand is shifted once more if it has become one digit longer. -/
def settle (s : Sign) (r : Nat) (t : Int) : UnpackedFloat :=
  let shifted := shiftToTargetExponent Format.binary64 r t .exact
  ofSignificand s shifted.1.mantissa shifted.2

/-- A result is shifted to its place, rounded there, and settled. -/
theorem roundWithAccuracy_eq (s : Sign) (m : Nat) (e : Int) (accuracy : Accuracy) :
    roundWithAccuracy Format.binary64 s m e accuracy =
      settle s (shiftToTargetExponent Format.binary64 m e accuracy).1.roundedMantissa
        (shiftToTargetExponent Format.binary64 m e accuracy).2 := rfl

/-- A significand of 53 digits makes a regular double. -/
theorem ofSignificand_spec (s : Sign) {m : Nat} {e : Int} (hm : m < 2 ^ 53) (he : -1074 ≤ e)
    (hdigits : 2 ^ 52 ≤ m ∨ e = -1074) :
    Regular (ofSignificand s m e) ∧
      amountOf (ofSignificand s m e) =
        match s with
        | .positive => m * 2 ^ (e + 1074).toNat
        | .negative => 0 := by
  unfold ofSignificand
  split
  · rename_i hzero
    subst hzero
    cases s <;> simp [Regular, amountOf]
  · have hregular : Regular (.finite s m e (by omega)) := ⟨hm, he, hdigits⟩
    cases s
    · exact ⟨hregular, rfl⟩
    · exact ⟨hregular, rfl⟩

/-- The exponent of a finite double is the one that it was made of. -/
theorem exponent_of_ofSignificand {s s' : Sign} {m m' : Nat} {e e' : Int} {h : 0 < m'}
    (hfinite : ofSignificand s m e = .finite s' m' e' h) : e' = e := by
  unfold ofSignificand at hfinite
  split at hfinite
  · cases hfinite
  · cases hfinite
    rfl

/-- The shift of a significand that has become one digit longer is exact. -/
theorem settle_spec (s : Sign) {r : Nat} {t : Int} (hr : r ≤ 2 ^ 53) (ht : -1074 ≤ t)
    (hdigits : 2 ^ 52 ≤ r ∨ t = -1074) :
    Regular (settle s r t) ∧
      amountOf (settle s r t) =
        match s with
        | .positive => r * 2 ^ (t + 1074).toNat
        | .negative => 0 := by
  unfold settle
  rcases Nat.lt_or_eq_of_le hr with hlt | rfl
  · rw [shiftToTargetExponent_of_lt hlt ht]
    exact ofSignificand_spec s hlt ht hdigits
  · rw [shiftToTargetExponent_carry ht]
    have hexp : (t + 1 + 1074).toNat = (t + 1074).toNat + 1 := by omega
    have hspec := ofSignificand_spec s (m := 2 ^ 52) (e := t + 1) (by decide) (by omega)
      (.inl (Nat.le_refl _))
    have hsame : 2 ^ 52 * 2 ^ (t + 1 + 1074).toNat = 2 ^ 53 * 2 ^ (t + 1074).toNat := by
      rw [hexp, Nat.pow_succ]
      omega
    rw [hsame] at hspec
    exact hspec

/-- **A result is rounded once**, as `nearest` rounds it. -/
theorem roundWithAccuracy_spec (s : Sign) {m : Nat} {e : Int} (hm : 0 < m) (hlow : -2148 ≤ e)
    (he : e ≤ max (m.log2 + e - 52) (-1074)) :
    Regular (roundWithAccuracy Format.binary64 s m e .exact) ∧
      amountOf (roundWithAccuracy Format.binary64 s m e .exact) =
        match s with
        | .positive => nearest 1074 (m * 2 ^ (e + 2148).toNat)
        | .negative => 0 := by
  have hplace : (place 1074 (m * 2 ^ (e + 2148).toNat) : Int) =
      max (m.log2 + e - 52) (-1074) + 2148 := by
    rw [place, log2_mul_pow hm]
    omega
  have hupper := roundHalfEven_le_pow 1074 (m * 2 ^ (e + 2148).toNat)
  have hlower := pow_le_roundHalfEven 1074 (m * 2 ^ (e + 2148).toNat)
  have hfirst : shiftToTargetExponent Format.binary64 m e .exact =
      (ExtendedMantissa.ofMantissaAndAccuracy m .exact >>>
        (max (m.log2 + e - 52) (-1074) - e).toNat, max (m.log2 + e - 52) (-1074)) := by
    unfold shiftToTargetExponent shiftToExponent
    rw [targetExponent_eq]
    simp only [Prod.mk.injEq, true_and]
    omega
  rw [roundWithAccuracy_eq, hfirst]
  simp only [roundedMantissa_shiftRight, nearest]
  generalize max (m.log2 + e - 52) (-1074) = t at *
  -- In units of the lowest place the quotient is the one that `nearest` rounds.
  have hround : roundHalfEven m (2 ^ (t - e).toNat) =
      roundHalfEven (m * 2 ^ (e + 2148).toNat)
        (2 ^ place 1074 (m * 2 ^ (e + 2148).toNat)) := by
    have hshift : (t - e).toNat + (e + 2148).toNat =
        place 1074 (m * 2 ^ (e + 2148).toNat) := by omega
    rw [← hshift, Nat.pow_add, roundHalfEven_mul_mul _ _ (Nat.two_pow_pos _)]
  have hunits : (t + 1074).toNat = place 1074 (m * 2 ^ (e + 2148).toNat) - 1074 := by omega
  have hleast := low_le_place 1074 (m * 2 ^ (e + 2148).toNat)
  rw [hround]
  generalize roundHalfEven _ _ = r at *
  rw [← hunits]
  apply settle_spec s hupper (by omega)
  rcases Nat.lt_or_eq_of_le hleast with hlt | hsame
  · exact .inl (hlower hlt)
  · exact .inr (by omega)

/-- **A number is rounded once** to a double, whether its significand is too short or too long. -/
theorem round_spec (s : Sign) {m : Nat} {e : Int} (hm : 0 < m) (he : -1074 ≤ e) :
    Regular (UnpackedFloat.round Format.binary64 s m e) ∧
      amountOf (UnpackedFloat.round Format.binary64 s m e) =
        match s with
        | .positive => nearest 0 (m * 2 ^ (e + 1074).toNat)
        | .negative => 0 := by
  have hround : UnpackedFloat.round Format.binary64 s m e =
      roundWithAccuracy Format.binary64 s
        (m * 2 ^ (e - max (m.log2 + e - 52) (-1074)).toNat)
        (e - (e - max (m.log2 + e - 52) (-1074)).toNat) .exact := by
    simp only [UnpackedFloat.round, decreaseExponent, targetExponent_eq, Nat.shiftLeft_eq]
  have hlog := log2_mul_pow hm (e - max (m.log2 + e - 52) (-1074)).toNat
  have hspec := roundWithAccuracy_spec s
    (Nat.mul_pos hm (Nat.two_pow_pos (e - max (m.log2 + e - 52) (-1074)).toNat))
    (e := e - (e - max (m.log2 + e - 52) (-1074)).toNat) (by omega) (by omega)
  -- The digits that are added at the end are taken from the exponent.
  have hunits : m * 2 ^ (e - max (m.log2 + e - 52) (-1074)).toNat *
      2 ^ (e - (e - max (m.log2 + e - 52) (-1074)).toNat + 2148).toNat =
        m * 2 ^ (e + 1074).toNat * 2 ^ 1074 := by
    rw [Nat.mul_assoc, Nat.mul_assoc, ← Nat.pow_add, ← Nat.pow_add]
    congr 2
    omega
  rw [hunits, nearest_scale] at hspec
  rw [hround]
  exact hspec

/-! ### Bits -/

/-- The exponent is read from the eleven bits above the mantissa. -/
theorem toNat_unpackExponent (b : BitVec Format.binary64.numBits) :
    (unpackExponent b).toNat = b.toNat / 4503599627370496 % 2048 := by
  rw [unpackExponent, BitVec.toNat_cast, BitVec.extractLsb_toNat, Nat.shiftRight_eq_div_pow]
  rfl

/-- The mantissa is read from the lowest 52 bits. -/
theorem toNat_unpackMantissa (b : BitVec Format.binary64.numBits) :
    (unpackMantissa b).toNat = b.toNat % 4503599627370496 := by
  rw [unpackMantissa, BitVec.toNat_cast, BitVec.extractLsb_toNat, Nat.shiftRight_zero]
  rfl

/-- The sign is the topmost bit. -/
theorem toNat_unpackSign (b : BitVec Format.binary64.numBits) :
    (unpackSign b).toNat = b.toNat / 9223372036854775808 := by
  rw [unpackSign, BitVec.toNat_cast, BitVec.extractLsb_toNat, Nat.shiftRight_eq_div_pow]
  have hlt : b.toNat < 18446744073709551616 := b.isLt
  show b.toNat / 9223372036854775808 % 2 = _
  omega

/-- The sign in the highest bit of a double. -/
def signOf (bits : Nat) : Sign :=
  if bits / 9223372036854775808 = 1 then .negative else .positive

/-- As a sign it says whether the bits lie in the upper half of the range. -/
theorem ofBitVec_unpackSign (b : BitVec Format.binary64.numBits) :
    Sign.ofBitVec (unpackSign b) = signOf b.toNat := by
  have hlt : (unpackSign b).toNat < 2 := (unpackSign b).isLt
  unfold signOf Sign.ofBitVec
  rw [← toNat_unpackSign]
  by_cases hzero : unpackSign b = 0#1
  · rw [if_pos hzero, hzero]
    rfl
  · have hone : (unpackSign b).toNat = 1 := by
      have hne : (unpackSign b).toNat ≠ 0 := fun h => hzero (BitVec.eq_of_toNat_eq h)
      omega
    rw [if_neg hzero, if_pos hone]

/-- The fields of a double. -/
theorem unpack_eq (b : BitVec Format.binary64.numBits) :
    UnpackedFloat.unpack Format.binary64 b =
      let exponent := b.toNat / 4503599627370496 % 2048
      let fraction := b.toNat % 4503599627370496
      if exponent = 2047 then
        if fraction = 0 then .infinity (signOf b.toNat) else .notANumber
      else if exponent = 0 then ofSignificand (signOf b.toNat) fraction (-1074)
      else ofSignificand (signOf b.toNat) (fraction + 4503599627370496) (exponent - 1075) := by
  -- The three tests are made on the bits, and are the same for the numbers that they stand for.
  have hones : unpackExponent b = -1#_ ↔ b.toNat / 4503599627370496 % 2048 = 2047 := by
    rw [← toNat_unpackExponent, BitVec.toNat_eq]
    rfl
  have hzeros : unpackExponent b = 0#_ ↔ b.toNat / 4503599627370496 % 2048 = 0 := by
    rw [← toNat_unpackExponent, BitVec.toNat_eq]
    rfl
  have hnone : unpackMantissa b = 0#_ ↔ b.toNat % 4503599627370496 = 0 := by
    rw [← toNat_unpackMantissa, BitVec.toNat_eq]
    rfl
  unfold UnpackedFloat.unpack
  simp only [hones, hzeros, hnone, ofBitVec_unpackSign, toNat_unpackExponent]
  split
  · rfl
  · split
    · rename_i hsmall
      unfold ofSignificand
      split
      · rfl
      · rw [UnpackedFloat.finite.injEq, toNat_unpackMantissa, hsmall]
        exact ⟨rfl, rfl, rfl⟩
    · -- A digit 1 stands before the fraction.
      have hfraction : b.toNat % 4503599627370496 < 2 ^ 52 := Nat.mod_lt _ (by decide)
      have hfull : (1#1 ++ unpackMantissa b).toNat =
          b.toNat % 4503599627370496 + 4503599627370496 := by
        rw [BitVec.toNat_append, toNat_unpackMantissa, ← Nat.shiftLeft_add_eq_or_of_lt hfraction]
        exact Nat.add_comm _ _
      rw [ofSignificand, dif_neg (by omega), UnpackedFloat.finite.injEq, hfull]
      exact ⟨rfl, rfl, rfl⟩

/-- What is read from the bits is regular, and in range. -/
theorem regular_unpack (b : BitVec Format.binary64.numBits) :
    Regular (UnpackedFloat.unpack Format.binary64 b) ∧
      ∀ s m e h, UnpackedFloat.unpack Format.binary64 b = .finite s m e h → e ≤ 971 := by
  have hfraction : b.toNat % 4503599627370496 < 4503599627370496 := Nat.mod_lt _ (by decide)
  have hexponent : b.toNat / 4503599627370496 % 2048 < 2048 := Nat.mod_lt _ (by decide)
  rw [unpack_eq]
  generalize b.toNat % 4503599627370496 = fraction at *
  generalize b.toNat / 4503599627370496 % 2048 = exponent at *
  generalize signOf b.toNat = s
  simp only
  split
  · split
    · exact ⟨trivial, fun _ _ _ _ hfinite => absurd hfinite (by simp)⟩
    · exact ⟨trivial, fun _ _ _ _ hfinite => absurd hfinite (by simp)⟩
  · split
    · exact ⟨(ofSignificand_spec s (by omega) (by omega) (.inr rfl)).1,
        fun _ _ _ _ hfinite => (exponent_of_ofSignificand hfinite).trans_le (by omega)⟩
    · exact ⟨(ofSignificand_spec s (by omega) (by omega) (.inl (by omega))).1,
        fun _ _ _ _ hfinite => (exponent_of_ofSignificand hfinite).trans_le (by omega)⟩

/-- What a double counts in units of the least positive double, from its bits. -/
def amount (x : Float) : Nat :=
  match decode x with
  | .finite false significand shift => significand <<< shift
  | .infinite false => beyond
  | _ => 0

/-- What a significand counts is its shift by the exponent, if it is not negative. -/
theorem amountOf_ofSignificand (s : Sign) (m : Nat) (e : Int) :
    amountOf (ofSignificand s m e) =
      match s with
      | .positive => m * 2 ^ (e + 1074).toNat
      | .negative => 0 := by
  unfold ofSignificand
  split
  · rename_i hzero
    subst hzero
    cases s <;> simp [amountOf]
  · cases s <;> rfl

/-- The sign that the highest bit of a double stands for. -/
def signOfBit (negative : Bool) : Sign := if negative then .negative else .positive

/-- The exact value of a double is what operations on doubles read from its bits. -/
theorem unpack_eq_decode (x : Float) :
    x.toModel.unpack =
      match decode x with
      | .finite negative significand shift =>
        ofSignificand (signOfBit negative) significand (shift - 1074)
      | .infinite negative => .infinity (signOfBit negative)
      | .nan => .notANumber := by
  show UnpackedFloat.unpack Format.binary64 x.toModel.toBits.toBitVec = _
  have hbits : x.toBits.toNat = x.toModel.toBits.toBitVec.toNat := rfl
  have hsign (bits : Nat) : signOf bits = signOfBit (bits / 9223372036854775808 == 1) := by
    simp [signOf, signOfBit]
  rw [unpack_eq, hsign]
  unfold decode
  simp only [hbits]
  generalize x.toModel.toBits.toBitVec.toNat = bits
  generalize bits % 4503599627370496 = fraction
  generalize bits / 4503599627370496 % 2048 = exponent
  generalize (bits / 9223372036854775808 == 1) = negative
  -- Both sides ask the same: is the exponent full, is it empty.
  by_cases hones : exponent = 2047
  · by_cases hnone : fraction = 0
    · simp [hones, hnone]
    · simp [hones, hnone]
  · by_cases hsmall : exponent = 0
    · simp [hsmall]
    · have hshift : (exponent : Int) - 1075 = ((exponent - 1 : Nat) : Int) - 1074 := by omega
      simp [hones, hsmall, hshift]

/-- The value that the bits of a double tell is the one that operations on doubles are about. -/
theorem amount_eq (x : Float) : amount x = amountOf x.toModel.unpack := by
  rw [unpack_eq_decode]
  unfold amount
  cases decode x with
  | nan => rfl
  | infinite negative => cases negative <;> rfl
  | finite negative significand shift =>
      have hshift : ((shift : Int) - 1074 + 1074).toNat = shift := by omega
      simp only [amountOf_ofSignificand, hshift]
      cases negative <;> simp [signOfBit, Nat.shiftLeft_eq]

/-! ### Packing -/

/-- The sign of the bits that are put together from a sign and two fields. -/
theorem signOf_packComponents (s : Sign) (exponent : BitVec Format.binary64.exponentBits)
    (fraction : BitVec Format.binary64.mantissaBitsWithoutImplicit) :
    signOf (packComponents Format.binary64 s exponent fraction).toNat = s := by
  rw [← ofBitVec_unpackSign, unpackSign_packComponents, Sign.ofBitVec_toBitVec]

/-- The double that bits stand for which are put together from a sign and two fields. -/
theorem unpack_packComponents (s : Sign) (exponent : BitVec Format.binary64.exponentBits)
    (fraction : BitVec Format.binary64.mantissaBitsWithoutImplicit) :
    UnpackedFloat.unpack Format.binary64 (packComponents Format.binary64 s exponent fraction) =
      if exponent.toNat = 2047 then if fraction.toNat = 0 then .infinity s else .notANumber
      else if exponent.toNat = 0 then ofSignificand s fraction.toNat (-1074)
      else ofSignificand s (fraction.toNat + 4503599627370496) (exponent.toNat - 1075) := by
  rw [unpack_eq, signOf_packComponents, ← toNat_unpackMantissa, ← toNat_unpackExponent,
    unpackMantissa_packComponents, unpackExponent_packComponents]

/-- A regular double in range is read back from its bits, and one out of range is infinite. -/
theorem unpack_pack_finite (s : Sign) {m : Nat} {e : Int} (h : 0 < m) (hm : m < 2 ^ 53)
    (he : -1074 ≤ e) (hdigits : 2 ^ 52 ≤ m ∨ e = -1074) :
    UnpackedFloat.unpack Format.binary64 (UnpackedFloat.pack Format.binary64 (.finite s m e h)) =
      if e ≤ 971 then .finite s m e h else .infinity s := by
  have hbias : (e + Format.binary64.exponentBias +
      Format.binary64.mantissaBitsWithoutImplicit).toNat = (e + 1075).toNat := by
    have hsum : (Format.binary64.exponentBias : Int) +
      Format.binary64.mantissaBitsWithoutImplicit = 1075 := rfl
    rw [Int.add_assoc, hsum]
  have hlog : m.log2 + 1 = Format.binary64.mantissaBits ↔ 2 ^ 52 ≤ m := by
    show m.log2 + 1 = 53 ↔ _
    rw [← Nat.le_log2 (by omega)]
    have hlt := (Nat.log2_lt (by omega)).mpr hm
    omega
  unfold UnpackedFloat.pack
  simp only [hbias, hlog]
  by_cases hrange : e ≤ 971
  · rw [if_pos hrange, if_neg (show ¬2 ^ 11 ≤ (e + 1075).toNat + 1 by omega)]
    -- A significand with all its digits is packed without the first one, which the exponent stands
    -- for.
    by_cases hfull : 2 ^ 52 ≤ m
    · have hexponent : (BitVec.ofNat Format.binary64.exponentBits (e + 1075).toNat).toNat =
          (e + 1075).toNat := Nat.mod_eq_of_lt (show (e + 1075).toNat < 2048 by omega)
      have hfraction : (BitVec.ofNat Format.binary64.mantissaBitsWithoutImplicit m).toNat +
          4503599627370496 = m := by
        show m % 4503599627370496 + 4503599627370496 = m
        omega
      rw [if_pos hfull, unpack_packComponents, hexponent, hfraction, if_neg (by omega),
        if_neg (by omega)]
      exact ofSignificand_eq h (by omega)
    · have hfraction : (BitVec.ofNat Format.binary64.mantissaBitsWithoutImplicit m).toNat = m :=
        Nat.mod_eq_of_lt (show m < 4503599627370496 by omega)
      rw [if_neg hfull, unpack_packComponents, hfraction]
      exact ofSignificand_eq h (by omega)
  · rw [if_neg hrange, if_pos (show 2 ^ 11 ≤ (e + 1075).toNat + 1 by omega)]
    exact unpack_packComponents s (-1#_) 0

/-- Powers up to the range are within the bound. -/
theorem pow_le_beyond {k : Nat} (h : k ≤ range) : 2 ^ k ≤ beyond :=
  Nat.pow_le_pow_right Nat.two_pos h

/-- Powers from the range on are beyond it. -/
theorem beyond_le_pow {k : Nat} (h : range ≤ k) : beyond ≤ 2 ^ k :=
  Nat.pow_le_pow_right Nat.two_pos h

/-- Powers below the range are finite. -/
theorem pow_lt_beyond {k : Nat} (h : k < range) : 2 ^ k < beyond :=
  Nat.pow_lt_pow_right Nat.one_lt_two h

/-- A double in range counts less than an infinite one. -/
theorem amountOf_lt_beyond {m : Nat} {e : Int} {h : 0 < m} (hm : m < 2 ^ 53) (he : e ≤ 971) :
    amountOf (.finite .positive m e h) < beyond :=
  calc m * 2 ^ (e + 1074).toNat
      < 2 ^ 53 * 2 ^ (e + 1074).toNat := Nat.mul_lt_mul_of_pos_right hm (Nat.two_pow_pos _)
    _ = 2 ^ (53 + (e + 1074).toNat) := (Nat.pow_add 2 53 _).symm
    _ ≤ beyond := pow_le_beyond (show 53 + (e + 1074).toNat ≤ 2098 by omega)

/-- A double out of range counts no less than an infinite one. -/
theorem beyond_le_amountOf {m : Nat} {e : Int} {h : 0 < m} (hm : 2 ^ 52 ≤ m) (he : 971 < e) :
    beyond ≤ amountOf (.finite .positive m e h) :=
  calc beyond ≤ 2 ^ (52 + (e + 1074).toNat) :=
        beyond_le_pow (show 2098 ≤ 52 + (e + 1074).toNat by omega)
    _ = 2 ^ 52 * 2 ^ (e + 1074).toNat := Nat.pow_add 2 52 _
    _ ≤ m * 2 ^ (e + 1074).toNat := Nat.mul_le_mul_right _ hm

/-- What a regular double counts is kept by its bits, up to what is infinite. -/
theorem amountOf_unpack_pack {f : UnpackedFloat} (hf : Regular f) :
    amountOf (UnpackedFloat.unpack Format.binary64 (UnpackedFloat.pack Format.binary64 f)) =
      min (amountOf f) beyond := by
  cases f with
  | infinity s =>
      have hsame : UnpackedFloat.unpack Format.binary64
          (UnpackedFloat.pack Format.binary64 (.infinity s)) = .infinity s :=
        unpack_packComponents s (-1#_) 0
      rw [hsame]
      cases s
      · exact (Nat.zero_min _).symm
      · exact (Nat.min_self _).symm
  | notANumber =>
      have hsame : UnpackedFloat.unpack Format.binary64
          (UnpackedFloat.pack Format.binary64 .notANumber) = .notANumber := unpack_packedNaN
      rw [hsame]
      exact (Nat.zero_min _).symm
  | zero s =>
      have hsame : UnpackedFloat.unpack Format.binary64
          (UnpackedFloat.pack Format.binary64 (.zero s)) = .zero s := unpack_packedZero
      rw [hsame]
      exact (Nat.zero_min _).symm
  | finite s m e h =>
      obtain ⟨hm, he, hdigits⟩ := hf
      rw [unpack_pack_finite s h hm he hdigits]
      cases s with
      | negative =>
          have hnone : amountOf (.finite .negative m e h) = 0 := rfl
          rw [hnone, Nat.zero_min]
          split <;> rfl
      | positive =>
          -- Past the last exponent the number is packed as an infinity.
          by_cases hrange : e ≤ 971
          · rw [if_pos hrange, Nat.min_eq_left (Nat.le_of_lt (amountOf_lt_beyond hm hrange))]
          · have hfull : 2 ^ 52 ≤ m := by omega
            rw [if_neg hrange, Nat.min_eq_right (beyond_le_amountOf hfull (by omega))]
            rfl

end LayerCast.Binary64
