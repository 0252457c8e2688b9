import LayerCast.Proofs.Arith.Significands

/-!
# `LayerCast.Proofs.Arith.Doubles`: products and order of doubles

What the product of two doubles counts is nearest to the product of what they count
(`Binary64.amount_mul`), so that larger factors do not have a smaller product
(`Binary64.product_mono`). A double that is not below another one counts no less
(`Binary64.amount_le_of_not_lt`), and a number of at most 53 digits counts itself
(`Binary64.amount_toFloat`). All of them carry over to words, as rounding up to a word is monotone
(`Binary64.ceilWord_mono`).
-/

set_option autoImplicit false

namespace LayerCast.Binary64

open Float.Model Float.Model.UnpackedFloat

/-! ### Products -/

/-- What the product of two doubles counts, if not both are negative: nothing if one of them counts
nothing, as much as an infinite one if one of them is infinite, and else what is nearest. -/
def product (a b : Nat) : Nat :=
  if a = 0 ∨ b = 0 then 0
  else if beyond ≤ a ∨ beyond ≤ b then beyond
  else min (nearest 1074 (a * b)) beyond

/-- Larger factors do not have a smaller product. -/
theorem product_mono {a a' b b' : Nat} (ha : a ≤ a') (hb : b ≤ b') :
    product a b ≤ product a' b' := by
  have hnearest : nearest 1074 (a * b) ≤ nearest 1074 (a' * b') :=
    nearest_mono (Nat.mul_le_mul ha hb)
  unfold product
  generalize beyond = top
  generalize nearest 1074 (a * b) = n at *
  generalize nearest 1074 (a' * b') = n' at *
  split
  · exact Nat.zero_le _
  · split <;> split <;> (try split) <;> omega

/-- A double that is not below zero, though it may be a negative zero. -/
def NotNegative : UnpackedFloat → Prop
  | .finite .negative _ _ _ => False
  | .infinity .negative => False
  | _ => True

/-- The product of two significands has digits to round off, or lies at the lowest place. -/
theorem le_exponent_mul {m n : Nat} {e f : Int} (hm : 0 < m) (hn : 0 < n)
    (he : 2 ^ 52 ≤ m ∨ e = -1074) (hf : 2 ^ 52 ≤ n ∨ f = -1074) :
    e + f ≤ max ((m * n).log2 + (e + f) - 52) (-1074) := by
  have hpos : 0 < m * n := Nat.mul_pos hm hn
  have hdigits : 2 ^ 52 ≤ m * n → 52 ≤ (m * n).log2 := (Nat.le_log2 (by omega)).mpr
  rcases he with hfull | rfl
  · have hlog := hdigits (Nat.le_trans hfull (Nat.le_mul_of_pos_right m hn))
    omega
  · rcases hf with hfull | rfl
    · have hlog := hdigits (Nat.le_trans hfull (Nat.le_mul_of_pos_left n hm))
      omega
    · omega

/-- The product of two finite doubles. -/
theorem amountOf_mul_finite {s s' : Sign} {m n : Nat} {e f : Int} {hm : 0 < m} {hn : 0 < n}
    (hx : Regular (.finite s m e hm)) (hy : Regular (.finite s' n f hn)) :
    Regular (UnpackedFloat.mul Format.binary64 (.finite s m e hm) (.finite s' n f hn)) ∧
      amountOf (UnpackedFloat.mul Format.binary64 (.finite s m e hm) (.finite s' n f hn)) =
        match s * s' with
        | .positive => nearest 1074 (m * 2 ^ (e + 1074).toNat * (n * 2 ^ (f + 1074).toNat))
        | .negative => 0 := by
  obtain ⟨-, hle, he⟩ := hx
  obtain ⟨-, hle', hf⟩ := hy
  have hunits : m * 2 ^ (e + 1074).toNat * (n * 2 ^ (f + 1074).toNat) =
      m * n * 2 ^ (e + f + 2148).toNat := by
    have hsum : (e + f + 2148).toNat = (e + 1074).toNat + (f + 1074).toNat := by omega
    rw [hsum, Nat.pow_add, Nat.mul_mul_mul_comm]
  rw [hunits]
  exact roundWithAccuracy_spec (s * s') (Nat.mul_pos hm hn) (by omega)
    (le_exponent_mul hm hn he hf)

/-- The amount of a positive finite double is positive, and that of an infinite one larger. -/
theorem amountOf_pos {m : Nat} {e : Int} (h : 0 < m) :
    0 < amountOf (.finite .positive m e h) :=
  Nat.mul_pos h (Nat.two_pow_pos _)

/-- Zero times anything counts nothing, an infinity included. -/
theorem product_zero_left (b : Nat) : product 0 b = 0 := if_pos (.inl rfl)

/-- The same from the other side. -/
theorem product_zero_right (a : Nat) : product a 0 = 0 := if_pos (.inr rfl)

/-- There is a number that is finite. -/
theorem beyond_pos : 0 < beyond := Nat.two_pow_pos _

/-- The product with an infinite double is infinite. -/
theorem product_beyond_left {b : Nat} (hb : 0 < b) : product beyond b = beyond := by
  have hpos := beyond_pos
  rw [product, if_neg (by omega), if_pos (.inl (Nat.le_refl _))]

/-- Infinity times anything that counts is infinity. -/
theorem product_beyond_right {a : Nat} (ha : 0 < a) : product a beyond = beyond := by
  have hpos := beyond_pos
  rw [product, if_neg (by omega), if_pos (.inr (Nat.le_refl _))]

/-- The product of finite doubles. -/
theorem product_of_lt {a b : Nat} (ha : 0 < a) (hb : 0 < b) (ha' : a < beyond) (hb' : b < beyond) :
    product a b = min (nearest 1074 (a * b)) beyond := by
  rw [product, if_neg (by omega), if_neg (by omega)]

/-- What the product of two doubles counts before it is packed. -/
theorem amountOf_mul {u v : UnpackedFloat} (hu : Regular u) (hv : Regular v)
    (hu' : ∀ s m e h, u = .finite s m e h → e ≤ 971)
    (hv' : ∀ s m e h, v = .finite s m e h → e ≤ 971) (h : NotNegative u ∨ NotNegative v) :
    Regular (UnpackedFloat.mul Format.binary64 u v) ∧
      min (amountOf (UnpackedFloat.mul Format.binary64 u v)) beyond =
        product (amountOf u) (amountOf v) := by
  -- The table of cases that the operation has, with the signs last. Only two finite factors are
  -- rounded.
  cases u with
  | notANumber => exact ⟨trivial, (Nat.zero_min _).trans (product_zero_left _).symm⟩
  | zero s =>
      have hnone : product (amountOf (.zero s)) (amountOf v) = 0 := product_zero_left _
      rw [hnone]
      cases v <;> exact ⟨trivial, Nat.zero_min _⟩
  | infinity s =>
      cases v with
      | notANumber => exact ⟨trivial, (Nat.zero_min _).trans (product_zero_right _).symm⟩
      | zero s' => exact ⟨trivial, (Nat.zero_min _).trans (product_zero_right _).symm⟩
      | infinity s' =>
          refine ⟨trivial, ?_⟩
          cases s <;> cases s'
          · exact (h.elim id id).elim
          · exact (Nat.zero_min _).trans (product_zero_left _).symm
          · exact (Nat.zero_min _).trans (product_zero_right _).symm
          · exact (Nat.min_self _).trans (product_beyond_left beyond_pos).symm
      | finite s' n f hn =>
          refine ⟨trivial, ?_⟩
          cases s <;> cases s'
          · exact (h.elim id id).elim
          · exact (Nat.zero_min _).trans (product_zero_left _).symm
          · exact (Nat.zero_min _).trans (product_zero_right _).symm
          · exact (Nat.min_self _).trans (product_beyond_left (amountOf_pos hn)).symm
  | finite s m e hm =>
      cases v with
      | notANumber => exact ⟨trivial, (Nat.zero_min _).trans (product_zero_right _).symm⟩
      | zero s' => exact ⟨trivial, (Nat.zero_min _).trans (product_zero_right _).symm⟩
      | infinity s' =>
          refine ⟨trivial, ?_⟩
          cases s <;> cases s'
          · exact (h.elim id id).elim
          · exact (Nat.zero_min _).trans (product_zero_left _).symm
          · exact (Nat.zero_min _).trans (product_zero_right _).symm
          · exact (Nat.min_self _).trans (product_beyond_right (amountOf_pos hm)).symm
      | finite s' n f hn =>
          obtain ⟨hregular, hamount⟩ := amountOf_mul_finite hu hv
          refine ⟨hregular, ?_⟩
          rw [hamount]
          cases s <;> cases s'
          · exact (h.elim id id).elim
          · exact (Nat.zero_min _).trans (product_zero_left _).symm
          · exact (Nat.zero_min _).trans (product_zero_right _).symm
          · exact (product_of_lt (amountOf_pos hm) (amountOf_pos hn)
              (amountOf_lt_beyond hu.1 (hu' _ _ _ _ rfl))
              (amountOf_lt_beyond hv.1 (hv' _ _ _ _ rfl))).symm

/-- **The product of two doubles counts what is nearest** to the product of what they count, as
long as not both of them are negative. -/
theorem amount_mul {x y : Float}
    (h : NotNegative x.toModel.unpack ∨ NotNegative y.toModel.unpack) :
    amount (x * y) = product (amount x) (amount y) := by
  have hmul : amount (x * y) = amountOf (UnpackedFloat.unpack Format.binary64
      (UnpackedFloat.pack Format.binary64
        (UnpackedFloat.mul Format.binary64 x.toModel.unpack y.toModel.unpack))) :=
    amount_eq (x * y)
  obtain ⟨hx, hxrange⟩ := regular_unpack x.toModel.toBits.toBitVec
  obtain ⟨hy, hyrange⟩ := regular_unpack y.toModel.toBits.toBitVec
  obtain ⟨hregular, hamount⟩ := amountOf_mul hx hy hxrange hyrange h
  rw [hmul, amount_eq x, amount_eq y]
  exact (amountOf_unpack_pack hregular).trans hamount

/-- The product of a double with a factor of at most 1 counts no more than the double. -/
theorem amount_mul_le_self (x : Float) {c : Float} (h : NotNegative c.toModel.unpack)
    (hc : amount c ≤ one) : amount (x * c) ≤ amount x := by
  rw [amount_mul (.inr h)]
  refine Nat.le_trans (product_mono (Nat.le_refl _) hc) ?_
  obtain ⟨hx, hrange⟩ := regular_unpack x.toModel.toBits.toBitVec
  change Regular x.toModel.unpack at hx
  change ∀ s m e h, x.toModel.unpack = .finite s m e h → e ≤ 971 at hrange
  rw [amount_eq x]
  -- By monotonicity the factor may be 1. What is left is that a double times 1 is the double.
  generalize x.toModel.unpack = u at *
  have hnone : product 0 one ≤ 0 := Nat.le_of_eq (product_zero_left _)
  cases u with
  | notANumber => exact hnone
  | zero s => exact hnone
  | infinity s =>
      cases s with
      | negative => exact hnone
      | positive => exact Nat.le_of_eq (product_beyond_left one_pos)
  | finite s m e hm =>
      cases s with
      | negative => exact hnone
      | positive =>
          have hlt := amountOf_lt_beyond (h := hm) hx.1 (hrange _ _ _ _ rfl)
          have hone : one < beyond := pow_lt_beyond (show 1074 < 2098 by decide)
          rw [product_of_lt (amountOf_pos hm) one_pos hlt hone]
          exact Nat.le_trans (Nat.min_le_left _ _)
            (Nat.le_of_eq (nearest_mul_pow onePlace m (e + 1074).toNat hx.1))

/-! ### Order -/

/-- Of two positive finite doubles the one with the higher place is larger, and of two with the same
place the one with the larger significand. -/
theorem amountOf_le_of_compare {m n : Nat} {e f : Int} {hm : 0 < m} {hn : 0 < n}
    (hx : Regular (.finite .positive m e hm)) (hy : Regular (.finite .positive n f hn))
    (h : ((compare e f).then (compare m n)) ≠ .lt) :
    amountOf (.finite .positive n f hn) ≤ amountOf (.finite .positive m e hm) := by
  obtain ⟨hm', he, hdigits⟩ := hx
  obtain ⟨hn', hf, -⟩ := hy
  -- The exponents decide, unless they are the same.
  rcases Int.lt_trichotomy e f with hlt | rfl | hgt
  · rw [Int.compare_eq_lt.mpr hlt] at h
    exact absurd rfl h
  · have hle : n ≤ m := by
      apply Nat.le_of_not_lt
      intro hlt
      rw [Int.compare_eq_eq.mpr rfl, Nat.compare_eq_lt.mpr hlt] at h
      exact absurd rfl h
    exact Nat.mul_le_mul_right _ hle
  · -- The larger exponent is not the least one, so that all 53 digits stand.
    have hfull : 2 ^ 52 ≤ m := by omega
    have hexp : (e + 1074).toNat = (f + 1074).toNat + 1 + (e - f - 1).toNat := by omega
    calc n * 2 ^ (f + 1074).toNat
        ≤ 2 ^ 53 * 2 ^ (f + 1074).toNat := Nat.mul_le_mul_right _ (Nat.le_of_lt hn')
      _ = 2 ^ 52 * 2 ^ ((f + 1074).toNat + 1) := by rw [Nat.pow_succ]; omega
      _ ≤ 2 ^ 52 * 2 ^ (e + 1074).toNat :=
          Nat.mul_le_mul_left _ (Nat.pow_le_pow_right Nat.two_pos (by omega))
      _ ≤ m * 2 ^ (e + 1074).toNat := Nat.mul_le_mul_right _ hfull

/-- A double that compares as smaller is below the other one. -/
theorem lt_of_compare {x y : Float}
    (h : x.toModel.unpack.compare y.toModel.unpack = some .lt) : x < y := by
  show Float.lt x y = true
  unfold Float.lt
  rw [decide_eq_true_eq]
  show (x.toModel.unpack.compare y.toModel.unpack == some .lt) = true
  rw [h]
  rfl

/-- **What is not below a double** counts no less, if both of them are numbers. -/
theorem amount_le_of_not_lt {x y : Float} (hx : x.isNaN = false) (h : ¬x < y) :
    amount y ≤ amount x := by
  have hcompare : x.toModel.unpack.compare y.toModel.unpack ≠ some .lt :=
    fun hlt => h (lt_of_compare hlt)
  have hnumber : x.toModel.unpack.isNaN = false := hx
  have hxregular := (regular_unpack x.toModel.toBits.toBitVec).1
  obtain ⟨hyregular, hyrange⟩ := regular_unpack y.toModel.toBits.toBitVec
  change Regular x.toModel.unpack at hxregular
  change Regular y.toModel.unpack at hyregular
  change ∀ s m e h, y.toModel.unpack = .finite s m e h → e ≤ 971 at hyrange
  rw [amount_eq x, amount_eq y]
  generalize x.toModel.unpack = u at *
  generalize y.toModel.unpack = v at *
  cases v with
  | notANumber => exact Nat.zero_le _
  | zero s => exact Nat.zero_le _
  | infinity s =>
      cases s with
      | negative => exact Nat.zero_le _
      | positive =>
          -- Only an infinite double is not below an infinite one.
          cases u with
          | notANumber => cases hnumber
          | infinity s =>
              cases s with
              | negative => exact absurd rfl hcompare
              | positive => exact Nat.le_refl _
          | zero s => exact absurd rfl hcompare
          | finite s => exact absurd rfl hcompare
  | finite s n f hn =>
      cases s with
      | negative => exact Nat.zero_le _
      | positive =>
          cases u with
          | notANumber => cases hnumber
          | zero s => exact absurd rfl hcompare
          | infinity s =>
              cases s with
              | negative => exact absurd rfl hcompare
              | positive =>
                  exact Nat.le_of_lt (amountOf_lt_beyond hyregular.1 (hyrange _ _ _ _ rfl))
          | finite s m e hm =>
              cases s with
              | negative => exact absurd rfl hcompare
              | positive =>
                  apply amountOf_le_of_compare hxregular hyregular
                  intro hlt
                  exact hcompare (congrArg some hlt)

/-! ### Numbers -/

/-- A double that counts something is not negative. -/
theorem notNegative_of_pos {x : Float} (h : 0 < amount x) : NotNegative x.toModel.unpack := by
  rw [amount_eq] at h
  cases hx : x.toModel.unpack with
  | infinity s =>
      cases s with
      | negative => rw [hx] at h; exact absurd h (Nat.lt_irrefl 0)
      | positive => trivial
  | finite s m e hm =>
      cases s with
      | negative => rw [hx] at h; exact absurd h (Nat.lt_irrefl 0)
      | positive => trivial
  | _ => trivial

/-- A number of 53 digits is not rounded. -/
theorem amountOf_round {n : Nat} (hpos : 0 < n) (hn : n < 2 ^ 53) :
    Regular (UnpackedFloat.round Format.binary64 .positive n 0) ∧
      amountOf (UnpackedFloat.round Format.binary64 .positive n 0) = n * one := by
  obtain ⟨hregular, hamount⟩ := round_spec .positive hpos (show -1074 ≤ (0 : Int) by decide)
  have hplace : ((0 : Int) + 1074).toNat = onePlace := rfl
  rw [hplace] at hamount
  exact ⟨hregular, hamount.trans (nearest_zero_mul_pow n onePlace hn)⟩

/-- A number is in range if it is below a power of two that is. -/
theorem mul_one_le_beyond {n k : Nat} (hn : n ≤ 2 ^ k) (hk : k + onePlace ≤ range) :
    n * one ≤ beyond := by
  refine Nat.le_trans (Nat.mul_le_mul_right one hn) ?_
  rw [one, ← Nat.pow_add]
  exact pow_le_beyond hk

/-- **The double of a number of 53 digits counts the number.** -/
theorem amount_toFloat {n : Nat} (hn : n < 2 ^ 53) : amount n.toUInt64.toFloat = n * one := by
  have hword : n.toUInt64.toNat = n := Nat.mod_eq_of_lt (show n < 2 ^ 64 by omega)
  rw [amount_eq]
  show amountOf (UnpackedFloat.unpack Format.binary64 (UnpackedFloat.pack Format.binary64
    (UnpackedFloat.normalize Format.binary64 n.toUInt64.toNat 0 .positive))) = _
  rw [hword]
  unfold UnpackedFloat.normalize
  -- A word of 53 digits is not rounded.
  rcases Nat.eq_zero_or_pos n with rfl | hpos
  · have hzero : Regular (.zero .positive) := trivial
    rw [Nat.zero_mul]
    exact (amountOf_unpack_pack hzero).trans (Nat.zero_min _)
  · have hcompare : compare (n : Int) 0 = .gt := Int.compare_eq_gt.mpr (by omega)
    obtain ⟨hregular, hamount⟩ := amountOf_round hpos hn
    rw [hcompare]
    simp only [Int.toNat_natCast]
    rw [amountOf_unpack_pack hregular, hamount]
    exact Nat.min_eq_left (mul_one_le_beyond (Nat.le_of_lt hn) (by decide))

/-- The double of a number is not negative. -/
theorem notNegative_toFloat {n : Nat} (hn : n < 2 ^ 53) :
    NotNegative n.toUInt64.toFloat.toModel.unpack := by
  rcases Nat.eq_zero_or_pos n with rfl | hpos
  · have hzero : (0 : Nat).toUInt64.toFloat.toModel.unpack = .zero .positive :=
      unpack_packedZero
    rw [hzero]
    trivial
  · apply notNegative_of_pos
    rw [amount_toFloat hn]
    exact Nat.mul_pos hpos one_pos

/-- Rounding a double up to a word depends on what it counts. -/
theorem ceilWord_eq (x : Float) :
    ceilWord x = min ((amount x + (one - 1)) / one) (word64 - 1) := by
  have hunit : 1 <<< 1074 = one := by
    show 1 <<< onePlace = one
    exact Nat.one_shiftLeft onePlace
  have hpos := one_pos
  have hrange : word64 * one ≤ beyond := mul_one_le_beyond (k := 64) (by decide) (by decide)
  unfold ceilWord amount
  rw [hunit]
  -- The unit is far too large to be computed, and only that it is positive matters.
  generalize one = unit at *
  have hnone : min ((0 + (unit - 1)) / unit) (word64 - 1) = 0 := by
    rw [Nat.zero_add, Nat.div_eq_of_lt (Nat.sub_lt hpos Nat.one_pos), Nat.zero_min]
  cases decode x with
  | nan => exact hnone.symm
  | infinite negative =>
      cases negative with
      | true => exact hnone.symm
      | false =>
          symm
          apply Nat.min_eq_right
          rw [Nat.le_div_iff_mul_le hpos]
          calc (word64 - 1) * unit ≤ word64 * unit := Nat.mul_le_mul_right _ (Nat.sub_le _ _)
            _ ≤ beyond := hrange
            _ ≤ beyond + (unit - 1) := Nat.le_add_right _ _
  | finite negative significand shift =>
      cases negative with
      | true => exact hnone.symm
      | false => rfl

/-- **A double that counts more is not rounded up to a smaller word.** -/
theorem ceilWord_mono {x y : Float} (h : amount x ≤ amount y) : ceilWord x ≤ ceilWord y := by
  rw [ceilWord_eq, ceilWord_eq]
  generalize one = unit
  have hquotient : (amount x + (unit - 1)) / unit ≤ (amount y + (unit - 1)) / unit :=
    Nat.div_le_div_right (Nat.add_le_add_right h _)
  omega

end LayerCast.Binary64
