import Mathlib.Algebra.Group.Nat.Defs
import LayerCast.Arith.Binary64

/-!
# `LayerCast.Proofs.Arith.Rounding`: rounding to the precision of a double

A double has 53 binary digits, as long as its last digit does not lie below the least positive
double. `Binary64.nearest` rounds a number accordingly, and is stated for natural numbers: a number
`n` counts units of which `2 ^ low` make up the least positive double, and what it is rounded to
counts least positive doubles.

Two facts carry all that is said about products of doubles. Rounding is monotone
(`Binary64.nearest_mono`), also where the larger number is rounded at a higher place, and a number
that has no more than 53 digits is not changed (`Binary64.nearest_mul_pow`). A third one is about
sums: who goes part of the way to a power of two does not arrive beyond it
(`Binary64.nearest_add_nearest_sub_le`).
-/

set_option autoImplicit false

namespace LayerCast

/-! ### Rounding a quotient -/

/-- The rounded quotient is the quotient or the number after it. -/
theorem roundHalfEven_bounds (num den : Nat) :
    num / den ≤ roundHalfEven num den ∧ roundHalfEven num den ≤ num / den + 1 := by
  simp only [roundHalfEven]
  split
  · omega
  · split <;> omega

/-- A larger number is not rounded to a smaller quotient. -/
theorem roundHalfEven_mono {num num' : Nat} (den : Nat) (h : num ≤ num') :
    roundHalfEven num den ≤ roundHalfEven num' den := by
  have hquotient : num / den ≤ num' / den := Nat.div_le_div_right h
  rcases Nat.lt_or_eq_of_le hquotient with hlt | hsame
  · have hup := (roundHalfEven_bounds num den).2
    have hdown := (roundHalfEven_bounds num' den).1
    omega
  · -- Between the same two neighbours the remainders decide.
    have hnum := Nat.div_add_mod num den
    have hnum' := Nat.div_add_mod num' den
    rw [hsame] at hnum
    have hrest : num % den ≤ num' % den := by omega
    simp only [roundHalfEven, hsame]
    generalize num' / den = q
    split <;> split <;> (try split) <;> (try split) <;> omega

/-- A multiple is not rounded. -/
theorem roundHalfEven_mul_self (n : Nat) {den : Nat} (hden : 0 < den) :
    roundHalfEven (n * den) den = n := by
  simp only [roundHalfEven, Nat.mul_div_cancel n hden, Nat.mul_mod_left]
  rw [if_pos (by omega)]

/-- A quotient is rounded alike in every unit. -/
theorem roundHalfEven_mul_mul (num den : Nat) {unit : Nat} (hunit : 0 < unit) :
    roundHalfEven (num * unit) (den * unit) = roundHalfEven num den := by
  simp only [roundHalfEven, Nat.mul_div_mul_right num den hunit, Nat.mul_mod_mul_right]
  have hleft : 2 * (num % den * unit) < den * unit ↔ 2 * (num % den) < den := by
    rw [← Nat.mul_assoc]
    exact Nat.mul_lt_mul_right hunit
  have hright : den * unit < 2 * (num % den * unit) ↔ den < 2 * (num % den) := by
    rw [← Nat.mul_assoc]
    exact Nat.mul_lt_mul_right hunit
  simp only [hleft, hright]

/-! ### Binary digits -/

/-- A larger number has no fewer digits. -/
theorem log2_mono {n n' : Nat} (h : n ≤ n') : n.log2 ≤ n'.log2 := by
  rcases Nat.eq_zero_or_pos n with rfl | hpos
  · simp
  · rw [Nat.le_log2 (by omega)]
    exact Nat.le_trans (Nat.log2_self_le (by omega)) h

/-- A power of two adds digits. -/
theorem log2_mul_pow {n : Nat} (hn : 0 < n) (k : Nat) : (n * 2 ^ k).log2 = n.log2 + k := by
  have hpos : 0 < n * 2 ^ k := Nat.mul_pos hn (Nat.two_pow_pos k)
  rw [Nat.log2_eq_iff (by omega)]
  constructor
  · rw [Nat.pow_add]
    exact Nat.mul_le_mul_right _ (Nat.log2_self_le (by omega))
  · rw [Nat.add_right_comm, Nat.pow_add]
    exact Nat.mul_lt_mul_of_pos_right Nat.lt_log2_self (Nat.two_pow_pos k)

/-! ### Rounding to 53 digits -/

namespace Binary64

/-- The place at which a number is rounded. -/
def place (low n : Nat) : Nat := max (n.log2 - 52) low

/-- The number that is nearest among those of 53 digits, in units of the place `low`. -/
def nearest (low n : Nat) : Nat :=
  roundHalfEven n (2 ^ place low n) * 2 ^ (place low n - low)

/-- No place lies below the lowest one. -/
theorem low_le_place (low n : Nat) : low ≤ place low n := Nat.le_max_right _ _

/-- A larger number is not rounded at a lower place. -/
theorem place_mono (low : Nat) {n n' : Nat} (h : n ≤ n') : place low n ≤ place low n' := by
  have hlog := log2_mono h
  unfold place
  omega

/-- What is rounded has at most 53 digits, or is the number after those. -/
theorem roundHalfEven_le_pow (low n : Nat) : roundHalfEven n (2 ^ place low n) ≤ 2 ^ 53 := by
  have hlog : n.log2 ≤ 52 + place low n := by
    unfold place
    omega
  have hlt : n < 2 ^ 53 * 2 ^ place low n := by
    rw [← Nat.pow_add]
    exact Nat.lt_of_lt_of_le Nat.lt_log2_self (Nat.pow_le_pow_right (by omega) (by omega))
  have hquotient := Nat.div_lt_of_lt_mul (Nat.mul_comm _ _ ▸ hlt)
  have hup := (roundHalfEven_bounds n (2 ^ place low n)).2
  omega

/-- Above the lowest place there are 53 digits. -/
theorem pow_le_roundHalfEven (low n : Nat) (h : low < place low n) :
    2 ^ 52 ≤ roundHalfEven n (2 ^ place low n) := by
  have hlog : n.log2 = 52 + place low n := by
    unfold place at h ⊢
    omega
  have hpos : n ≠ 0 := by
    rintro rfl
    simp at hlog
    omega
  have hdown := (roundHalfEven_bounds n (2 ^ place low n)).1
  refine Nat.le_trans ?_ hdown
  rw [Nat.le_div_iff_mul_le (Nat.two_pow_pos _), ← Nat.pow_add, ← hlog]
  exact Nat.log2_self_le hpos

/-- **Rounding to 53 digits is monotone.** -/
theorem nearest_mono {low n n' : Nat} (h : n ≤ n') : nearest low n ≤ nearest low n' := by
  unfold nearest
  rcases Nat.lt_or_eq_of_le (place_mono low h) with hlt | hsame
  · -- The smaller number stays below the first one that is rounded at the higher place.
    have hlow := low_le_place low n
    calc roundHalfEven n (2 ^ place low n) * 2 ^ (place low n - low)
        ≤ 2 ^ 53 * 2 ^ (place low n - low) := Nat.mul_le_mul_right _ (roundHalfEven_le_pow low n)
      _ = 2 ^ 52 * 2 ^ (place low n - low + 1) := by rw [Nat.pow_succ]; omega
      _ ≤ 2 ^ 52 * 2 ^ (place low n' - low) :=
          Nat.mul_le_mul_left _ (Nat.pow_le_pow_right (by omega) (by omega))
      _ ≤ roundHalfEven n' (2 ^ place low n') * 2 ^ (place low n' - low) :=
          Nat.mul_le_mul_right _ (pow_le_roundHalfEven low n' (by omega))
  · rw [hsame]
    exact Nat.mul_le_mul_right _ (roundHalfEven_mono _ h)

/-- **A number of 53 digits is not rounded.** -/
theorem nearest_mul_pow (low m shift : Nat) (hm : m < 2 ^ 53) :
    nearest low (m * 2 ^ shift * 2 ^ low) = m * 2 ^ shift := by
  rcases Nat.eq_zero_or_pos m with rfl | hpos
  · simp [nearest, roundHalfEven]
  · have hlog : (m * 2 ^ shift * 2 ^ low).log2 = m.log2 + (shift + low) := by
      rw [Nat.mul_assoc, ← Nat.pow_add, log2_mul_pow hpos]
    have hdigits : m.log2 < 53 := (Nat.log2_lt (by omega)).mpr hm
    have hplace : place low (m * 2 ^ shift * 2 ^ low) ≤ shift + low := by
      unfold place
      omega
    have hlow := low_le_place low (m * 2 ^ shift * 2 ^ low)
    unfold nearest
    -- The digits end at or above the place of rounding, so that nothing is cut off.
    generalize place low (m * 2 ^ shift * 2 ^ low) = t at hplace hlow ⊢
    have hmultiple : m * 2 ^ shift * 2 ^ low = m * 2 ^ (shift + low - t) * 2 ^ t := by
      rw [Nat.mul_assoc, ← Nat.pow_add, Nat.mul_assoc, ← Nat.pow_add, Nat.sub_add_cancel hplace]
    rw [hmultiple, roundHalfEven_mul_self _ (Nat.two_pow_pos t), Nat.mul_assoc, ← Nat.pow_add]
    congr 2
    omega

/-! ### Numbers of least positive doubles -/

/-- Units that make up least positive doubles do not matter for what is a whole number of these. -/
theorem nearest_scale (low n : Nat) : nearest low (n * 2 ^ low) = nearest 0 n := by
  rcases Nat.eq_zero_or_pos n with rfl | hpos
  · simp [nearest, roundHalfEven]
  · have hplace : place low (n * 2 ^ low) = place 0 n + low := by
      rw [place, place, log2_mul_pow hpos]
      omega
    rw [nearest, nearest, hplace, Nat.pow_add, roundHalfEven_mul_mul _ _ (Nat.two_pow_pos low),
      Nat.add_sub_cancel, Nat.sub_zero]

/-- A number of 53 digits is not rounded, as a number of least positive doubles. -/
theorem nearest_zero_mul_pow (m shift : Nat) (hm : m < 2 ^ 53) :
    nearest 0 (m * 2 ^ shift) = m * 2 ^ shift := by
  simpa using nearest_mul_pow 0 m shift hm

/-- A power of two is not rounded. -/
theorem nearest_two_pow (k : Nat) : nearest 0 (2 ^ k) = 2 ^ k := by
  simpa using nearest_zero_mul_pow 1 k (by decide)

/-- A power of two is not rounded, whatever the units. -/
theorem nearest_two_pow_add (low k : Nat) : nearest low (2 ^ (k + low)) = 2 ^ k := by
  rw [Nat.pow_add, nearest_scale, nearest_two_pow]

/-- What is rounded is within half a unit of its place. -/
theorem nearest_near (n : Nat) : 2 * nearest 0 n ≤ 2 * n + 2 ^ place 0 n := by
  rw [nearest, Nat.sub_zero]
  exact (roundHalfEven_near n (2 ^ place 0 n) (Nat.two_pow_pos _)).2

/-- A number below a power of two is rounded 53 places below it or lower. -/
theorem place_le_of_lt {n k : Nat} (h : n < 2 ^ k) : place 0 n ≤ k - 53 := by
  rcases Nat.eq_zero_or_pos n with rfl | hpos
  · simp [place]
  · have hlog : n.log2 < k := (Nat.log2_lt (by omega)).mpr h
    unfold place
    omega

/-- **Going part of the way to a power of two** does not lead beyond it, although the way and the
point at which one arrives are rounded. -/
theorem nearest_add_nearest_sub_le {a k : Nat} (ha : a ≤ 2 ^ k) (hk : 53 ≤ k) :
    nearest 0 (a + nearest 0 (2 ^ k - a)) ≤ 2 ^ k := by
  rcases Nat.eq_zero_or_pos a with rfl | hpos
  · have hwhole : nearest 0 (0 + nearest 0 (2 ^ k - 0)) = 2 ^ k := by
      rw [Nat.sub_zero, Nat.zero_add, nearest_two_pow, nearest_two_pow]
    exact Nat.le_of_eq hwhole
  · -- The way is shorter than the power of two, so that it is rounded at a lower place.
    have hway := nearest_near (2 ^ k - a)
    have hplace : 2 ^ place 0 (2 ^ k - a) ≤ 2 ^ (k - 53) :=
      Nat.pow_le_pow_right Nat.two_pos (place_le_of_lt (by omega))
    generalize nearest 0 (2 ^ k - a) = way at hway ⊢
    generalize hend : a + way = n
    rcases Nat.lt_or_ge (2 ^ k) n with hbeyond | hbelow
    · -- Just behind the power of two there is no other number of 53 digits.
      have hunit : 2 ^ k = 2 ^ 53 * 2 ^ (k - 53) := by
        rw [← Nat.pow_add, Nat.add_sub_cancel' hk]
      have hplaceEnd : place 0 n = k - 53 + 1 := by
        have hlog : n.log2 = k := by
          rw [Nat.log2_eq_iff (by omega), Nat.pow_succ]
          omega
        unfold place
        omega
      have hnear := nearest_near n
      rw [nearest, Nat.sub_zero, hplaceEnd, Nat.pow_succ] at hnear ⊢
      generalize roundHalfEven _ _ = r at hnear ⊢
      generalize 2 ^ (k - 53) = unit at *
      have hquotient : r ≤ 2 ^ 52 := by
        refine Nat.le_of_not_lt fun hmore => ?_
        have hlarge : (2 ^ 52 + 1) * (unit * 2) ≤ r * (unit * 2) :=
          Nat.mul_le_mul_right _ (by omega)
        omega
      calc r * (unit * 2) ≤ 2 ^ 52 * (unit * 2) := Nat.mul_le_mul_right _ hquotient
        _ = 2 ^ k := by omega
    · exact Nat.le_trans (nearest_mono hbelow) (Nat.le_of_eq (nearest_two_pow k))

end Binary64

end LayerCast
