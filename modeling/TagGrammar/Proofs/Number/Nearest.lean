import TagGrammar.Number.Decimal
import TagGrammar.Proofs.Number.Place

namespace TagGrammar.Number.Binary64

variable {x y : Binary64} {num den q : ℕ} {place : ℤ} {v : ℚ} {negative : Bool}

theorem eq_of_size_eq (same : x.size = y.size) : x.scale = y.scale ∧ x.fraction = y.fraction := by
  have order {x y : Binary64} (same : x.size = y.size) : ¬ x.exponent < y.exponent := by
    intro finer
    have least := x.exponent_ge
    have normal : 2 ^ 52 ≤ y.significand := by
      unfold exponent at finer least
      unfold significand
      split <;> omega
    have apart : x.size < y.size :=
      calc x.size < 2 ^ 53 * 2 ^ x.exponent :=
            mul_lt_mul_of_pos_right (by exact_mod_cast x.significand_lt) (two_zpow_pos _)
        _ = 2 ^ 52 * 2 ^ (x.exponent + 1) := by rw [zpow_add_one₀ two_ne_zero]; ring
        _ ≤ 2 ^ 52 * 2 ^ y.exponent :=
            mul_le_mul_of_nonneg_left (zpow_le_zpow_right₀ one_le_two (by omega)) (by positivity)
        _ ≤ y.size := mul_le_mul_of_nonneg_right (by exact_mod_cast normal) (two_zpow_pos _).le
    exact apart.ne same
  have exponent : x.exponent = y.exponent :=
    le_antisymm (not_lt.mp (order same.symm)) (not_lt.mp (order same))
  have significand : x.significand = y.significand := by
    rw [size, size, exponent, mul_left_inj' (two_zpow_pos _).ne', Nat.cast_inj] at same
    exact same
  unfold Binary64.exponent at exponent
  unfold Binary64.significand at significand
  rw [← Fin.val_inj, ← Fin.val_inj]
  split at significand <;> split at significand <;> omega

/-- `q` under a minus sign where there is one. -/
def signed (negative : Bool) (q : ℚ) : ℚ := if negative then -q else q

@[simp] theorem signed_false (q : ℚ) : signed false q = q := rfl

@[simp] theorem signed_true (q : ℚ) : signed true q = -q := rfl

theorem abs_signed (negative : Bool) (nonneg : 0 ≤ v) : |signed negative v| = v := by
  cases negative <;> simp [abs_of_nonneg nonneg]

theorem toRat_eq_signed (x : Binary64) : x.toRat = signed x.negative x.size := rfl

theorem abs_sub_toRat (same : y.negative = negative) :
    |signed negative v - y.toRat| = |v - y.size| := by
  rw [toRat_eq_signed, same]
  cases negative with
  | false => rfl
  | true => rw [signed_true, signed_true, neg_sub_neg, abs_sub_comm]

theorem abs_sub_toRat_of_ne (other : y.negative ≠ negative) (nonneg : 0 ≤ v) :
    |signed negative v - y.toRat| = v + y.size := by
  have sum := add_nonneg nonneg y.size_nonneg
  rw [toRat_eq_signed, Bool.eq_not.mpr other]
  cases negative with
  | false => rw [Bool.not_false, signed_true, signed_false, sub_neg_eq_add, abs_of_nonneg sum]
  | true => rw [Bool.not_true, signed_true, signed_false, ← neg_add', abs_neg, abs_of_nonneg sum]

theorem abs_sub_size_le_abs_sub_toRat (y : Binary64) (nonneg : 0 ≤ v) :
    |v - y.size| ≤ |signed negative v - y.toRat| := by
  by_cases same : y.negative = negative
  · exact (abs_sub_toRat same).ge
  · rw [abs_sub_toRat_of_ne same nonneg]
    have := y.size_nonneg
    exact abs_le.mpr ⟨by linarith, by linarith⟩

/-- `x` is the number that `q` is rounded to: it is the nearest one, of two equally near ones the
one whose last bit is even, and `q` does not lie beyond the numbers. -/
structure Nearest (q : ℚ) (x : Binary64) : Prop where
  fits : |q| < overflow
  near (y : Binary64) : |q - x.toRat| ≤ |q - y.toRat|
  even (y : Binary64) : |q - y.toRat| = |q - x.toRat| → y.toRat ≠ x.toRat → x.fraction.val % 2 = 0

/-- Rounding the size of a number and putting its sign back is rounding the number. -/
theorem Rounded.nearest (rounded : Rounded v place q) (positive : 0 < v) (fits : v < overflow)
    (size : x.size = q * 2 ^ place) (parity : x.fraction.val % 2 = q % 2) :
    Nearest (signed x.negative v) x := by
  have near (y : Binary64) : |v - x.size| ≤ |v - y.size| := size ▸ (rounded.abs_sub_size_le y).1
  refine ⟨(abs_signed _ positive.le).symm ▸ fits, fun y => ?_, fun y tie other => ?_⟩
  · rw [abs_sub_toRat rfl]
    exact (near y).trans (abs_sub_size_le_abs_sub_toRat y positive.le)
  · rw [abs_sub_toRat (y := x) rfl] at tie
    have sizes : |v - y.size| = |v - x.size| :=
      le_antisymm ((abs_sub_size_le_abs_sub_toRat y positive.le).trans tie.le) (near y)
    by_cases same : y.size = x.size
    · -- The two would differ in the sign alone, and then only zero is as near.
      have signs : y.negative ≠ x.negative := fun sign =>
        other (by rw [toRat_eq_signed, toRat_eq_signed, sign, same])
      rw [abs_sub_toRat_of_ne signs positive.le, ← sizes] at tie
      have zero : y.size = 0 := by
        rcases abs_cases (v - y.size) with ⟨side, _⟩ | ⟨side, _⟩ <;> linarith
      exact absurd (by simp [toRat, zero, same ▸ zero]) other
    · rw [parity]
      exact ((rounded.abs_sub_size_le y).2 (size ▸ sizes) (size ▸ same)).1

/-- Among the numbers of one sign there is at most one nearest. -/
theorem Rounded.eq_of_nearest (rounded : Rounded v place q) (size : x.size = q * 2 ^ place)
    (nearest : Nearest (signed x.negative v) y) (sign : y.negative = x.negative) : y = x := by
  have same : y.size = x.size := by
    by_contra apart
    have near := nearest.near x
    rw [abs_sub_toRat sign, abs_sub_toRat rfl] at near
    obtain ⟨least, tie⟩ := rounded.abs_sub_size_le y
    rw [← size] at least tie
    have sizes : |v - y.size| = |v - x.size| := le_antisymm near least
    have odd := (tie sizes apart).2
    have values : x.toRat ≠ y.toRat := by
      rw [toRat_eq_signed, toRat_eq_signed, sign]
      cases x.negative with
      | false => exact Ne.symm apart
      | true => exact fun equal => apart (neg_injective equal).symm
    have even := nearest.even x (by rw [abs_sub_toRat sign, abs_sub_toRat rfl, sizes]) values
    omega
  obtain ⟨scale, fraction⟩ := eq_of_size_eq same
  cases x
  cases y
  simp only [mk.injEq]
  exact ⟨sign, scale, fraction⟩

/-- The fields of the rounded size make the only number of that sign that is nearest. -/
theorem Rounded.nearest_iff_eq (rounded : Rounded v place q) (positive : 0 < v)
    (scale : x.scale.val = ((place + 1074).toNat * 0x10000000000000 + q) / 0x10000000000000)
    (fraction : x.fraction.val =
      ((place + 1074).toNat * 0x10000000000000 + q) % 0x10000000000000) :
    y.negative = x.negative ∧ Nearest (signed x.negative v) y ↔ y = x := by
  obtain ⟨size, parity⟩ := rounded.size_of_fields scale fraction
  have fits : v < overflow := rounded.fits_iff.mp (scale ▸ x.scale.isLt)
  constructor
  · rintro ⟨sign, nearest⟩
    exact rounded.eq_of_nearest size nearest sign
  · rintro rfl
    exact ⟨rfl, rounded.nearest positive fits size parity⟩

/-- Rounding gives the nearest number of its sign, and none for what lies beyond the numbers. -/
theorem nearest?_eq_some_iff (num_pos : 0 < num) (den_pos : 0 < den) :
    nearest? negative num den = some x ↔
      x.negative = negative ∧ Nearest (signed negative (num / den)) x := by
  have rounded := rounded_lastPlace num_pos den_pos
  have positive : (0 : ℚ) < num / den := by positivity
  simp only [nearest?, if_neg num_pos.ne']
  by_cases fits : (num / den : ℚ) < overflow
  · rw [dif_pos (rounded.fits_iff.mpr fits), Option.some.injEq, eq_comm]
    exact (rounded.nearest_iff_eq positive rfl rfl).symm
  · rw [dif_neg (mt rounded.fits_iff.mp fits)]
    refine iff_of_false nofun fun ⟨_, nearest⟩ => fits ?_
    rw [← abs_signed negative positive.le]
    exact nearest.fits

theorem zero_size (negative : Bool) : (zero negative).size = 0 := by
  have significand : (zero negative).significand = 0 := rfl
  rw [size, significand, Nat.cast_zero, zero_mul]

theorem size_eq_zero_iff : x.size = 0 ↔ x = zero x.negative := by
  constructor
  · intro empty
    obtain ⟨scale, fraction⟩ := eq_of_size_eq (empty.trans (zero_size x.negative).symm)
    cases x
    simp only [zero, mk.injEq]
    exact ⟨trivial, scale, fraction⟩
  · intro zero
    rw [zero, zero_size]

theorem least_size (nonzero : x.size ≠ 0) : 2 ^ (-1074 : ℤ) ≤ x.size := by
  rcases x.size_on_grid (-1074) with ⟨k, multiple, -⟩ | ⟨coarse, -⟩
  · have positive : 1 ≤ k := by
      rw [Nat.one_le_iff_ne_zero]
      rintro rfl
      exact nonzero (by rw [multiple, Nat.cast_zero, zero_mul])
    rw [multiple]
    exact le_mul_of_one_le_left (two_zpow_pos _).le (by exact_mod_cast positive)
  · exact absurd rfl coarse

/-- What lies below half of the finest place is rounded to zero. -/
theorem nearest_iff_of_tiny (nonneg : 0 ≤ v) (tiny : v < 2 ^ (-1075 : ℤ)) :
    x.negative = negative ∧ Nearest (signed negative v) x ↔ x = zero negative := by
  have half : (2 : ℚ) ^ (-1074 : ℤ) = 2 ^ (-1075 : ℤ) * 2 := zpow_add_one₀ two_ne_zero (-1075)
  have zero_near : |signed negative v - (zero negative).toRat| = v := by
    rw [abs_sub_toRat (show (zero negative).negative = negative from rfl), zero_size, sub_zero, abs_of_nonneg nonneg]
  constructor
  · rintro ⟨rfl, nearest⟩
    refine size_eq_zero_iff.mp (by_contra fun nonzero => ?_)
    have least := least_size nonzero
    have near := nearest.near (zero x.negative)
    rw [zero_near, abs_sub_toRat rfl] at near
    linarith [(abs_le.mp near).1]
  · rintro rfl
    refine ⟨rfl, ?_, fun y => ?_, fun _ _ _ => rfl⟩
    · rw [abs_signed negative nonneg]
      calc v < 2 ^ (-1075 : ℤ) := tiny
        _ ≤ 2 ^ (970 : ℤ) := zpow_le_zpow_right₀ one_le_two (by decide)
        _ ≤ overflow := le_mul_of_one_le_left (two_zpow_pos _).le (by norm_num)
    · rw [zero_near]
      refine le_trans ?_ (abs_sub_size_le_abs_sub_toRat y nonneg)
      by_cases empty : y.size = 0
      · rw [empty, sub_zero, abs_of_nonneg nonneg]
      · have least := least_size empty
        exact le_abs.mpr (.inr (by linarith))

end TagGrammar.Number.Binary64

namespace TagGrammar.Number.Decimal

open Binary64

variable {d : Decimal} {x : Binary64}

/-- The number that the digits and the exponent make, without the sign. -/
def size (d : Decimal) : ℚ := d.coefficient * 10 ^ d.exponent

theorem size_nonneg (d : Decimal) : 0 ≤ d.size :=
  mul_nonneg (Nat.cast_nonneg _) (zpow_nonneg (by decide) _)

theorem overflow_le_size (nonzero : d.coefficient ≠ 0) (large : 400 < d.exponent) :
    overflow ≤ d.size := by
  calc overflow ≤ 2 ^ 54 * 2 ^ (970 : ℤ) :=
        mul_le_mul_of_nonneg_right (by norm_num) (two_zpow_pos _).le
    _ = 2 ^ (54 + 970 : ℤ) := (zpow_add₀ two_ne_zero _ _).symm
    _ ≤ 2 ^ (3 * 401 : ℤ) := zpow_le_zpow_right₀ one_le_two (by decide)
    _ = (2 ^ (3 : ℤ)) ^ (401 : ℤ) := zpow_mul _ _ _
    _ ≤ 10 ^ (401 : ℤ) := zpow_le_zpow_left₀ (by decide) (by norm_num) (by norm_num)
    _ ≤ 10 ^ d.exponent := zpow_le_zpow_right₀ (by norm_num) (by omega)
    _ ≤ d.size := le_mul_of_one_le_left (zpow_nonneg (by decide) _)
        (by exact_mod_cast Nat.one_le_iff_ne_zero.mpr nonzero)

theorem size_lt_of_small (small : d.exponent + (d.coefficient.log2 / 3 + 1 : ℕ) < -400) :
    d.size < 2 ^ (-1075 : ℤ) := by
  have digits : d.coefficient < 10 ^ (d.coefficient.log2 / 3 + 1) :=
    calc d.coefficient < 2 ^ (d.coefficient.log2 + 1) := Nat.lt_log2_self
      _ ≤ 2 ^ (3 * (d.coefficient.log2 / 3 + 1)) := Nat.pow_le_pow_right (by decide) (by omega)
      _ = (2 ^ 3) ^ (d.coefficient.log2 / 3 + 1) := Nat.pow_mul _ _ _
      _ ≤ 10 ^ (d.coefficient.log2 / 3 + 1) := Nat.pow_le_pow_left (by decide) _
  have digits : (d.coefficient : ℚ) < 10 ^ ((d.coefficient.log2 / 3 + 1 : ℕ) : ℤ) := by
    exact_mod_cast digits
  calc d.size < 10 ^ ((d.coefficient.log2 / 3 + 1 : ℕ) : ℤ) * 10 ^ d.exponent :=
        mul_lt_mul_of_pos_right digits (zpow_pos (by decide) _)
    _ = 10 ^ ((d.coefficient.log2 / 3 + 1 : ℕ) + d.exponent) :=
        (zpow_add₀ (by decide) _ _).symm
    _ ≤ 10 ^ (-401 : ℤ) := zpow_le_zpow_right₀ (by norm_num) (by omega)
    _ ≤ (2 ^ (3 : ℤ)) ^ (-401 : ℤ) := by
        rw [zpow_neg, zpow_neg]
        exact inv_anti₀ (zpow_pos (by norm_num) _)
          (zpow_le_zpow_left₀ (by decide) (by norm_num) (by norm_num))
    _ = 2 ^ (3 * -401 : ℤ) := (zpow_mul _ _ _).symm
    _ ≤ 2 ^ (-1075 : ℤ) := zpow_le_zpow_right₀ one_le_two (by decide)

/-- A decimal number is read as the nearest floating-point number of its sign, if that is finite. -/
theorem toBinary64?_eq_some_iff :
    d.toBinary64? = some x ↔ x.negative = d.negative ∧ Nearest (signed d.negative d.size) x := by
  unfold toBinary64?
  split
  · rename_i empty
    have zero : d.size = 0 := by rw [size, empty, Nat.cast_zero, zero_mul]
    rw [nearest_iff_of_tiny d.size_nonneg (zero ▸ two_zpow_pos _), Option.some.injEq, eq_comm]
  · rename_i nonzero
    have digits : 0 < d.coefficient := Nat.pos_of_ne_zero nonzero
    split
    · rename_i large
      refine iff_of_false nofun fun ⟨_, nearest⟩ => ?_
      have fits := nearest.fits
      rw [abs_signed _ d.size_nonneg] at fits
      exact absurd fits (not_lt.mpr (overflow_le_size nonzero large))
    · split
      · rename_i small
        rw [nearest_iff_of_tiny d.size_nonneg (size_lt_of_small small), Option.some.injEq, eq_comm]
      · split
        · rename_i whole
          have value : ((d.coefficient * Nat.pow 10 d.exponent.toNat : ℕ) : ℚ) / (1 : ℕ) = d.size := by
            conv_rhs => rw [size, ← Int.toNat_of_nonneg whole, zpow_natCast]
            rw [Nat.pow_eq]
            push_cast
            exact div_one _
          have power : 0 < Nat.pow 10 d.exponent.toNat := Nat.pow_pos (by decide)
          rw [nearest?_eq_some_iff (Nat.mul_pos digits power) one_pos, value]
        · rename_i broken
          have value : (d.coefficient : ℚ) / (Nat.pow 10 (-d.exponent).toNat : ℕ) = d.size := by
            have exponent : d.exponent = -((-d.exponent).toNat : ℤ) := by omega
            conv_rhs => rw [size, exponent, zpow_neg, zpow_natCast, ← div_eq_mul_inv]
            rw [Nat.pow_eq]
            push_cast
            rfl
          have power : 0 < Nat.pow 10 (-d.exponent).toNat := Nat.pow_pos (by decide)
          rw [nearest?_eq_some_iff digits power, value]

end TagGrammar.Number.Decimal
