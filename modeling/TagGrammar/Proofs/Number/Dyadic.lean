import Mathlib.Algebra.Order.Floor.Semifield
import Mathlib.Data.Rat.Floor
import TagGrammar.Json.Basic

namespace TagGrammar

namespace Number

/-- The integer nearest to `q` among those that do not lie farther from zero. -/
def towardZero (q : ℚ) : ℤ := if 0 ≤ q then ⌊q⌋ else ⌈q⌉

theorem towardZero_intCast (n : ℤ) : towardZero n = n := by
  rw [towardZero, Int.floor_intCast, Int.ceil_intCast, ite_self]

theorem towardZero_neg {q : ℚ} (nonnegative : 0 ≤ q) : towardZero (-q) = -⌊q⌋ := by
  unfold towardZero
  split
  · rename_i above
    have zero : q = 0 := le_antisymm (neg_nonneg.mp above) nonnegative
    simp [zero]
  · exact Int.ceil_neg

namespace Binary64

variable {x y : Binary64}

/-- The number without its sign. -/
def size (x : Binary64) : ℚ := x.significand * 2 ^ x.exponent

/-- The number that the three fields stand for. -/
def toRat (x : Binary64) : ℚ := if x.negative then -x.size else x.size

theorem size_nonneg (x : Binary64) : 0 ≤ x.size :=
  mul_nonneg (Nat.cast_nonneg _) (zpow_nonneg (by decide) _)

theorem size_of_nonneg_exponent (whole : 0 ≤ x.exponent) :
    x.size = (x.significand * 2 ^ x.exponent.toNat : ℕ) := by
  conv_lhs => rw [size, ← Int.toNat_of_nonneg whole, zpow_natCast]
  push_cast
  rfl

theorem size_of_neg_exponent (broken : x.exponent < 0) :
    x.size = x.significand / (2 ^ (-x.exponent).toNat : ℕ) := by
  have exponent : x.exponent = -((-x.exponent).toNat : ℤ) := by omega
  conv_lhs => rw [size, exponent, zpow_neg, zpow_natCast, ← div_eq_mul_inv]
  push_cast
  rfl

theorem floor_size (x : Binary64) :
    ⌊x.size⌋ = (if 0 ≤ x.exponent then x.significand * Nat.pow 2 x.exponent.toNat
      else x.significand / Nat.pow 2 (-x.exponent).toNat : ℕ) := by
  rw [← Int.natCast_floor_eq_floor x.size_nonneg, Nat.cast_inj]
  split
  · rename_i whole
    rw [size_of_nonneg_exponent whole, Nat.floor_natCast]
    rfl
  · rename_i broken
    rw [size_of_neg_exponent (not_le.mp broken), Nat.floor_div_eq_div]
    rfl

theorem truncate_eq_floor (x : Binary64) :
    x.truncate = if x.negative then -⌊x.size⌋ else ⌊x.size⌋ := by
  rw [floor_size]
  rfl

/-- What `truncate` computes from the fields is the number without its places behind the point. -/
theorem truncate_eq (x : Binary64) : x.truncate = towardZero x.toRat := by
  rw [truncate_eq_floor, toRat]
  cases x.negative with
  | false => exact (if_pos x.size_nonneg).symm
  | true => exact (towardZero_neg x.size_nonneg).symm

theorem significand_lt (x : Binary64) : x.significand < 2 ^ 53 := by
  unfold significand
  split <;> omega

theorem floor_size_of_small (small : x.scale.val < 1023) : ⌊x.size⌋ = 0 := by
  have exponent : x.exponent ≤ -53 := by
    unfold exponent
    omega
  have power : 2 ^ 53 ≤ 2 ^ (-x.exponent).toNat := Nat.pow_le_pow_right (by decide) (by omega)
  have nothing : x.significand / 2 ^ (-x.exponent).toNat = 0 :=
    Nat.div_eq_of_lt (lt_of_lt_of_le x.significand_lt power)
  rw [floor_size, if_neg (by omega)]
  exact congrArg Nat.cast nothing

theorem negative_wholePart (x : Binary64) : x.wholePart.negative = x.negative := by
  unfold wholePart
  split <;> rfl

theorem scale_wholePart (large : 1023 ≤ x.scale.val) : x.wholePart.scale = x.scale := by
  unfold wholePart
  rw [if_neg (not_lt.mpr large)]

theorem clear_two_pow_add {n k : ℕ} (below : k ≤ n) (f : ℕ) :
    (2 ^ n + f) / 2 ^ k * 2 ^ k = 2 ^ n + f / 2 ^ k * 2 ^ k := by
  have leading : 2 ^ n = 2 ^ (n - k) * 2 ^ k := by rw [← Nat.pow_add, Nat.sub_add_cancel below]
  rw [leading, Nat.add_comm, Nat.add_mul_div_right _ _ (Nat.two_pow_pos _), Nat.add_mul,
    Nat.add_comm]

/-- The leading bit stands before the point, so that it is enough to clear places of the fraction. -/
theorem significand_wholePart (large : 1023 ≤ x.scale.val) :
    x.wholePart.significand =
      x.significand / 2 ^ (1075 - x.scale.val) * 2 ^ (1075 - x.scale.val) := by
  have normal : x.scale.val ≠ 0 := by omega
  have fraction : x.wholePart.fraction.val =
      x.fraction.val / 2 ^ (1075 - x.scale.val) * 2 ^ (1075 - x.scale.val) := by
    unfold wholePart
    rw [if_neg (not_lt.mpr large)]
    rfl
  rw [significand, significand, scale_wholePart large, if_neg normal, if_neg normal, fraction]
  exact (clear_two_pow_add (n := 52) (by omega) _).symm

theorem size_wholePart (x : Binary64) : x.wholePart.size = ⌊x.size⌋ := by
  rcases lt_or_ge x.scale.val 1023 with small | large
  · rw [floor_size_of_small small, wholePart, if_pos small]
    simp [size, significand, zero]
  · have exponent : x.wholePart.exponent = x.exponent := by
      rw [Binary64.exponent, scale_wholePart large, Binary64.exponent]
    rcases lt_or_ge x.exponent 0 with broken | whole
    · have places : (-x.exponent).toNat = 1075 - x.scale.val := by
        unfold Binary64.exponent
        omega
      rw [size_of_neg_exponent (by rwa [exponent]), floor_size, if_neg (not_le.mpr broken),
        exponent, places, significand_wholePart large]
      push_cast
      exact mul_div_cancel_right₀ _ (by positivity)
    · have places : 1075 - x.scale.val = 0 := by
        unfold Binary64.exponent at whole
        omega
      rw [size_of_nonneg_exponent (by rwa [exponent]), floor_size, if_pos whole, exponent,
        significand_wholePart large, places, pow_zero, Nat.div_one, Nat.mul_one]
      rfl

/-- Cutting off at the point is exact: it leaves the integer that `truncate` gives. -/
theorem toRat_wholePart (x : Binary64) : x.wholePart.toRat = x.truncate := by
  rw [toRat, negative_wholePart, size_wholePart, truncate_eq_floor]
  split <;> push_cast <;> rfl

theorem truncate_wholePart (x : Binary64) : x.wholePart.truncate = x.truncate := by
  rw [truncate_eq, toRat_wholePart, towardZero_intCast]

theorem toRat_eq_units (x : Binary64) : x.toRat = x.units * 2 ^ (-1074 : ℤ) := by
  have exponent : x.exponent = (max 1 x.scale.val - 1 : ℕ) + (-1074) := by
    unfold Binary64.exponent
    omega
  have size : x.size = (x.significand * 2 ^ (max 1 x.scale.val - 1) : ℕ) * 2 ^ (-1074 : ℤ) := by
    rw [Binary64.size, exponent, zpow_add₀ (by decide), zpow_natCast, ← mul_assoc, Nat.cast_mul,
      Nat.cast_pow, Nat.cast_ofNat]
  rw [toRat, size, units]
  split
  · rw [Int.cast_neg, neg_mul]
    rfl
  · rfl

theorem unit_pos : (0 : ℚ) < 2 ^ (-1074 : ℤ) := zpow_pos (by decide) _

theorem le_iff_toRat_le : x ≤ y ↔ x.toRat ≤ y.toRat := by
  rw [toRat_eq_units, toRat_eq_units, mul_le_mul_iff_left₀ unit_pos, Int.cast_le]
  rfl

theorem lt_iff_toRat_lt : x < y ↔ x.toRat < y.toRat := by
  rw [toRat_eq_units, toRat_eq_units, mul_lt_mul_iff_left₀ unit_pos, Int.cast_lt]
  rfl

theorem ofInt?_least : ofInt? (-0x8000000000000000) = some ⟨true, 1086, 0⟩ := by
  decide +kernel

/-- The greatest signed integer has 63 places, and is rounded up to the power of two behind it. -/
theorem ofInt?_greatest : ofInt? 0x7FFFFFFFFFFFFFFF = some ⟨false, 1086, 0⟩ := by
  decide +kernel

theorem toRat_power_63 (negative : Bool) :
    toRat ⟨negative, 1086, 0⟩ = if negative then -0x8000000000000000 else 0x8000000000000000 := by
  have significand : significand ⟨negative, 1086, 0⟩ = 0x10000000000000 := rfl
  have exponent : exponent ⟨negative, 1086, 0⟩ = 11 := by cases negative <;> decide
  have size : Binary64.size ⟨negative, 1086, 0⟩ = 0x8000000000000000 := by
    rw [Binary64.size, significand, exponent]
    norm_num
  rw [toRat, size]

end Binary64

end Number

namespace JsonInt

open Number.Binary64

/-- The comparison with the two ends lets in what fits, so that the conversion never saturates. -/
theorem ofFloat?_eq (x : Number.Binary64) : ofFloat? x = ofSigned? x.truncate := by
  have low : (⟨true, 1086, 0⟩ : Number.Binary64) ≤ x.wholePart ↔ -0x8000000000000000 ≤ x.truncate := by
    rw [le_iff_toRat_le, toRat_wholePart, toRat_power_63, if_pos rfl]
    norm_cast
  have high : x.wholePart < (⟨false, 1086, 0⟩ : Number.Binary64) ↔ x.truncate < 0x8000000000000000 := by
    rw [lt_iff_toRat_lt, toRat_wholePart, toRat_power_63, if_neg (by decide)]
    norm_cast
  rw [ofFloat?, ofInt?_least, ofInt?_greatest]
  simp only [Option.bind_eq_bind, Option.bind_some, low, high]
  unfold ofSigned?
  split
  · rename_i fits
    simp only [saturated, truncate_wholePart, Option.some.injEq, JsonInt.mk.injEq]
    omega
  · rfl

end JsonInt

end TagGrammar
