import Mathlib.Algebra.Ring.Nat
import TagGrammar.Number.Binary64

namespace TagGrammar.Number.Binary64

variable {n k num den : Nat}

theorem div_le_roundQuotient (num den : Nat) : num / den ≤ roundQuotient num den := by
  simp only [roundQuotient]
  split
  · exact Nat.le_refl _
  · split
    · exact Nat.le_add_right _ _
    · split
      · exact Nat.le_refl _
      · exact Nat.le_add_right _ _

theorem roundQuotient_le (num den : Nat) : roundQuotient num den ≤ num / den + 1 := by
  simp only [roundQuotient]
  split
  · exact Nat.le_add_right _ _
  · split
    · exact Nat.le_refl _
    · split
      · exact Nat.le_add_right _ _
      · exact Nat.le_refl _

/-- An integer of `k + 1` binary places is rounded at the place of the last of its first 53. -/
theorem lastPlace_of_pow_le (wide : 52 ≤ k) (low : 2 ^ k ≤ n) (high : n < 2 ^ (k + 1)) :
    lastPlace n 1 = (k - 52 : Nat) := by
  have positive : n ≠ 0 := by
    have := Nat.two_pow_pos k
    omega
  have log : n.log2 = k := (Nat.log2_eq_iff positive).mpr ⟨low, high⟩
  have unit : Nat.log2 1 = 0 := by decide
  simp [lastPlace, log, unit, low]
  omega

theorem pow_le_truncate {x : Binary64} (positive : x.negative = false) (wide : 52 ≤ k)
    (large : k + 1023 ≤ x.scale.val) : (2 ^ k : Nat) ≤ x.truncate := by
  have exponent : x.exponent = (x.scale.val - 1075 : Nat) := by
    unfold Binary64.exponent
    omega
  have significand : 2 ^ 52 ≤ x.significand := by
    unfold Binary64.significand
    split <;> omega
  have power : 2 ^ (k - 52) ≤ 2 ^ (x.scale.val - 1075) :=
    Nat.pow_le_pow_right (by decide) (by omega)
  have size : 2 ^ k ≤ x.significand * 2 ^ (x.scale.val - 1075) :=
    calc 2 ^ k = 2 ^ 52 * 2 ^ (k - 52) := by rw [← Nat.pow_add]; congr 1; omega
      _ ≤ x.significand * 2 ^ (x.scale.val - 1075) := Nat.mul_le_mul significand power
  have nonnegative : 0 ≤ x.exponent := exponent ▸ Int.natCast_nonneg _
  rw [truncate, positive, if_pos nonnegative, exponent, Int.toNat_natCast]
  exact Int.ofNat_le.mpr size

/-- Rounding an integer to a floating-point number never takes it below a power of two. -/
theorem exists_nearest?_of_pow_le (wide : 52 ≤ k) (fits : k < 1023) (low : 2 ^ k ≤ n)
    (high : n < 2 ^ (k + 1)) :
    ∃ x, nearest? false n 1 = some x ∧ (2 ^ k : Nat) ≤ x.truncate := by
  have positive : n ≠ 0 := by
    have := Nat.two_pow_pos k
    omega
  have unit : 0 < 2 ^ (k - 52) := Nat.two_pow_pos _
  have below : 2 ^ 52 ≤ n / 2 ^ (k - 52) := by
    rw [Nat.le_div_iff_mul_le unit, ← Nat.pow_add]
    exact Nat.le_trans (Nat.pow_le_pow_right (by decide) (by omega)) low
  have above : n / 2 ^ (k - 52) < 2 ^ 53 := by
    rw [Nat.div_lt_iff_lt_mul unit, ← Nat.pow_add]
    exact Nat.lt_of_lt_of_le high (Nat.pow_le_pow_right (by decide) (by omega))
  have least := div_le_roundQuotient n (2 ^ (k - 52))
  have most := roundQuotient_le n (2 ^ (k - 52))
  have fields : (lastPlace n 1 + 1074).toNat * 0x10000000000000 +
      (if 0 ≤ lastPlace n 1 then roundQuotient n (1 * Nat.pow 2 (lastPlace n 1).toNat)
        else roundQuotient (n * Nat.pow 2 (-lastPlace n 1).toNat) 1) =
      (k + 1022) * 0x10000000000000 + roundQuotient n (2 ^ (k - 52)) := by
    rw [lastPlace_of_pow_le wide low high, if_pos (Int.natCast_nonneg _), Int.toNat_natCast,
      Nat.one_mul]
    congr 2
    omega
  have scale : ((k + 1022) * 0x10000000000000 + roundQuotient n (2 ^ (k - 52))) / 0x10000000000000 <
      2047 := by omega
  simp only [nearest?, if_neg positive]
  rw [← fields] at scale
  rw [dif_pos scale]
  refine ⟨_, rfl, pow_le_truncate rfl wide ?_⟩
  change k + 1023 ≤ _ / 0x10000000000000
  rw [fields]
  omega

end TagGrammar.Number.Binary64
