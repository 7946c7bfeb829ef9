import Mathlib.Tactic.Linarith
import TagGrammar.Proofs.Number.Dyadic

namespace TagGrammar.Number.Binary64

variable {x : Binary64} {num den q : ℕ} {place : ℤ} {v : ℚ}

theorem roundQuotient_cases (num den : ℕ) :
    (2 * (num % den) < den ∧ roundQuotient num den = num / den) ∨
      (den < 2 * (num % den) ∧ roundQuotient num den = num / den + 1) ∨
      (2 * (num % den) = den ∧ roundQuotient num den % 2 = 0 ∧
        (roundQuotient num den = num / den ∨ roundQuotient num den = num / den + 1)) := by
  simp only [roundQuotient]
  split
  · exact .inl ⟨‹_›, rfl⟩
  · split
    · exact .inr (.inl ⟨‹_›, rfl⟩)
    · refine .inr (.inr ⟨by omega, ?_⟩)
      split <;> omega

/-- A quotient is rounded to an integer at most a half away, and where it is exactly a half to an
even one. -/
theorem abs_sub_roundQuotient (num : ℕ) (positive : 0 < den) :
    |(num / den : ℚ) - roundQuotient num den| ≤ 1 / 2 ∧
      (|(num / den : ℚ) - roundQuotient num den| = 1 / 2 → roundQuotient num den % 2 = 0) := by
  have den_pos : (0 : ℚ) < den := Nat.cast_pos.mpr positive
  have rest_lt : ((num % den : ℕ) : ℚ) / den < 1 :=
    (div_lt_one den_pos).mpr (Nat.cast_lt.mpr (Nat.mod_lt _ positive))
  have split : (num / den : ℚ) = (num / den : ℕ) + (num % den : ℕ) / den := by
    have whole : (num : ℚ) = den * (num / den : ℕ) + (num % den : ℕ) := by
      exact_mod_cast (Nat.div_add_mod num den).symm
    conv_lhs => rw [whole, add_div, mul_div_cancel_left₀ _ den_pos.ne']
  have rest_nonneg : 0 ≤ ((num % den : ℕ) : ℚ) / den := by positivity
  rcases roundQuotient_cases num den with ⟨less, q⟩ | ⟨more, q⟩ | ⟨half, even, q⟩
  · have below : ((num % den : ℕ) : ℚ) / den < 1 / 2 := by
      rw [div_lt_div_iff₀ den_pos two_pos]
      exact_mod_cast (by omega : num % den * 2 < 1 * den)
    rw [q, split, add_sub_cancel_left, abs_of_nonneg rest_nonneg]
    exact ⟨below.le, fun same => absurd same below.ne⟩
  · have above : 1 / 2 < ((num % den : ℕ) : ℚ) / den := by
      rw [div_lt_div_iff₀ two_pos den_pos]
      exact_mod_cast (by omega : 1 * den < num % den * 2)
    rw [q, split, Nat.cast_succ, add_sub_add_left_eq_sub, abs_of_neg (by linarith)]
    exact ⟨by linarith, fun same => by linarith⟩
  · have middle : ((num % den : ℕ) : ℚ) / den = 1 / 2 := by
      rw [div_eq_div_iff den_pos.ne' two_ne_zero]
      exact_mod_cast (by omega : num % den * 2 = 1 * den)
    refine ⟨?_, fun _ => even⟩
    rcases q with q | q
    · rw [q, split, middle, add_sub_cancel_left, abs_of_pos one_half_pos]
    · rw [q, split, middle, Nat.cast_succ, add_sub_add_left_eq_sub]
      norm_num

theorem two_zpow_pos (e : ℤ) : (0 : ℚ) < 2 ^ e := zpow_pos two_pos e

theorem pow_guess_le_iff (positive : 0 < den) (guess : ℤ) :
    (if 0 ≤ guess then den * Nat.pow 2 guess.toNat ≤ num
      else den ≤ num * Nat.pow 2 (-guess).toNat) ↔ (2 : ℚ) ^ guess ≤ num / den := by
  have den_pos : (0 : ℚ) < den := Nat.cast_pos.mpr positive
  rw [le_div_iff₀ den_pos]
  split
  · rename_i whole
    rw [← Int.toNat_of_nonneg whole, zpow_natCast, mul_comm, Int.toNat_natCast]
    exact_mod_cast Iff.rfl
  · rename_i broken
    have exponent : guess = -((-guess).toNat : ℤ) := by omega
    have power : (0 : ℚ) < 2 ^ (-guess).toNat := by positivity
    conv_rhs => rw [exponent, zpow_neg, zpow_natCast, inv_mul_le_iff₀ power, mul_comm]
    exact_mod_cast Iff.rfl

theorem guess_lt (num_pos : 0 < num) (den_pos : 0 < den) :
    (2 : ℚ) ^ ((num.log2 : ℤ) - den.log2 - 1) < num / den ∧
      (num / den : ℚ) < 2 ^ ((num.log2 : ℤ) - den.log2 + 1) := by
  have num_low : (2 : ℚ) ^ (num.log2 : ℤ) ≤ num := by
    exact_mod_cast Nat.log2_self_le num_pos.ne'
  have num_high : (num : ℚ) < 2 ^ (num.log2 + 1 : ℤ) := by
    exact_mod_cast Nat.lt_log2_self (n := num)
  have den_low : (2 : ℚ) ^ (den.log2 : ℤ) ≤ den := by
    exact_mod_cast Nat.log2_self_le den_pos.ne'
  have den_high : (den : ℚ) < 2 ^ (den.log2 + 1 : ℤ) := by
    exact_mod_cast Nat.lt_log2_self (n := den)
  have den_cast : (0 : ℚ) < den := Nat.cast_pos.mpr den_pos
  constructor
  · rw [lt_div_iff₀ den_cast]
    calc (2 : ℚ) ^ ((num.log2 : ℤ) - den.log2 - 1) * den
        < 2 ^ ((num.log2 : ℤ) - den.log2 - 1) * 2 ^ (den.log2 + 1 : ℤ) :=
          mul_lt_mul_of_pos_left den_high (two_zpow_pos _)
      _ = 2 ^ (num.log2 : ℤ) := by rw [← zpow_add₀ two_ne_zero]; congr 1; omega
      _ ≤ num := num_low
  · rw [div_lt_iff₀ den_cast]
    calc (num : ℚ) < 2 ^ (num.log2 + 1 : ℤ) := num_high
      _ = 2 ^ ((num.log2 : ℤ) - den.log2 + 1) * 2 ^ (den.log2 : ℤ) := by
          rw [← zpow_add₀ two_ne_zero]; congr 1; omega
      _ ≤ 2 ^ ((num.log2 : ℤ) - den.log2 + 1) * den :=
          mul_le_mul_of_nonneg_left den_low (two_zpow_pos _).le

theorem lastPlace_eq (den_pos : 0 < den) :
    lastPlace num den =
      max ((if (2 : ℚ) ^ ((num.log2 : ℤ) - den.log2) ≤ num / den then (num.log2 : ℤ) - den.log2
        else (num.log2 : ℤ) - den.log2 - 1) - 52) (-1074) := by
  unfold lastPlace
  simp only [← pow_guess_le_iff den_pos]
  by_cases whole : 0 ≤ (num.log2 : ℤ) - den.log2 <;> simp

/-- The last place is the 53rd from the first bit on, unless that lies behind the finest place. -/
theorem lastPlace_spec (num_pos : 0 < num) (den_pos : 0 < den) :
    -1074 ≤ lastPlace num den ∧ (num / den : ℚ) < 2 ^ (lastPlace num den + 53) ∧
      (lastPlace num den = -1074 ∨ (2 : ℚ) ^ (lastPlace num den + 52) ≤ num / den) := by
  obtain ⟨low, high⟩ := guess_lt num_pos den_pos
  have first : ∃ n : ℤ, lastPlace num den = max (n - 52) (-1074) ∧ (2 : ℚ) ^ n ≤ num / den ∧
      (num / den : ℚ) < 2 ^ (n + 1) := by
    by_cases reached : (2 : ℚ) ^ ((num.log2 : ℤ) - den.log2) ≤ num / den
    · exact ⟨_, by rw [lastPlace_eq den_pos, if_pos reached], reached, high⟩
    · refine ⟨_, by rw [lastPlace_eq den_pos, if_neg reached], low.le, ?_⟩
      rw [sub_add_cancel]
      exact not_le.mp reached
  obtain ⟨n, place, first_le, lt_first⟩ := first
  have power : (2 : ℚ) ^ (n + 1) ≤ 2 ^ (lastPlace num den + 53) :=
    zpow_le_zpow_right₀ one_le_two (by omega)
  refine ⟨by omega, lt_of_lt_of_le lt_first power, ?_⟩
  rcases le_total (n - 52) (-1074) with fine | coarse
  · exact .inl (by omega)
  · have exponent : lastPlace num den + 52 = n := by omega
    exact .inr (by rwa [exponent])

/-- `v` is rounded to `q` units at a place that leaves at most 53 binary places. -/
structure Rounded (v : ℚ) (place : ℤ) (q : ℕ) : Prop where
  least : -1074 ≤ place
  below : v < 2 ^ (place + 53)
  above : place = -1074 ∨ (2 : ℚ) ^ (place + 52) ≤ v
  half : |v / 2 ^ place - q| ≤ 1 / 2
  even : |v / 2 ^ place - q| = 1 / 2 → q % 2 = 0

theorem rounded_lastPlace (num_pos : 0 < num) (den_pos : 0 < den) :
    Rounded (num / den) (lastPlace num den)
      (if 0 ≤ lastPlace num den then
        roundQuotient num (den * Nat.pow 2 (lastPlace num den).toNat)
      else roundQuotient (num * Nat.pow 2 (-lastPlace num den).toNat) den) := by
  obtain ⟨least, below, above⟩ := lastPlace_spec num_pos den_pos
  generalize lastPlace num den = place at least below above ⊢
  split
  · rename_i whole
    have scaled : (num / den : ℚ) / 2 ^ place = num / (den * Nat.pow 2 place.toNat : ℕ) := by
      conv_lhs => rw [← Int.toNat_of_nonneg whole, zpow_natCast, div_div]
      rw [Nat.pow_eq]
      push_cast
      rfl
    obtain ⟨half, even⟩ := abs_sub_roundQuotient num
      (Nat.mul_pos den_pos (Nat.two_pow_pos place.toNat))
    exact ⟨least, below, above, scaled ▸ half, scaled ▸ even⟩
  · rename_i broken
    have scaled : (num / den : ℚ) / 2 ^ place = (num * Nat.pow 2 (-place).toNat : ℕ) / den := by
      have exponent : place = -((-place).toNat : ℤ) := by omega
      conv_lhs => rw [exponent, zpow_neg, zpow_natCast, div_inv_eq_mul, div_mul_eq_mul_div]
      rw [Nat.pow_eq]
      push_cast
      rfl
    obtain ⟨half, even⟩ := abs_sub_roundQuotient (num * Nat.pow 2 (-place).toNat) den_pos
    exact ⟨least, below, above, scaled ▸ half, scaled ▸ even⟩

namespace Rounded

variable (rounded : Rounded v place q)

include rounded

theorem units_lt : v / 2 ^ place < 2 ^ 53 := by
  rw [div_lt_iff₀ (two_zpow_pos place), ← zpow_natCast, ← zpow_add₀ two_ne_zero, add_comm]
  exact rounded.below

theorem le_units (coarse : place ≠ -1074) : 2 ^ 52 ≤ v / 2 ^ place := by
  rw [le_div_iff₀ (two_zpow_pos place), ← zpow_natCast, ← zpow_add₀ two_ne_zero, add_comm]
  exact rounded.above.resolve_left coarse

theorem le_two_pow : q ≤ 2 ^ 53 := by
  have half := (abs_le.mp rounded.half).1
  have below := rounded.units_lt
  have bound : (q : ℚ) < (2 ^ 53 + 1 : ℕ) := by
    push_cast
    linarith
  exact Nat.lt_succ_iff.mp (Nat.cast_lt.mp bound)

theorem two_pow_le (coarse : place ≠ -1074) : 2 ^ 52 ≤ q := by
  have half := (abs_le.mp rounded.half).2
  have above := rounded.le_units coarse
  have bound : ((2 ^ 52 : ℕ) : ℚ) < (q + 1 : ℕ) := by
    push_cast
    linarith
  exact Nat.lt_succ_iff.mp (Nat.cast_lt.mp bound)

/-- No other multiple of the unit is nearer, and one that is as near is odd. -/
theorem abs_sub_le (k : ℕ) :
    |v / 2 ^ place - q| ≤ |v / 2 ^ place - k| ∧
      (|v / 2 ^ place - k| = |v / 2 ^ place - q| → k ≠ q → q % 2 = 0 ∧ k % 2 = 1) := by
  obtain ⟨-, -, -, half, even⟩ := rounded
  generalize v / 2 ^ place = units at half even ⊢
  rcases eq_or_ne k q with rfl | other
  · exact ⟨le_rfl, fun _ same => absurd rfl same⟩
  have far : 1 / 2 ≤ |units - k| := by
    obtain ⟨low, high⟩ := abs_le.mp half
    rcases lt_or_gt_of_ne other with less | more
    · have gap : (k : ℚ) + 1 ≤ q := by exact_mod_cast less
      exact le_abs.mpr (.inl (by linarith))
    · have gap : (q : ℚ) + 1 ≤ k := by exact_mod_cast more
      exact le_abs.mpr (.inr (by linarith))
  refine ⟨half.trans far, fun tie _ => ?_⟩
  have middle : |units - q| = 1 / 2 := le_antisymm half (tie ▸ far)
  have q_even : q % 2 = 0 := even middle
  -- Both lie a half away, on different sides.
  have neighbours : (k : ℚ) = q + 1 ∨ (k : ℚ) + 1 = q := by
    have distinct : (k : ℚ) ≠ q := Nat.cast_injective.ne other
    rcases abs_eq_abs.mp tie with same | opposite
    · exact absurd (by linarith) distinct
    · rcases abs_cases (units - q) with ⟨side, _⟩ | ⟨side, _⟩
      · exact .inl (by linarith)
      · exact .inr (by linarith)
  have neighbours : k = q + 1 ∨ k + 1 = q := by exact_mod_cast neighbours
  omega

/-- What is rounded to `2 ^ 53` units carries into the scale. -/
theorem size_of_fields
    (scale : x.scale.val = ((place + 1074).toNat * 0x10000000000000 + q) / 0x10000000000000)
    (fraction : x.fraction.val =
      ((place + 1074).toNat * 0x10000000000000 + q) % 0x10000000000000) :
    x.size = q * 2 ^ place ∧ x.fraction.val % 2 = q % 2 := by
  have least := rounded.least
  have most := rounded.le_two_pow
  have parity : x.fraction.val % 2 = q % 2 := by omega
  refine ⟨?_, parity⟩
  rcases lt_or_ge q (2 ^ 52) with subnormal | normal
  · have finest : place = -1074 := by
      by_contra coarse
      exact absurd (rounded.two_pow_le coarse) (not_le.mpr subnormal)
    have significand : x.significand = q := by
      rw [Binary64.significand, if_pos (by omega)]
      omega
    have exponent : x.exponent = place := by
      rw [Binary64.exponent]
      omega
    rw [size, significand, exponent]
  · rcases lt_or_eq_of_le most with plain | carry
    · have significand : x.significand = q := by
        rw [Binary64.significand, if_neg (by omega)]
        omega
      have exponent : x.exponent = place := by
        rw [Binary64.exponent]
        omega
      rw [size, significand, exponent]
    · have significand : x.significand = 2 ^ 52 := by
        rw [Binary64.significand, if_neg (by omega)]
        omega
      have exponent : x.exponent = place + 1 := by
        rw [Binary64.exponent]
        omega
      rw [size, significand, exponent, carry, zpow_add_one₀ two_ne_zero]
      push_cast
      ring

end Rounded

theorem exponent_ge (y : Binary64) : -1074 ≤ y.exponent := by
  unfold exponent
  omega

theorem significand_mod_two (y : Binary64) : y.significand % 2 = y.fraction.val % 2 := by
  unfold significand
  split <;> omega

/-- A number is a multiple of the unit of any place, unless it lies below 53 binary places there. -/
theorem size_on_grid (y : Binary64) (place : ℤ) :
    (∃ k : ℕ, y.size = k * 2 ^ place ∧ (k % 2 = 1 → y.fraction.val % 2 = 1)) ∨
      place ≠ -1074 ∧ y.size / 2 ^ place < 2 ^ 52 := by
  rcases le_or_gt place y.exponent with coarse | fine
  · refine .inl ⟨y.significand * 2 ^ (y.exponent - place).toNat, ?_, fun odd => ?_⟩
    · have exponent : y.exponent = (y.exponent - place).toNat + place := by omega
      conv_lhs => rw [size, exponent, zpow_add₀ two_ne_zero, zpow_natCast, ← mul_assoc]
      push_cast
      rfl
    · rw [← significand_mod_two]
      exact Nat.odd_iff.mp (Nat.odd_mul.mp (Nat.odd_iff.mpr odd)).1
  · have least := y.exponent_ge
    refine .inr ⟨by omega, ?_⟩
    rw [div_lt_iff₀ (two_zpow_pos place)]
    calc y.size < 2 ^ 53 * 2 ^ y.exponent :=
          mul_lt_mul_of_pos_right (by exact_mod_cast y.significand_lt) (two_zpow_pos _)
      _ = 2 ^ 52 * 2 ^ (y.exponent + 1) := by rw [zpow_add_one₀ two_ne_zero]; ring
      _ ≤ 2 ^ 52 * 2 ^ place :=
          mul_le_mul_of_nonneg_left (zpow_le_zpow_right₀ one_le_two (by omega)) (by positivity)

namespace Rounded

variable (rounded : Rounded v place q)

include rounded

/-- No number is nearer than the one rounded to; where another one is as near, the two differ in
their last bits, which is even in the one rounded to. -/
theorem abs_sub_size_le (y : Binary64) :
    |v - q * 2 ^ place| ≤ |v - y.size| ∧
      (|v - y.size| = |v - q * 2 ^ place| → y.size ≠ q * 2 ^ place →
        q % 2 = 0 ∧ y.fraction.val % 2 = 1) := by
  have unit := two_zpow_pos place
  have scaled (w : ℚ) : |v - w| = |v / 2 ^ place - w / 2 ^ place| * 2 ^ place := by
    rw [← sub_div, abs_div, abs_of_pos unit, div_mul_cancel₀ _ unit.ne']
  rw [scaled, scaled y.size, mul_div_cancel_right₀ _ unit.ne', mul_le_mul_iff_left₀ unit,
    mul_left_inj' unit.ne']
  rcases y.size_on_grid place with ⟨k, multiple, odd⟩ | ⟨coarse, below⟩
  · rw [multiple, mul_div_cancel_right₀ _ unit.ne', ne_eq, mul_left_inj' unit.ne', Nat.cast_inj]
    obtain ⟨near, tie⟩ := rounded.abs_sub_le k
    refine ⟨near, fun same other => ?_⟩
    obtain ⟨q_even, k_odd⟩ := tie same other
    exact ⟨q_even, odd k_odd⟩
  · have near := (rounded.abs_sub_le (2 ^ 52)).1
    have above := rounded.le_units coarse
    rw [Nat.cast_pow, Nat.cast_ofNat, abs_of_nonneg (sub_nonneg.mpr above)] at near
    have farther : |v / 2 ^ place - q| < |v / 2 ^ place - y.size / 2 ^ place| := by
      rw [abs_of_pos (by linarith : 0 < v / 2 ^ place - y.size / 2 ^ place)]
      linarith
    exact ⟨farther.le, fun same => absurd same farther.ne'⟩

end Rounded

/-- Half way between the greatest number and the power of two behind it. -/
def overflow : ℚ := (2 ^ 54 - 1) * 2 ^ (970 : ℤ)

theorem Rounded.fits_iff (rounded : Rounded v place q) :
    ((place + 1074).toNat * 0x10000000000000 + q) / 0x10000000000000 < 2047 ↔ v < overflow := by
  have least := rounded.least
  have most := rounded.le_two_pow
  rcases lt_trichotomy place 971 with low | middle | high
  · have below : v < overflow :=
      calc v < 2 ^ (place + 53) := rounded.below
        _ ≤ 2 ^ (53 + 970 : ℤ) := zpow_le_zpow_right₀ one_le_two (by omega)
        _ = 2 ^ 53 * 2 ^ (970 : ℤ) := zpow_add₀ two_ne_zero _ _
        _ ≤ overflow := mul_le_mul_of_nonneg_right (by norm_num) (two_zpow_pos _).le
    exact iff_of_true (by omega) below
  · have unit := two_zpow_pos 971
    have bound : overflow = (2 ^ 53 - 1 / 2) * 2 ^ (971 : ℤ) := by
      rw [overflow, show (971 : ℤ) = 970 + 1 from rfl, zpow_add_one₀ two_ne_zero]
      ring
    have even := rounded.even
    obtain ⟨low, high⟩ := abs_le.mp rounded.half
    subst middle
    rw [bound, ← div_lt_iff₀ unit]
    constructor
    · intro fits
      have room : (q : ℚ) + 1 ≤ 2 ^ 53 := by exact_mod_cast (by omega : q + 1 ≤ 2 ^ 53)
      refine lt_of_le_of_ne (by linarith) fun reached => ?_
      -- The last number before the power of two is odd, so a tie goes to the latter.
      have last : q = 2 ^ 53 - 1 := by
        have : (2 ^ 53 : ℚ) ≤ q + 1 := by linarith
        have : 2 ^ 53 ≤ q + 1 := by exact_mod_cast this
        omega
      have tie : |v / 2 ^ (971 : ℤ) - q| = 1 / 2 := by
        rw [reached, last]
        norm_num
      have := even tie
      omega
    · intro below
      by_contra full
      have carry : q = 2 ^ 53 := by omega
      rw [carry, Nat.cast_pow, Nat.cast_ofNat] at low
      linarith
  · have coarse : place ≠ -1074 := by omega
    have least := rounded.two_pow_le coarse
    have above : overflow ≤ v :=
      calc overflow ≤ 2 ^ 54 * 2 ^ (970 : ℤ) :=
            mul_le_mul_of_nonneg_right (by norm_num) (two_zpow_pos _).le
        _ = 2 ^ (54 + 970 : ℤ) := (zpow_add₀ two_ne_zero _ _).symm
        _ ≤ 2 ^ (place + 52) := zpow_le_zpow_right₀ one_le_two (by omega)
        _ ≤ v := rounded.above.resolve_left coarse
    exact iff_of_false (by omega) (not_lt.mpr above)

end TagGrammar.Number.Binary64
