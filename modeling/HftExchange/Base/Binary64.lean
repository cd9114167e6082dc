import Mathlib.Algebra.Order.Round
import Mathlib.Data.Int.Log
import Mathlib.Data.Rat.Floor
import Mathlib.Tactic.Linarith
import Mathlib.Tactic.NormNum
import Mathlib.Tactic.Positivity

set_option autoImplicit false

namespace Base

-- Numbers of the binary64 format are rationals, and each operation rounds its
-- exact result. Overflow is left out.
namespace Binary64

-- To the nearest integer, of two to the even one.
def nearest (q : ℚ) : ℤ := if Int.fract q = 1 / 2 ∧ ⌊q⌋ % 2 = 0 then ⌊q⌋ else round q

-- The distance of two neighbours at the magnitude of a number. Below the
-- normal range it stays the same.
def ulp (q : ℚ) : ℚ := 2 ^ max (Int.log 2 |q| - 52) (-1074)

def rounded (q : ℚ) : ℚ := nearest (q / ulp q) * ulp q

def div (x y : ℚ) : ℚ := rounded (x / y)

def sub (x y : ℚ) : ℚ := rounded (x - y)

theorem ulp_pos (q : ℚ) : 0 < ulp q := zpow_pos (by norm_num) _

theorem nearest_error (q : ℚ) : |q - nearest q| ≤ 1 / 2 := by
  unfold nearest
  split
  · rename_i tie
    rw [← Int.fract, tie.1]
    norm_num
  · exact abs_sub_round q

theorem rounded_error (q : ℚ) : |q - rounded q| ≤ ulp q / 2 := by
  have positive := ulp_pos q
  have error := nearest_error (q / ulp q)
  have scaled : q - rounded q = (q / ulp q - nearest (q / ulp q)) * ulp q := by
    rw [rounded, sub_mul, div_mul_cancel₀ q (ne_of_gt positive)]
  rw [scaled, abs_mul, abs_of_pos positive]
  linarith [mul_le_mul_of_nonneg_right error (le_of_lt positive)]

theorem ulp_of_binade (q : ℚ) (e : ℤ) (normal : -1022 ≤ e) (lower : (2 : ℚ) ^ e ≤ q)
    (upper : q < (2 : ℚ) ^ (e + 1)) :
    ulp q = 2 ^ (e - 52) := by
  have positive : 0 < q := lt_of_lt_of_le (zpow_pos (by norm_num) e) lower
  have log : Int.log 2 q = e := by
    have least := (Int.zpow_le_iff_le_log (b := 2) (by norm_num) positive).mp (by exact_mod_cast lower)
    have most := (Int.lt_zpow_iff_log_lt (b := 2) (by norm_num) positive).mp (by exact_mod_cast upper)
    omega
  rw [ulp, abs_of_pos positive, log, max_eq_left (by omega)]

theorem rounded_eq (q : ℚ) (e m : ℤ) (normal : -1022 ≤ e) (lower : (2 : ℚ) ^ e ≤ q)
    (upper : q < (2 : ℚ) ^ (e + 1))
    (near : |q / 2 ^ (e - 52) - m| < 1 / 2) : rounded q = m * 2 ^ (e - 52) := by
  obtain ⟨above, below⟩ := abs_lt.mp near
  have whole : round (q / 2 ^ (e - 52)) = m := round_eq_iff.mpr ⟨by linarith, by linarith⟩
  have alone : Int.fract (q / 2 ^ (e - 52)) ≠ 1 / 2 := by
    intro tie
    have error := abs_sub_round_eq_min (q / (2 : ℚ) ^ (e - 52))
    rw [whole, tie] at error
    rw [error] at near
    norm_num at near
  rw [rounded, ulp_of_binade q e normal lower upper, nearest, if_neg fun both => alone both.1, whole]

theorem small_error (q : ℚ) (small : |q| < 2) : |q - rounded q| ≤ 2 ^ (-53 : ℤ) := by
  have log : Int.log 2 |q| ≤ 0 := by
    rcases eq_or_lt_of_le (abs_nonneg q) with zero | positive
    · rw [← zero, Int.log_zero_right]
    · have less := (Int.lt_zpow_iff_log_lt (b := 2) (x := 1) (by norm_num) positive).mp
        (by norm_num; exact small)
      omega
  have neighbours : ulp q ≤ 2 ^ (-52 : ℤ) := by
    rw [ulp]
    exact zpow_le_zpow_right₀ (by norm_num) (by omega)
  calc |q - rounded q| ≤ ulp q / 2 := rounded_error q
    _ ≤ 2 ^ (-52 : ℤ) / 2 := div_le_div_of_nonneg_right neighbours (by norm_num)
    _ = 2 ^ (-53 : ℤ) := by norm_num

end Binary64

end Base
