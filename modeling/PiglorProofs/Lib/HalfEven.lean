/-
The integer nearest to a rational, with ties to even. Integer division computes it from its quotient and
remainder.
-/
import Mathlib.Algebra.Order.Round
import Mathlib.Tactic

namespace HalfEven

/-- An integer within one half of `x`, the even one of two. -/
structure Nearest (x : ℚ) (q : ℤ) : Prop where
  half : |x - q| ≤ 1 / 2
  even : |x - q| = 1 / 2 → Even q

theorem Nearest.mono {x y : ℚ} {p q : ℤ} (hx : Nearest x p) (hy : Nearest y q) (hxy : x ≤ y) : p ≤ q := by
  by_contra hlt
  have hstep : (q : ℚ) + 1 ≤ p := by
    have hint : q + 1 ≤ p := by omega
    exact_mod_cast hint
  have hp := abs_le.mp hx.half
  have hq := abs_le.mp hy.half
  -- both are ties, one above the other, and both would be even
  have hxtie : x - p = -(1 / 2) := by linarith
  have hytie : y - q = 1 / 2 := by linarith
  have hadjacent : p = q + 1 := by
    have hcast : (p : ℚ) = q + 1 := by linarith
    exact_mod_cast hcast
  have hpeven : Even p := hx.even (by rw [hxtie, abs_neg]; norm_num)
  have hqeven : Even q := hy.even (by rw [hytie]; norm_num)
  exact Int.not_even_iff_odd.mpr (hadjacent ▸ hqeven.add_one) hpeven

theorem nearest_intCast (q : ℤ) : Nearest q q := ⟨by norm_num, by norm_num⟩

variable {d : ℕ}

/-- Over one denominator the distances are compared as integers. -/
theorem nearest_div {n q : ℤ} (hd : 0 < d) (hhalf : 2 * |n - q * d| ≤ d) (heven : 2 * |n - q * d| = d → Even q) :
    Nearest (n / d) q := by
  have hdq : (0 : ℚ) < d := by exact_mod_cast hd
  have hdistance : |(n : ℚ) / d - q| = (|n - q * d| : ℤ) / d := by
    rw [div_sub' hdq.ne', abs_div, abs_of_pos hdq, mul_comm (d : ℚ)]
    push_cast
    rfl
  rw [← Int.cast_le (R := ℚ)] at hhalf
  push_cast at hhalf
  constructor
  · rw [hdistance, div_le_iff₀ hdq]
    push_cast
    linarith
  · intro htie
    rw [hdistance, div_eq_iff hdq.ne'] at htie
    refine heven ?_
    have hcast : (2 * |n - q * d| : ℤ) = ((d : ℤ) : ℚ) := by
      push_cast at htie ⊢
      linarith
    exact_mod_cast hcast

/-- The quotient, one more when the remainder is over one half or is one half of an odd quotient. -/
def divide (n d : ℕ) : ℕ := n / d + if d < 2 * (n % d) ∨ 2 * (n % d) = d ∧ n / d % 2 = 1 then 1 else 0

theorem nearest_divide (n : ℕ) (hd : 0 < d) : Nearest ((n : ℚ) / d) (divide n d) := by
  have hsplit : (n : ℤ) - (n / d : ℕ) * d = (n % d : ℕ) := by
    have hmod := Nat.div_add_mod' n d
    zify at hmod ⊢
    linarith
  have hlt := Nat.mod_lt n hd
  unfold divide
  rw [← Int.cast_natCast n]
  by_cases hup : d < 2 * (n % d) ∨ 2 * (n % d) = d ∧ n / d % 2 = 1
  · have hdistance : (n : ℤ) - (n / d + 1 : ℕ) * d = (n % d : ℕ) - d := by
      rw [← hsplit]
      push_cast
      ring
    rw [if_pos hup]
    refine nearest_div hd ?_ fun htie => ?_
    · rw [hdistance, abs_of_neg (by omega)]
      omega
    · rw [hdistance, abs_of_neg (by omega)] at htie
      rw [Int.even_coe_nat, Nat.even_iff]
      omega
  · rw [if_neg hup, Nat.add_zero]
    refine nearest_div hd ?_ fun htie => ?_
    · rw [hsplit, abs_of_nonneg (by omega)]
      omega
    · rw [hsplit, abs_of_nonneg (by omega)] at htie
      rw [Int.even_coe_nat, Nat.even_iff]
      omega

theorem divide_eq_zero {n : ℕ} (h : 2 * n < d) : divide n d = 0 := by
  have hlt : n < d := by omega
  rw [divide, Nat.div_eq_of_lt hlt, Nat.mod_eq_of_lt hlt, if_neg (by omega)]

end HalfEven
