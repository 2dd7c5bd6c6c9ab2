import Mathlib.Data.Rat.Floor
import Mathlib.Tactic.Positivity

/-!
# Double precision numbers

Library `Base`. The finite numbers of the format with 53 bits of precision, and arithmetic that is exact whenever
its result is one of them.
-/

namespace Unpv13e.Base

/-- A finite number of double precision. -/
def Representable (x : ℚ) : Prop := ∃ m e : ℤ, |m| < 2 ^ 53 ∧ -1074 ≤ e ∧ e ≤ 971 ∧ x = m * 2 ^ e

/-- The rounding of the results of arithmetic, in any direction. -/
structure Rounding where
  round : ℚ → ℚ
  exact : ∀ x, Representable x → round x = x

/-- A natural number of 53 bits over a power of two. -/
theorem representable_div {n k : ℕ} (hn : n < 2 ^ 53) (hk : k ≤ 1074) : Representable ((n : ℚ) / 2 ^ k) := by
  refine ⟨n, -k, ?_, by omega, by omega, ?_⟩
  · rw [abs_of_nonneg (Int.natCast_nonneg n)]
    exact_mod_cast hn
  · rw [zpow_neg, zpow_natCast, Int.cast_natCast, div_eq_mul_inv]

theorem representable_natCast {n : ℕ} (hn : n < 2 ^ 53) : Representable n := by
  have h := representable_div (k := 0) hn (Nat.zero_le _)
  rwa [pow_zero, div_one] at h

end Unpv13e.Base
