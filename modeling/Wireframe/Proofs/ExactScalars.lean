import Mathlib
import Wireframe.Number.Scalar

/-! Scalars over the rationals are exact: their sums, their order and their constants are those of the
rationals. -/

namespace Wireframe

namespace Scalar

theorem sum_eq (xs : List ℚ) : Scalar.sum xs = xs.sum := by
  rw [List.sum_eq_foldl]
  rfl

theorem zero_add_eq (x : ℚ) : Scalar.zero + x = x := zero_add x

end Scalar

namespace OrderedScalar

theorem lt_eq_true_iff {x y : ℚ} : OrderedScalar.lt x y = true ↔ x < y := Iff.rfl

theorem le_eq_true_iff {x y : ℚ} : OrderedScalar.le x y = true ↔ x ≤ y := by
  show (!y.blt x) = true ↔ x ≤ y
  rw [Bool.not_eq_true', ← Bool.not_eq_true, ← not_lt]
  exact Iff.rfl

theorem max_eq (x y : ℚ) : OrderedScalar.max x y = Max.max x y := by
  rw [OrderedScalar.max]
  split
  · next hlt => exact (max_eq_right (lt_eq_true_iff.mp hlt).le).symm
  · next hge => exact (max_eq_left (not_lt.mp fun hlt => hge (lt_eq_true_iff.mpr hlt))).symm

theorem ofDecimal_eq (m k : Nat) : (OrderedScalar.ofDecimal m k : ℚ) = m / 10 ^ k := by
  show mkRat m (Nat.pow 10 k) = m / 10 ^ k
  rw [Rat.mkRat_eq_div, Nat.pow_eq, Nat.cast_pow]
  rfl

theorem zero_lt_ofDecimal {m : Nat} (hm : 0 < m) (k : Nat) : (0 : ℚ) < OrderedScalar.ofDecimal m k := by
  rw [ofDecimal_eq]
  positivity

end OrderedScalar
end Wireframe
