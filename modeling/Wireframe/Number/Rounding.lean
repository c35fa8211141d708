/-! Rounding a quotient of naturals to the nearest natural. -/

namespace Wireframe

/-- The natural nearest to `n / d`, a tie to the even one. -/
def roundDiv (n d : Nat) : Nat :=
  let q := n / d
  let r := n % d
  if 2 * r < d then q
  else if 2 * r = d then q + q % 2
  else q + 1

/-- Rounding moves the quotient by at most a half. -/
theorem roundDiv_near {n d : Nat} (hd : 0 < d) :
    2 * n ≤ 2 * (roundDiv n d * d) + d ∧ 2 * (roundDiv n d * d) ≤ 2 * n + d := by
  have h := Nat.div_add_mod n d
  have hr := Nat.mod_lt n hd
  have hm : n / d * d = d * (n / d) := Nat.mul_comm _ _
  simp only [roundDiv]
  split
  · omega
  · split
    · rcases Nat.mod_two_eq_zero_or_one (n / d) with h2 | h2 <;> rw [h2] <;>
        simp only [Nat.add_mul, Nat.one_mul, Nat.add_zero] <;> omega
    · simp only [Nat.add_mul, Nat.one_mul]
      omega

end Wireframe
