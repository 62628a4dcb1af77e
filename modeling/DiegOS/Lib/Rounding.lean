import Mathlib.Algebra.Order.Ring.Nat
import Mathlib.Tactic.Common

/-!
# Rounding

Quotients of natural numbers that are rounded to the nearest number, halves up.

Main results:

- Theorem `roundHalfUp_eq_iff`: which number a quotient is rounded to.
- Theorem `roundHalfUp_mul_add`: whole parts stay as they are.
- Theorem `roundHalfUp_mono`: a greater number has no lesser quotient.
-/

namespace DiegOS.Lib

/-- The number nearest to `n / d`; a half is rounded up. -/
def roundHalfUp (n d : Nat) : Nat := (2 * n + d) / (2 * d)

variable {n m d k : Nat}

/-- The number that is nearest. -/
theorem roundHalfUp_eq_iff (hd : 0 < d) :
    roundHalfUp n d = k ↔ 2 * (d * k) ≤ 2 * n + d ∧ 2 * n + d < 2 * (d * k) + 2 * d := by
  have hpos : 0 < 2 * d := Nat.mul_pos (by omega) hd
  unfold roundHalfUp
  constructor
  · intro hk
    have hlow := Nat.div_mul_le_self (2 * n + d) (2 * d)
    have hhigh := Nat.lt_div_mul_add (a := 2 * n + d) hpos
    have hprod : k * (2 * d) = 2 * (d * k) := by
      rw [Nat.mul_comm k, Nat.mul_assoc]
    rw [hk, hprod] at hlow hhigh
    exact ⟨hlow, hhigh⟩
  · rintro ⟨hlow, hhigh⟩
    apply Nat.div_eq_of_lt_le
    · rw [Nat.mul_comm k, Nat.mul_assoc]
      exact hlow
    · rw [Nat.mul_comm (k + 1), Nat.mul_succ, Nat.mul_assoc]
      exact hhigh

/-- Whole parts are not rounded. -/
theorem roundHalfUp_mul_add (hd : 0 < d) (i n : Nat) :
    roundHalfUp (d * i + n) d = i + roundHalfUp n d := by
  unfold roundHalfUp
  have hsplit : 2 * (d * i + n) + d = 2 * n + d + 2 * d * i := by
    rw [Nat.mul_assoc]
    omega
  rw [hsplit, Nat.add_mul_div_left _ _ (by omega), Nat.add_comm]

theorem roundHalfUp_mono (h : n ≤ m) : roundHalfUp n d ≤ roundHalfUp m d :=
  Nat.div_le_div_right (by omega)

end DiegOS.Lib
