import Mathlib.Algebra.Order.Ring.Nat
import Mathlib.Tactic.Linarith
import Mathlib.Tactic.Ring

/-!
# Long division

Numbers as runs of digits, the most significant first, and the quotient of a number that is one
digit longer than the divisor, estimated from the first digits of both.

Main results:

- Theorem `div_add_digits`: long division takes one digit after the other.
- Theorem `lt_of_too_big`: an estimate that fails the test on the second digit is too large.
- Theorem `le_of_passed`: one that passes it is too large by one at most.
- Theorems `digit_exact` and `digit_over`: the borrow tells which.
-/

namespace DiegOS.Lib

/-- The number that the digits from a position on write. -/
def digitsFrom (base : Nat) (f : Nat → Nat) (a : Nat) : Nat → Nat
  | 0 => 0
  | n + 1 => digitsFrom base f a n * base + f (a + n)

variable {base : Nat} {f g : Nat → Nat} {a n : Nat}

lemma digitsFrom_congr (h : ∀ i < n, f (a + i) = g (a + i)) :
    digitsFrom base f a n = digitsFrom base g a n := by
  induction n with
  | zero => rfl
  | succ n ih =>
    rw [digitsFrom, digitsFrom, ih fun i hi => h i (by omega), h n (by omega)]

lemma digitsFrom_add (m n : Nat) :
    digitsFrom base f a (m + n) =
      digitsFrom base f a m * base ^ n + digitsFrom base f (a + m) n := by
  induction n with
  | zero => rw [pow_zero, Nat.mul_one]; rfl
  | succ n ih =>
    rw [← Nat.add_assoc, digitsFrom, ih, digitsFrom, Nat.add_assoc a, pow_succ]
    ring

lemma digitsFrom_succ (n : Nat) :
    digitsFrom base f a (n + 1) = f a * base ^ n + digitsFrom base f (a + 1) n := by
  rw [Nat.add_comm, digitsFrom_add, digitsFrom, digitsFrom, Nat.zero_mul, Nat.zero_add,
    Nat.add_zero]

lemma digitsFrom_lt (h : ∀ i < n, f (a + i) < base) : digitsFrom base f a n < base ^ n := by
  induction n with
  | zero => exact Nat.one_pos
  | succ n ih =>
    have hrest := ih fun i hi => h i (by omega)
    have hlast := h n (by omega)
    rw [digitsFrom, pow_succ]
    nlinarith

/-- Leading zeros do not count. -/
lemma digitsFrom_zeros {m : Nat} (h : ∀ i < m, f (a + i) = 0) (n : Nat) :
    digitsFrom base f a (m + n) = digitsFrom base f (a + m) n := by
  have hzero : digitsFrom base f a m = 0 := by
    clear n
    induction m with
    | zero => rfl
    | succ m ih =>
      rw [digitsFrom, ih fun i hi => h i (by omega), h m (by omega), Nat.zero_mul]
  rw [digitsFrom_add, hzero, Nat.zero_mul, Nat.zero_add]

/-! ## One digit of the quotient -/

/-- A digit of the quotient, and what the remainder and the digits behind it give. -/
theorem div_add_digits {w v r : Nat} (hv : 0 < v) (p : Nat) :
    (w * p + r) / v = w / v * p + (w % v * p + r) / v ∧
      (w * p + r) % v = (w % v * p + r) % v := by
  have hsplit : w * p + r = w % v * p + r + v * (w / v * p) := by
    conv_lhs => rw [← Nat.div_add_mod w v]
    ring
  rw [hsplit, Nat.add_mul_div_left _ _ hv, Nat.add_mul_mod_self_left, Nat.add_comm]
  exact ⟨rfl, rfl⟩

/-- A number shifted to the right by some bits of a digit, the last digit apart. -/
lemma shift_digit {w y s h : Nat} (hs : 0 < s) (hh : 0 < h) :
    (w * (s * h) + y) / s = s * h * (w / s) + (w * h % (s * h) + y / s) := by
  have hmoved : w * (s * h) + y = y + s * (w * h) := by ring
  have hsplit := Nat.div_add_mod (w * h) (s * h)
  rw [Nat.mul_div_mul_right _ _ hh] at hsplit
  rw [hmoved, Nat.add_mul_div_left _ _ hs]
  omega

section

variable {u v u₀₁ u₂ v₁ v₂ p ulow vlow qhat rhat : Nat}
  (hu : u = (u₀₁ * base + u₂) * p + ulow) (hv : v = (v₁ * base + v₂) * p + vlow)
  (heq : qhat * v₁ + rhat = u₀₁)
include hu hv heq

/-- An estimate that fails the test on the second digit is too large. -/
theorem lt_of_too_big (hulow : ulow < p) (hbig : rhat * base + u₂ < qhat * v₂) :
    u < qhat * v := by
  have hlow : (u₀₁ * base + u₂ + 1) * p ≤ qhat * (v₁ * base + v₂) * p := by
    refine Nat.mul_le_mul_right p ?_
    nlinarith
  calc u < (u₀₁ * base + u₂ + 1) * p := by rw [hu]; nlinarith
    _ ≤ qhat * (v₁ * base + v₂) * p := hlow
    _ ≤ qhat * v := by
      rw [hv, Nat.mul_assoc]
      exact Nat.mul_le_mul_left _ (Nat.le_add_right _ _)

/-- An estimate that passes the test is too large by one at most. -/
theorem le_of_passed (hvlow : vlow < p) (hv₁ : 0 < v₁) (hqhat : qhat ≤ base)
    (hpassed : qhat * v₂ ≤ rhat * base + u₂) : qhat ≤ u / v + 1 := by
  have hp : 0 < p := Nat.lt_of_le_of_lt (Nat.zero_le _) hvlow
  have hvpos : base * p ≤ v := by
    rw [hv]
    nlinarith
  rcases Nat.eq_zero_or_pos qhat with hzero | hpos
  · rw [hzero]
    exact Nat.zero_le _
  have htop : qhat * (v₁ * base + v₂) ≤ u₀₁ * base + u₂ := by
    nlinarith
  have hlow : qhat * vlow < v :=
    calc qhat * vlow < qhat * p := Nat.mul_lt_mul_of_pos_left hvlow hpos
      _ ≤ base * p := Nat.mul_le_mul_right p hqhat
      _ ≤ v := hvpos
  have hless : qhat * v < u + v :=
    calc qhat * v = qhat * (v₁ * base + v₂) * p + qhat * vlow := by rw [hv]; ring
      _ ≤ (u₀₁ * base + u₂) * p + qhat * vlow :=
        Nat.add_le_add_right (Nat.mul_le_mul_right p htop) _
      _ < u + v := by
        rw [hu]
        omega
  have hpos : 0 < v := by omega
  rw [← Nat.add_div_right u hpos]
  exact (Nat.le_div_iff_mul_le hpos).mpr (Nat.le_of_lt hless)

end

/-! ## What the estimate leaves -/

/-- A number has one first digit and one rest. -/
lemma eq_of_digits {x y r r' p : Nat} (hr : r < p) (hr' : r' < p)
    (h : x * p + r = y * p + r') : x = y ∧ r = r' := by
  have hfirst : ∀ z s, s < p → (z * p + s) / p = z := fun z s hs => by
    rw [Nat.mul_comm, Nat.mul_add_div (by omega), Nat.div_eq_of_lt hs, Nat.add_zero]
  have heq : x = y := by rw [← hfirst x r hr, h, hfirst y r' hr']
  subst heq
  exact ⟨rfl, Nat.add_left_cancel h⟩

section

variable {u v x low p qhat w b : Nat} (hu : u = x * p + low)
  (hw : w + qhat * v = low + b * p) (hwp : w < p) (hvp : v ≤ p) (hv : 0 < v)
  (hge : u / v ≤ qhat) (hle : qhat ≤ u / v + 1)
include hu hw hwp hvp hv hge hle

/-- Without a borrow the estimate is the digit. -/
theorem digit_exact (hb : b ≤ x) : qhat = u / v ∧ w = u % v ∧ x = b := by
  have hquot := Nat.div_add_mod u v
  have hmod := Nat.mod_lt u hv
  have hbp := Nat.mul_le_mul_right p hb
  rw [Nat.mul_comm] at hquot
  rcases Nat.lt_or_ge (u / v) qhat with hlarge | hexact
  · have heq : qhat = u / v + 1 := by omega
    rw [heq, Nat.succ_mul] at hw
    omega
  · have heq : qhat = u / v := by omega
    rw [heq] at hw
    obtain ⟨hx, hrest⟩ := eq_of_digits (x := x) (y := b) hwp (show u % v < p by omega) (by omega)
    exact ⟨heq, hrest, hx⟩

/-- With a borrow the estimate is too large, and the divisor has to be added back. -/
theorem digit_over (hb : x < b) : qhat = u / v + 1 ∧ b = x + 1 ∧ w + v = u % v + p := by
  have hquot := Nat.div_add_mod u v
  have hmod := Nat.mod_lt u hv
  rw [Nat.mul_comm] at hquot
  rcases Nat.lt_or_ge (u / v) qhat with hlarge | hexact
  · have heq : qhat = u / v + 1 := by omega
    rw [heq, Nat.succ_mul] at hw
    obtain ⟨e, rfl⟩ : ∃ e, b = x + 1 + e := ⟨b - (x + 1), by omega⟩
    rw [Nat.add_mul, Nat.succ_mul] at hw
    have hzero : e = 0 := by
      by_contra hpos
      have hep := Nat.mul_le_mul_right p (Nat.one_le_iff_ne_zero.mpr hpos)
      omega
    subst hzero
    exact ⟨heq, rfl, by omega⟩
  · have heq : qhat = u / v := by omega
    rw [heq] at hw
    obtain ⟨hx, -⟩ := eq_of_digits (x := x) (y := b) hwp (show u % v < p by omega) (by omega)
    omega

end

end DiegOS.Lib
