import DiegOS.Lib.Rounding

/-!
# Run slices

A slope of `n` steps over `d` places, `n` less than `d`, as runs of places
on one level.  A term that is less than zero keeps account of the fractions, and tells whether
a run has one place more than the quotient.

Main results:

- Theorem `Starts.level`: between the starts of two runs the slope has one level.
- Theorem `Starts.next`: the length of a run and the next term.
- Theorem `Starts.last`: where the last run begins.
-/

namespace DiegOS.Lib

/-- Run `k` starts at a place: it is the first one at which the slope is rounded to
`k`. -/
def Starts (n d k s : Nat) : Prop :=
  2 * (k * d) ≤ 2 * (n * s) + d ∧ 2 * (n * s) + d < 2 * (k * d) + 2 * n

/-- The term at the start of a run: what the slope is ahead of the level; if nothing is left
over it may stay a whole step behind. -/
def Term (n d k s : Nat) (e : Int) : Prop :=
  e = 2 * ((k * d : Nat) : Int) - d - 2 * ((n * s : Nat) : Int) ∨
    (d % n = 0 ∧ 2 * (k * d) = 2 * (n * s) + d ∧ e = -2 * n)

variable {n d k s i : Nat} {e : Int}

/-- The level of the slope at a place. -/
def slope (n d i : Nat) : Nat := roundHalfUp (n * i) d

section

variable (hd : 0 < d)
include hd

lemma slope_eq_iff :
    slope n d i = k ↔ 2 * (k * d) ≤ 2 * (n * i) + d ∧ 2 * (n * i) + d < 2 * (k * d) + 2 * d := by
  rw [slope, roundHalfUp_eq_iff hd, Nat.mul_comm d k]

lemma slope_zero (n : Nat) : slope n d 0 = 0 := by
  rw [slope_eq_iff hd]
  omega

lemma slope_end (n : Nat) : slope n d d = n := by
  rw [slope_eq_iff hd]
  omega

/-- Without steps the slope stays on the level it has. -/
lemma slope_flat (i : Nat) : slope 0 d i = 0 := by
  rw [slope_eq_iff hd]
  omega

/-- A slope with a step for each place. -/
lemma slope_full (i : Nat) : slope d d i = i := by
  rw [slope_eq_iff hd, Nat.mul_comm d i]
  omega

/-- The slope is at most half a step away from the ideal line. -/
lemma slope_near (n i : Nat) :
    2 * (slope n d i * d) ≤ 2 * (n * i) + d ∧ 2 * (n * i) < 2 * (slope n d i * d) + d := by
  have hslope := (slope_eq_iff (i := i) hd).mp (@rfl _ (slope n d i))
  omega

/-- From one place to the next a slope with as many places as steps rises by at most one. -/
lemma slope_succ (hnd : n ≤ d) (i : Nat) :
    slope n d i ≤ slope n d (i + 1) ∧ slope n d (i + 1) ≤ slope n d i + 1 := by
  constructor
  · exact roundHalfUp_mono (Nat.mul_le_mul_left n (Nat.le_succ i))
  · have hnear := slope_near hd n i
    have hnext := slope_near hd n (i + 1)
    rw [Nat.mul_succ] at hnext
    by_contra hlt
    have hle : (slope n d i + 2) * d ≤ slope n d (i + 1) * d := Nat.mul_le_mul_right d (by omega)
    rw [Nat.add_mul] at hle
    omega

end

namespace Starts

/-- From the start of a run to that of the next the slope has the level of the run. -/
theorem level (hd : 0 < d) {s' : Nat} (h : Starts n d k s) (h' : Starts n d (k + 1) s')
    (hi : s ≤ i) (hi' : i < s') : slope n d i = k := by
  have hlow : n * s ≤ n * i := Nat.mul_le_mul_left n hi
  have hhigh : n * i + n ≤ n * s' := by
    rw [← Nat.mul_succ]
    exact Nat.mul_le_mul_left n hi'
  have hlast := h'.2
  rw [Nat.add_mul, Nat.one_mul] at hlast
  rw [slope_eq_iff hd]
  have hfirst := h.1
  omega

/-- Before the start of the first run the slope has level zero. -/
lemma level_zero (hd : 0 < d) (h : Starts n d 1 s) (hi : i < s) :
    slope n d i = 0 := by
  have hhigh : n * i + n ≤ n * s := by
    rw [← Nat.mul_succ]
    exact Nat.mul_le_mul_left n hi
  have hlast := h.2
  rw [Nat.one_mul] at hlast
  rw [slope_eq_iff hd]
  omega

/-- The first run is half as long as the others, one place less if a half is left over. -/
lemma first (hn : 0 < n) :
    Starts n d 1 (if d % n = 0 ∧ d / n % 2 = 0 then d / n / 2 else d / n / 2 + 1) ∧
      Term n d 1 (if d % n = 0 ∧ d / n % 2 = 0 then d / n / 2 else d / n / 2 + 1)
        (if d / n % 2 = 1 then ((d % n : Nat) : Int) - 2 * n + n
          else ((d % n : Nat) : Int) - 2 * n) := by
  have hdiv := Nat.div_add_mod d n
  have hmod := Nat.mod_lt d hn
  have hhalf := Nat.div_add_mod (d / n) 2
  have hprod : n * (d / n) = 2 * (n * (d / n / 2)) + n * (d / n % 2) := by
    conv_lhs => rw [← hhalf]
    rw [Nat.mul_add, Nat.mul_left_comm]
  rcases Nat.mod_two_eq_zero_or_one (d / n) with heven | hodd
  · rw [heven, Nat.mul_zero] at hprod
    by_cases hzero : d % n = 0
    · simp only [Starts, Term, heven, hzero, and_self, true_and, if_true]
      omega
    · simp only [Starts, Term, heven, hzero, false_and, if_false, Nat.mul_add, Nat.mul_one]
      omega
  · rw [hodd, Nat.mul_one] at hprod
    simp only [Starts, Term, hodd, Nat.one_ne_zero, and_false, if_false, if_true, Nat.mul_add,
      Nat.mul_one]
    omega

/-- The next run starts after the quotient, or one place later if the term gets above zero. -/
theorem next (hn : 0 < n) (h : Starts n d k s) (he : Term n d k s e) :
    (0 < e + 2 * (d % n : Nat) →
      Starts n d (k + 1) (s + (d / n + 1)) ∧
        Term n d (k + 1) (s + (d / n + 1)) (e + 2 * (d % n : Nat) - 2 * n)) ∧
    (e + 2 * (d % n : Nat) ≤ 0 →
      Starts n d (k + 1) (s + d / n) ∧
        Term n d (k + 1) (s + d / n) (e + 2 * (d % n : Nat))) := by
  have hdiv := Nat.div_add_mod d n
  have hmod := Nat.mod_lt d hn
  obtain ⟨hlow, hhigh⟩ := h
  simp only [Term, Starts, Nat.mul_add, Nat.add_mul, Nat.one_mul, Nat.mul_one] at he ⊢
  omega

/-- The last run starts where half a run is left, up to the last place. -/
theorem last (hn : 0 < n) (h : Starts n d n s) : s + d / n / 2 = d := by
  have hdiv := Nat.div_add_mod d n
  have hmod := Nat.mod_lt d hn
  have hhalf := Nat.div_add_mod (d / n) 2
  have hparity := Nat.mod_lt (d / n) (show 0 < 2 by decide)
  obtain ⟨hlow, hhigh⟩ := h
  have hprod : n * (d / n) = 2 * (n * (d / n / 2)) + n * (d / n % 2) := by
    conv_lhs => rw [← hhalf]
    rw [Nat.mul_add, Nat.mul_left_comm]
  have hpar : n * (d / n % 2) ≤ n * 1 := Nat.mul_le_mul_left n (Nat.le_of_lt_succ hparity)
  -- the start is less than one place away from where the half begins
  have hless : n * (s + d / n / 2) < n * d + n := by
    rw [Nat.mul_add]
    omega
  have hmore : n * d < n * (s + d / n / 2) + n := by
    rw [Nat.mul_add]
    omega
  have hle : s + d / n / 2 < d + 1 := by
    rw [← Nat.mul_succ] at hless
    exact Nat.lt_of_mul_lt_mul_left hless
  have hge : d < s + d / n / 2 + 1 := by
    rw [← Nat.mul_succ] at hmore
    exact Nat.lt_of_mul_lt_mul_left hmore
  omega

end Starts

end DiegOS.Lib
