import Mathlib.Algebra.Order.Ring.Nat
import Mathlib.Algebra.Group.Nat.Defs
import Mathlib.Tactic.Common

/-!
# Words

The unsigned numbers of the machine and the roundings of `types_common.h`.  A word has
32 bits; sums are taken modulo its size as the code takes them.

Main results:

- Theorem `mult_eq`: what `MULT` is without an overflow.
-/

namespace DiegOS.Support

/-- Return codes. -/
inductive Status where
  | EOK | EINVAL | ENOMEM | EGENERIC | EPERM | ENOBUFS | EAGAIN
deriving DecidableEq, Repr

/-- The size of an address or an `unsigned`. -/
def WORD : Nat := 2 ^ 32

/-- `sizeof(long)` and `sizeof(void *)`. -/
def LONG : Nat := 4

/-- `MULT`: round up to a multiple of `y`. -/
def mult (x y : Nat) : Nat := (x + y - 1) % WORD / y * y

/-- `ALN`: round up by clearing the low bits; `y` is a power of 2. -/
def aln (x y : Nat) : Nat := (x + y - 1) % WORD - (x + y - 1) % WORD % y

/-- A difference of unsigned numbers. -/
def sub (x y : Nat) : Nat := (x + WORD - y) % WORD

/-- The size of a cache line. -/
def CACHE_ALN : Nat := 64

def alnc (x : Nat) : Nat := aln x CACHE_ALN

variable {x y : Nat}

lemma sub_eq (h : y ≤ x) (hx : x < WORD) : sub x y = x - y := by
  rw [sub, Nat.add_comm, Nat.add_sub_assoc h, Nat.add_mod_left, Nat.mod_eq_of_lt (by omega)]

lemma aln_eq (x y : Nat) : aln x y = mult x y := by
  have hdiv := Nat.div_add_mod ((x + y - 1) % WORD) y
  rw [aln, mult, Nat.mul_comm]
  omega

lemma dvd_mult (x y : Nat) : y ∣ mult x y := Nat.dvd_mul_left y _

theorem mult_eq (h : x + y - 1 < WORD) : mult x y = (x + y - 1) / y * y := by
  rw [mult, Nat.mod_eq_of_lt h]

lemma le_mult (hy : 0 < y) (h : x + y - 1 < WORD) : x ≤ mult x y := by
  rw [mult_eq h]
  have hlt := Nat.lt_div_mul_add (a := x + y - 1) hy
  omega

lemma mult_lt (hy : 0 < y) (h : x + y - 1 < WORD) : mult x y < x + y := by
  rw [mult_eq h]
  have hle := Nat.div_mul_le_self (x + y - 1) y
  omega

lemma alnc_mod (x : Nat) : CACHE_ALN ∣ alnc x := by
  rw [alnc, aln_eq]
  exact dvd_mult x CACHE_ALN

/-- What `ALNC` is without an overflow. -/
lemma alnc_eq (h : x + 63 < WORD) : alnc x = (x + 63) / 64 * 64 := by
  rw [alnc, aln_eq]
  exact mult_eq h

lemma mult_lt_word (x y : Nat) : mult x y < WORD :=
  (Nat.div_mul_le_self _ y).trans_lt (Nat.mod_lt _ (by decide))

/-- A rounding that overflows gives 0. -/
lemma le_mult_of_pos (hy : 0 < y) (hword : y < WORD) (hx : x < WORD) (hpos : 0 < mult x y) :
    x ≤ mult x y := by
  by_cases hover : x + y - 1 < WORD
  · exact le_mult hy hover
  · have hmod : (x + y - 1) % WORD = x + y - 1 - WORD := by
      rw [Nat.mod_eq_sub_mod (by omega), Nat.mod_eq_of_lt (by omega)]
    have hzero : mult x y = 0 := by
      rw [mult, hmod, Nat.div_eq_of_lt (by omega), Nat.zero_mul]
    omega

/-- A number that is rounded twice. -/
lemma le_mult_mult (hy : 0 < y) (hword : y < WORD) (hx : x < WORD)
    (hpos : 0 < mult (mult x y) y) : x ≤ mult (mult x y) y := by
  have hfirst : 0 < mult x y := by
    apply Nat.pos_of_ne_zero
    intro hzero
    rw [hzero, mult_eq (by omega), Nat.div_eq_of_lt (by omega)] at hpos
    omega
  have hle := le_mult_of_pos hy hword hx hfirst
  exact hle.trans (le_mult_of_pos hy hword (mult_lt_word x y) hpos)

end DiegOS.Support
