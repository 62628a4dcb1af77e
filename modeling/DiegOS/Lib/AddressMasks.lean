import Mathlib.Algebra.Group.Nat.Defs
import Mathlib.Algebra.Order.Ring.Nat
import Mathlib.Tactic.Common

/-!
# Address masks

A base and a mask select the numbers that agree with the base on the bits of the mask.
The mask of a size has the bits that are clear in the greatest offset.

Main results:

- Theorem `selects_iff`: the bits on which a selected number agrees with the base.
- Theorem `exists_two_pow_of_bits`: a number without a gap in its bits is one below a
  power of two.
- Theorem `selects_range_iff`: when the selected numbers are the range of the size.
-/

namespace DiegOS.Lib

/-- The number is selected by the base and the mask. -/
def Selects (base mask a : Nat) : Prop := a &&& mask = base &&& mask

/-- The mask of a size, for numbers of `w` bits. -/
def sizeMask (w size : Nat) : Nat := 2 ^ w - size

variable {w base m a b k : Nat}

lemma testBit_sizeMask (hm : m < 2 ^ w) (i : Nat) :
    (sizeMask w (m + 1)).testBit i = (decide (i < w) && !m.testBit i) :=
  Nat.testBit_two_pow_sub_succ hm i

/-- A number is selected if it agrees with the base on the bits that are clear in the greatest
offset. -/
theorem selects_iff (hm : m < 2 ^ w) :
    Selects base (sizeMask w (m + 1)) a ↔
      ∀ i < w, m.testBit i = false → a.testBit i = base.testBit i := by
  constructor
  · intro h i hi hclear
    have hbit := congrArg (fun x => x.testBit i) h
    simpa [Nat.testBit_and, testBit_sizeMask hm, hi, hclear] using hbit
  · intro h
    apply Nat.eq_of_testBit_eq
    intro i
    rw [Nat.testBit_and, Nat.testBit_and, testBit_sizeMask hm]
    by_cases hi : i < w
    · cases hclear : m.testBit i with
      | false => rw [h i hi hclear]
      | true => simp
    · simp [hi]

/-- The greatest offset of a power of two leaves the quotient to be compared. -/
lemma selects_two_pow_iff (hk : k ≤ w) (ha : a < 2 ^ w) (hbase : base < 2 ^ w) :
    Selects base (sizeMask w (2 ^ k)) a ↔ a / 2 ^ k = base / 2 ^ k := by
  have hpos := Nat.two_pow_pos k
  have hpred : 2 ^ k - 1 + 1 = 2 ^ k := Nat.sub_add_cancel hpos
  have hlt : 2 ^ k - 1 < 2 ^ w := by
    have hle := Nat.pow_le_pow_right (n := 2) (by decide) hk
    omega
  rw [← hpred, selects_iff hlt, hpred]
  simp only [Nat.testBit_two_pow_sub_one, decide_eq_false_iff_not, Nat.not_lt]
  constructor
  · intro h
    apply Nat.eq_of_testBit_eq
    intro i
    rw [Nat.testBit_div_two_pow, Nat.testBit_div_two_pow]
    by_cases hi : i + k < w
    · exact h (i + k) hi (Nat.le_add_left _ _)
    · have hle := Nat.pow_le_pow_right (n := 2) (by decide) (Nat.not_lt.mp hi)
      rw [Nat.testBit_lt_two_pow (ha.trans_le hle), Nat.testBit_lt_two_pow (hbase.trans_le hle)]
  · intro h i _ hle
    have hbit := congrArg (fun x => x.testBit (i - k)) h
    simpa only [Nat.testBit_div_two_pow, Nat.sub_add_cancel hle] using hbit

/-- A number in which every power of two up to it has its bit set is one below a power of
two. -/
theorem exists_two_pow_of_bits (h : ∀ j, 2 ^ j ≤ m → m.testBit j = true) :
    ∃ k, m + 1 = 2 ^ k := by
  by_cases hm : m = 0
  · exact ⟨0, by rw [hm]; rfl⟩
  · refine ⟨m.log2 + 1, ?_⟩
    have hpos := Nat.two_pow_pos (m.log2 + 1)
    have hones : m = 2 ^ (m.log2 + 1) - 1 := by
      apply Nat.eq_of_testBit_eq
      intro i
      rw [Nat.testBit_two_pow_sub_one]
      by_cases hi : i < m.log2 + 1
      · rw [decide_eq_true hi]
        have hle : 2 ^ i ≤ 2 ^ m.log2 := Nat.pow_le_pow_right (by decide) (Nat.le_of_lt_succ hi)
        exact h i (hle.trans (Nat.log2_self_le hm))
      · rw [decide_eq_false hi]
        have hle : 2 ^ (m.log2 + 1) ≤ 2 ^ i :=
          Nat.pow_le_pow_right (by decide) (Nat.not_lt.mp hi)
        exact Nat.testBit_lt_two_pow (Nat.lt_log2_self.trans_le hle)
    omega

/-- Numbers without a common bit have their sum below every power of two that bounds both. -/
lemma add_lt_two_pow_of_and_eq_zero (ha : a < 2 ^ w) (hb : b < 2 ^ w) (h : a &&& b = 0) :
    a + b < 2 ^ w := by
  have hzero : BitVec.ofNat (w + 1) a &&& BitVec.ofNat (w + 1) b = 0#(w + 1) := by
    rw [← BitVec.ofNat_and, h]
  have hsum := congrArg BitVec.toNat (BitVec.add_eq_or_of_and_eq_zero _ _ hzero)
  rw [← BitVec.ofNat_add, ← BitVec.ofNat_or, BitVec.toNat_ofNat, BitVec.toNat_ofNat] at hsum
  have hor := Nat.or_lt_two_pow ha hb
  rw [Nat.mod_eq_of_lt (by omega), Nat.mod_eq_of_lt (by omega)] at hsum
  omega

/-- The base and the mask select the numbers from the base on, as many as the size says. -/
def SelectsRange (w base size : Nat) : Prop :=
  ∀ a < 2 ^ w, Selects base (sizeMask w size) a ↔ base ≤ a ∧ a < base + size

lemma selectsRange_of_dvd (hk : k ≤ w) (hbase : base < 2 ^ w) (hdvd : 2 ^ k ∣ base) :
    SelectsRange w base (2 ^ k) := by
  intro a ha
  obtain ⟨q, rfl⟩ := hdvd
  have hpos := Nat.two_pow_pos k
  rw [selects_two_pow_iff hk ha hbase, Nat.mul_div_cancel_left q hpos, Nat.div_eq_iff hpos,
    Nat.mul_comm q]
  omega

section Converse

variable (h : SelectsRange w base (m + 1)) (hm : m < 2 ^ w) (hbase : base < 2 ^ w)
include h hm hbase

/-- Clearing the bits of the offsets does not lead below the base. -/
lemma and_offset_eq_zero : base &&& m = 0 := by
  have hle : base &&& sizeMask w (m + 1) ≤ base := Nat.and_le_left
  have hsel : Selects base (sizeMask w (m + 1)) (base &&& sizeMask w (m + 1)) := by
    rw [Selects, Nat.and_assoc, Nat.and_self]
  have hge := ((h _ (hle.trans_lt hbase)).mp hsel).1
  have heq : base &&& sizeMask w (m + 1) = base := Nat.le_antisymm hle hge
  apply Nat.eq_of_testBit_eq
  intro i
  have hbit := congrArg (fun x => x.testBit i) heq
  simp only [Nat.testBit_and, testBit_sizeMask hm] at hbit
  rw [Nat.testBit_and, Nat.zero_testBit]
  cases hi : m.testBit i with
  | false => rw [Bool.and_false]
  | true => simpa [hi] using hbit.symm

/-- No offset skips a bit: the base would not agree with its successor there. -/
lemma testBit_offset {j : Nat} (hj : 2 ^ j ≤ m) : m.testBit j = true := by
  by_contra hclear
  rw [Bool.not_eq_true] at hclear
  -- the base with all bits of the offsets is still below the end
  have hzero := and_offset_eq_zero h hm hbase
  have hsum := add_lt_two_pow_of_and_eq_zero hbase hm hzero
  have hpos := Nat.two_pow_pos j
  have hsel := (h (2 ^ j + base) (by omega)).mpr ⟨by omega, by omega⟩
  have hjw : j < w := (Nat.pow_lt_pow_iff_right (by decide)).mp (hj.trans_lt hm)
  have hbit := (selects_iff hm).mp hsel j hjw hclear
  rw [Nat.testBit_two_pow_add_eq] at hbit
  exact Bool.not_ne_self _ hbit

end Converse

/-- The selected numbers are the range of the size exactly if the size is a power of two and
the base a multiple of it. -/
theorem selects_range_iff {size : Nat} (hpos : 0 < size) (hsize : size ≤ 2 ^ w)
    (hbase : base < 2 ^ w) :
    SelectsRange w base size ↔ (∃ k, size = 2 ^ k) ∧ size ∣ base := by
  constructor
  · intro h
    obtain ⟨m, rfl⟩ : ∃ m, size = m + 1 := ⟨size - 1, by omega⟩
    have hm : m < 2 ^ w := hsize
    obtain ⟨k, hk⟩ := exists_two_pow_of_bits fun j hj => testBit_offset h hm hbase hj
    refine ⟨⟨k, hk⟩, ?_⟩
    have hzero := and_offset_eq_zero h hm hbase
    rw [show m = 2 ^ k - 1 by omega, Nat.and_two_pow_sub_one_eq_mod] at hzero
    rw [hk]
    exact Nat.dvd_of_mod_eq_zero hzero
  · intro h
    obtain ⟨⟨k, rfl⟩, hdvd⟩ := h
    exact selectsRange_of_dvd ((Nat.pow_le_pow_iff_right (by decide)).mp hsize) hbase hdvd

end DiegOS.Lib
