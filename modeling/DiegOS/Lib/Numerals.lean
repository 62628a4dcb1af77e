import Mathlib.Data.Nat.Digits.Lemmas

/-!
# Numerals

The digits of a number in a base, as they are written: the most significant first, and one digit
for zero.

Main results:

- Theorem `numeral_of_le`: the last digit is the remainder.
- Theorem `numeral_head`: only zero starts with a zero.
- Theorem `eq_of_shift`: a list that begins as its own shifted copy repeats what it was
  shifted by.
-/

namespace DiegOS.Lib

/-- The digits of a number, the most significant first. -/
def numeral (base n : Nat) : List Nat :=
  if n = 0 then [0] else (Nat.digits base n).reverse

variable {base n : Nat}

lemma numeral_of_pos (h : 0 < n) : numeral base n = (Nat.digits base n).reverse :=
  if_neg (Nat.ne_of_gt h)

lemma numeral_of_lt (h : n < base) : numeral base n = [n] := by
  unfold numeral
  split_ifs with hzero
  · rw [hzero]
  · rw [Nat.digits_of_lt base n hzero h, List.reverse_singleton]

/-- The last digit is the remainder. -/
theorem numeral_of_le (hbase : 1 < base) (h : base ≤ n) :
    numeral base n = numeral base (n / base) ++ [n % base] := by
  have hpos : 0 < n := by omega
  have hquotient : 0 < n / base := Nat.div_pos h (by omega)
  rw [numeral_of_pos hpos, numeral_of_pos hquotient, Nat.digits_def' hbase hpos,
    List.reverse_cons]

lemma numeral_lt (hbase : 1 < base) {d : Nat} (hd : d ∈ numeral base n) : d < base := by
  unfold numeral at hd
  split_ifs at hd
  · rw [List.mem_singleton.mp hd]
    omega
  · exact Nat.digits_lt_base hbase (List.mem_reverse.mp hd)

lemma numeral_length_pos (base n : Nat) : 0 < (numeral base n).length := by
  unfold numeral
  split_ifs with hzero
  · exact Nat.one_pos
  · rw [List.length_reverse]
    exact List.length_pos_iff.mpr (Nat.digits_ne_nil_iff_ne_zero.mpr hzero)

/-- Only zero starts with a zero. -/
theorem numeral_head (h : (numeral base n).head? = some 0) : n = 0 := by
  by_contra hzero
  rw [numeral, if_neg hzero, List.head?_reverse,
    List.getLast?_eq_some_getLast (Nat.digits_ne_nil_iff_ne_zero.mpr hzero)] at h
  exact Nat.getLast_digit_ne_zero base hzero (Option.some.inj h)

/-- A list that begins as its own shifted copy repeats what it was shifted by. -/
theorem eq_of_shift {α : Type} {z : α} {l r r' : List α} (m : Nat)
    (h : List.replicate (m + 1) z ++ l ++ r = l ++ r') : ∀ c ∈ l, c = z := by
  induction l with
  | nil => simp
  | cons c l ih =>
    rw [List.replicate_succ, List.cons_append, List.cons_append, List.cons_append,
      List.cons.injEq] at h
    rcases h with ⟨rfl, h⟩
    have hall := ih (by
      rw [List.replicate_succ', List.append_assoc _ [z], List.singleton_append]
      exact h)
    intro d hd
    rcases List.mem_cons.mp hd with rfl | hd
    · rfl
    · exact hall d hd

end DiegOS.Lib
