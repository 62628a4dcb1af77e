import DiegOS.Support.Words

/-!
# Bitmaps

`bitmaps.h`: an array of longs whose bits stand for positions.

Main results:

- Theorem `isSet_set`: what setting a bit does.
- Theorem `isSet_clear`: what clearing a bit does.
- Theorem `firstIsClear_spec`: the first position that is clear.
-/

namespace DiegOS.Support

/-- Bits per long. -/
def BINL : Nat := 32

/-- A `long` of 32 bits. -/
abbrev Long := BitVec 32

def BITMAPLEN (x : Nat) : Nat := (x + BINL - 1) % WORD / BINL

def BITMAPBYTES (x : Nat) : Nat := BITMAPLEN x * LONG

namespace Bitmap

/-- `bitmap_set` -/
def set (bitmap : List Long) (bitpos : Nat) : List Long :=
  bitmap.modify (bitpos / BINL) fun x => x ||| 1#32 <<< (bitpos % BINL)

/-- `bitmap_clear` -/
def clear (bitmap : List Long) (bitpos : Nat) : List Long :=
  bitmap.modify (bitpos / BINL) fun x => x &&& ~~~(1#32 <<< (bitpos % BINL))

/-- `bitmap_is_set` -/
def isSet (bitmap : List Long) (bitpos : Nat) : Bool :=
  bitmap.getD (bitpos / BINL) 0 &&& 1#32 <<< (bitpos % BINL) ≠ 0

/-- The inner loop of `bitmap_first_is_clear`; `j` doubles until it is 0. -/
def clearBit (x : Long) : Nat → Long → Nat → Option Nat
  | 0, _, _ => none
  | n + 1, j, k =>
    if j = 0 then none
    else if x &&& j = 0 then some k
    else clearBit x n (j + j) (k + 1)

/-- The outer loop of `bitmap_first_is_clear` with `n` longs left. -/
def firstIsClearFrom (bitmap : List Long) : Nat → Nat → Nat
  | 0, i => i * BINL
  | n + 1, i =>
    if bitmap.getD i 0 = 0 then i * BINL
    else
      match clearBit (bitmap.getD i 0) (BINL + 1) 1 0 with
      | some k => i * BINL + k
      | none => firstIsClearFrom bitmap n (i + 1)

/-- `bitmap_first_is_clear` -/
def firstIsClear (bitmap : List Long) (leninlongs : Nat) : Nat :=
  firstIsClearFrom bitmap leninlongs 0

variable {bitmap : List Long} {p q k n i : Nat} {x : Long}

/-! ## Single bits -/

/-- A mask of one bit selects that bit. -/
lemma and_mask_eq_zero (x : Long) (hk : k < 32) :
    x &&& 1#32 <<< k = 0 ↔ x.getLsbD k = false := by
  rw [← BitVec.twoPow_eq, BitVec.and_twoPow]
  cases hbit : x.getLsbD k with
  | false => simp
  | true =>
    have hpow : BitVec.twoPow 32 k ≠ 0#32 := by
      intro hzero
      have hget := BitVec.getLsbD_twoPow (w := 32) k k
      rw [hzero] at hget
      simp [hk] at hget
    simp [hpow]

lemma isSet_eq (bitmap : List Long) (p : Nat) :
    isSet bitmap p = (bitmap.getD (p / BINL) 0).getLsbD (p % BINL) := by
  have hlt : p % BINL < 32 := Nat.mod_lt _ (by decide)
  have hiff := and_mask_eq_zero (bitmap.getD (p / BINL) 0) hlt
  rw [isSet]
  cases hbit : (bitmap.getD (p / BINL) 0).getLsbD (p % BINL) with
  | false => exact decide_eq_false (not_not.mpr (hiff.mpr hbit))
  | true =>
    apply decide_eq_true
    intro hzero
    rw [hiff.mp hzero] at hbit
    contradiction

/-- Positions are equal when their longs and their bits are. -/
lemma pos_ext (hlong : q / BINL = p / BINL) (hbit : q % BINL = p % BINL) : q = p := by
  rw [← Nat.div_add_mod q BINL, ← Nat.div_add_mod p BINL, hlong, hbit]

@[simp] lemma length_set (bitmap : List Long) (p : Nat) : (set bitmap p).length = bitmap.length :=
  List.length_modify ..

@[simp] lemma length_clear (bitmap : List Long) (p : Nat) :
    (clear bitmap p).length = bitmap.length := List.length_modify ..

lemma getD_modify (bitmap : List Long) (f : Long → Long) (i j : Nat) :
    (bitmap.modify i f).getD j 0 =
      if i = j ∧ j < bitmap.length then f (bitmap.getD j 0) else bitmap.getD j 0 := by
  rw [List.getD_eq_getElem?_getD, List.getD_eq_getElem?_getD, List.getElem?_modify]
  by_cases hlt : j < bitmap.length
  · rw [List.getElem?_eq_getElem hlt]
    by_cases heq : i = j
    · rw [if_pos ⟨heq, hlt⟩, heq]
      simp
    · rw [if_neg fun h => heq h.1]
      simp [heq]
  · rw [if_neg fun h => hlt h.2, List.getElem?_eq_none (Nat.not_lt.mp hlt)]
    rfl

/-- The bits of a mask. -/
lemma getLsbD_mask (p q : Nat) :
    (1#32 <<< (p % BINL)).getLsbD (q % BINL) = decide (q % BINL = p % BINL) := by
  have hlt : p % BINL < 32 := Nat.mod_lt _ (by decide)
  rw [← BitVec.twoPow_eq, BitVec.getLsbD_twoPow, decide_eq_true hlt, Bool.true_and]
  exact decide_eq_decide.mpr eq_comm

/-- What setting a bit does. -/
theorem isSet_set (hp : p / BINL < bitmap.length) (q : Nat) :
    isSet (set bitmap p) q = (decide (q = p) || isSet bitmap q) := by
  rw [isSet_eq, isSet_eq, set, getD_modify]
  by_cases hlong : p / BINL = q / BINL
  · rw [if_pos ⟨hlong, hlong ▸ hp⟩, BitVec.getLsbD_or, getLsbD_mask, Bool.or_comm]
    congr 1
    apply decide_eq_decide.mpr
    exact ⟨pos_ext hlong.symm, fun heq => by rw [heq]⟩
  · have hne : q ≠ p := by
      rintro rfl
      exact hlong rfl
    rw [if_neg fun h => hlong h.1, decide_eq_false hne, Bool.false_or]

/-- What clearing a bit does. -/
theorem isSet_clear (bitmap : List Long) (p q : Nat) :
    isSet (clear bitmap p) q = (!decide (q = p) && isSet bitmap q) := by
  have hlt : q % BINL < 32 := Nat.mod_lt _ (by decide)
  rw [isSet_eq, isSet_eq, clear, getD_modify]
  by_cases hlong : p / BINL = q / BINL
  · by_cases hlen : q / BINL < bitmap.length
    · rw [if_pos ⟨hlong, hlen⟩, BitVec.getLsbD_and, BitVec.getLsbD_not, getLsbD_mask,
        decide_eq_true hlt, Bool.true_and, Bool.and_comm]
      congr 2
      apply decide_eq_decide.mpr
      exact ⟨pos_ext hlong.symm, fun heq => by rw [heq]⟩
    · rw [if_neg fun h => hlen h.2, List.getD_eq_getElem?_getD,
        List.getElem?_eq_none (Nat.not_lt.mp hlen)]
      simp
  · have hne : q ≠ p := by
      rintro rfl
      exact hlong rfl
    rw [if_neg fun h => hlong h.1, decide_eq_false hne, Bool.not_false, Bool.true_and]

lemma isSet_replicate (n p : Nat) : isSet (List.replicate n 0) p = false := by
  rw [isSet_eq, List.getD_eq_getElem?_getD, List.getElem?_replicate]
  by_cases hlt : p / BINL < n
  · simp [hlt]
  · simp [hlt]

/-! ## The search -/

/-- The mask doubles to the next bit. -/
lemma mask_add_self (k : Nat) : 1#32 <<< k + 1#32 <<< k = 1#32 <<< (k + 1) := by
  apply BitVec.eq_of_toNat_eq
  rw [← BitVec.twoPow_eq, ← BitVec.twoPow_eq, BitVec.toNat_add, BitVec.toNat_twoPow,
    BitVec.toNat_twoPow, ← Nat.add_mod, ← Nat.two_mul, ← pow_succ']

lemma mask_eq_zero (k : Nat) : 1#32 <<< k = 0 ↔ 32 ≤ k := by
  constructor
  · intro hzero
    by_contra hlt
    have hget := BitVec.getLsbD_twoPow (w := 32) k k
    rw [BitVec.twoPow_eq, hzero] at hget
    simp at hget
    omega
  · intro hle
    apply BitVec.eq_of_toNat_eq
    rw [← BitVec.twoPow_eq]
    exact BitVec.toNat_twoPow_of_le hle

/-- The inner loop stops at the first bit that is clear. -/
lemma clearBit_spec (x : Long) (n : Nat) : ∀ k, 32 < k + n →
    match clearBit x n (1#32 <<< k) k with
    | some i => k ≤ i ∧ i < 32 ∧ x.getLsbD i = false ∧ ∀ j, k ≤ j → j < i → x.getLsbD j = true
    | none => ∀ j, k ≤ j → j < 32 → x.getLsbD j = true := by
  induction n with
  | zero =>
    intro k hk j hj hlt
    omega
  | succ n ih =>
    intro k hk
    rw [clearBit]
    by_cases hend : 32 ≤ k
    · rw [if_pos ((mask_eq_zero k).mpr hend)]
      intro j hj hlt
      omega
    · rw [if_neg fun hzero => hend ((mask_eq_zero k).mp hzero)]
      have hlt : k < 32 := Nat.not_le.mp hend
      by_cases hclear : x &&& 1#32 <<< k = 0
      · rw [if_pos hclear]
        refine ⟨Nat.le_refl k, hlt, (and_mask_eq_zero x hlt).mp hclear, fun j hj hji => ?_⟩
        omega
      · rw [if_neg hclear, mask_add_self]
        have hset : x.getLsbD k = true := by
          apply Bool.eq_true_of_not_eq_false
          intro hbit
          exact hclear ((and_mask_eq_zero x hlt).mpr hbit)
        have hrest := ih (k + 1) (by omega)
        cases hfound : clearBit x n (1#32 <<< (k + 1)) (k + 1) with
        | none =>
          rw [hfound] at hrest
          intro j hj hjlt
          by_cases heq : j = k
          · rwa [heq]
          · exact hrest j (by omega) hjlt
        | some i =>
          rw [hfound] at hrest
          obtain ⟨hle, hi, hbit, hall⟩ := hrest
          refine ⟨by omega, hi, hbit, fun j hj hji => ?_⟩
          by_cases heq : j = k
          · rwa [heq]
          · exact hall j (by omega) hji

lemma isSet_pos (bitmap : List Long) (i : Nat) (hk : k < 32) :
    isSet bitmap (i * BINL + k) = (bitmap.getD i 0).getLsbD k := by
  have hdiv : (i * BINL + k) / BINL = i := by
    rw [BINL]
    omega
  have hmod : (i * BINL + k) % BINL = k := by
    rw [BINL]
    omega
  rw [isSet_eq, hdiv, hmod]

/-- The search from a long on. -/
lemma firstIsClearFrom_spec (bitmap : List Long) (n : Nat) : ∀ i,
    (∀ q, i * BINL ≤ q → q < firstIsClearFrom bitmap n i → isSet bitmap q = true) ∧
      firstIsClearFrom bitmap n i ≤ (i + n) * BINL ∧
      (firstIsClearFrom bitmap n i < (i + n) * BINL →
        isSet bitmap (firstIsClearFrom bitmap n i) = false) := by
  induction n with
  | zero =>
    intro i
    rw [firstIsClearFrom]
    refine ⟨fun q hle hlt => ?_, le_rfl, fun hlt => ?_⟩
    · omega
    · exact absurd hlt (Nat.lt_irrefl _)
  | succ n ih =>
    intro i
    have hstep : (i + (n + 1)) * BINL = (i + 1 + n) * BINL := by
      congr 1
      omega
    have hnext : (i + 1) * BINL = i * BINL + 32 := Nat.succ_mul i BINL
    have hroom : (i + 1) * BINL ≤ (i + 1 + n) * BINL :=
      Nat.mul_le_mul_right _ (Nat.le_add_right _ _)
    rw [firstIsClearFrom, hstep]
    by_cases hzero : bitmap.getD i 0 = 0
    · rw [if_pos hzero]
      refine ⟨fun q hle hlt => ?_, by omega, fun _ => ?_⟩
      · omega
      · have hbit := isSet_pos bitmap i (Nat.zero_lt_succ 31)
        rw [hzero] at hbit
        exact hbit
    · rw [if_neg hzero]
      have hspec := clearBit_spec (bitmap.getD i 0) (BINL + 1) 0 (by decide)
      have hone : (1#32 <<< 0 : Long) = 1 := rfl
      rw [hone] at hspec
      cases hfound : clearBit (bitmap.getD i 0) (BINL + 1) 1 0 with
      | some k =>
        rw [hfound] at hspec
        obtain ⟨-, hk, hbit, hall⟩ := hspec
        dsimp only
        refine ⟨fun q hle hlt => ?_, by omega, fun _ => ?_⟩
        · obtain ⟨j, rfl⟩ := Nat.exists_eq_add_of_le hle
          have hj : j < k := Nat.lt_of_add_lt_add_left hlt
          rw [isSet_pos bitmap i (Nat.lt_trans hj hk)]
          exact hall j (Nat.zero_le j) hj
        · rw [isSet_pos bitmap i hk]
          exact hbit
      | none =>
        rw [hfound] at hspec
        obtain ⟨hall, hle, hclear⟩ := ih (i + 1)
        refine ⟨fun q hlow hlt => ?_, hle, hclear⟩
        by_cases hq : (i + 1) * BINL ≤ q
        · exact hall q hq hlt
        · obtain ⟨j, rfl⟩ := Nat.exists_eq_add_of_le hlow
          have hj : j < 32 := by omega
          rw [isSet_pos bitmap i hj]
          exact hspec j (Nat.zero_le j) hj

/-- The first position that is clear, or the length of the bitmap. -/
theorem firstIsClear_spec (bitmap : List Long) (len : Nat) :
    (∀ q, q < firstIsClear bitmap len → isSet bitmap q = true) ∧
      firstIsClear bitmap len ≤ len * BINL ∧
      (firstIsClear bitmap len < len * BINL → isSet bitmap (firstIsClear bitmap len) = false) := by
  have hspec := firstIsClearFrom_spec bitmap len 0
  rw [Nat.zero_mul, Nat.zero_add] at hspec
  exact ⟨fun q => hspec.1 q (Nat.zero_le q), hspec.2⟩

end Bitmap

end DiegOS.Support
