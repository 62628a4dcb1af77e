import DiegOS.Lib.BlockMoves
import Mathlib.Tactic.IntervalCases

/-!
# Block functions

`memcpy`, `memset` and `memmove` of `ansi`, over a memory of bytes with 32-bit
addresses.  A `long` and an `int` are four bytes, the lowest one first; a null pointer is
zero.

Main results:

- Theorem `memcpy_eq`: `memcpy` between blocks that are apart.
- Theorem `memset_eq`: `memset` stores the low byte.
- Theorem `memmove_eq`: `memmove` reads all of the source before it writes.
-/

namespace DiegOS.Libc.Blocks

open Lib (blit fill BlocksApart)

/-! ## The code -/

/-- The memory of a process. -/
abbrev Store := BitVec 32 → BitVec 8

/-- Store a `char`. -/
def storeChar (m : Store) (p : BitVec 32) (c : BitVec 8) : Store := Function.update m p c

/-- Read a `long`. -/
def loadLong (m : Store) (p : BitVec 32) : BitVec 32 := m (p + 3) ++ m (p + 2) ++ m (p + 1) ++ m p

/-- Store a `long`. -/
def storeLong (m : Store) (p v : BitVec 32) : Store :=
  fun a => if (a - p).toNat < 4 then v.extractLsb' (8 * (a - p).toNat) 8 else m a

/-- The first loop of `memcpy`: the memory, the pointers and `n` behind it. -/
def memcpyLongs (m : Store) (p3 p4 : BitVec 32) : Nat → Store × BitVec 32 × BitVec 32 × Nat
  | n + 5 => memcpyLongs (storeLong m p3 (loadLong m p4)) (p3 + 4) (p4 + 4) (n + 1)
  | n => (m, p3, p4, n)

/-- The second loop of `memcpy`, and the second one of `memmove`. -/
def copyBytes (m : Store) (p1 p2 : BitVec 32) : Nat → Store
  | 0 => m
  | n + 1 => copyBytes (storeChar m p1 (m p2)) (p1 + 1) (p2 + 1) n

/-- `memcpy`: the memory behind it and what it returns. -/
def memcpy (m : Store) (s ct : BitVec 32) (n : Nat) : Store × BitVec 32 :=
  if s ≠ 0 ∧ ct ≠ 0 ∧ 0 < n then
    if (s ||| ct) &&& 3 = 0 then
      let (m, p1, p2, n) := memcpyLongs m s ct n
      (copyBytes m p1 p2 n, s)
    else (copyBytes m s ct n, s)
  else (m, s)

/-- The loops of `memset` over characters. -/
def setBytes (m : Store) (s1 c : BitVec 32) : Nat → Store
  | 0 => m
  | n + 1 => setBytes (storeChar m s1 (c.setWidth 8)) (s1 + 1) c n

/-- The loop of `memset` over words. -/
def setInts (m : Store) (s2 c : BitVec 32) : Nat → Store × BitVec 32 × Nat
  | n + 5 => setInts (storeLong m s2 c) (s2 + 4) c (n + 1)
  | n => (m, s2, n)

/-- The low byte of `c` in all bytes of a word. -/
def spread (c : BitVec 32) : BitVec 32 :=
  let c := c &&& 0xff
  let c := c ||| c <<< 8
  c ||| c <<< 16

def memset (m : Store) (s c : BitVec 32) (n : Nat) : Store × BitVec 32 :=
  if s ≠ 0 ∧ 0 < n then
    if s &&& 3 ≠ 0 then (setBytes m s c n, s)
    else
      let c := spread c
      let (m, s1, n) := setInts m s c n
      (setBytes m s1 c n, s)
  else (m, s)

/-- The first loop of `memmove`, from behind. -/
def copyBytesBack (m : Store) (p1 p2 : BitVec 32) : Nat → Store
  | 0 => m
  | n + 1 => copyBytesBack (storeChar m (p1 - 1) (m (p2 - 1))) (p1 - 1) (p2 - 1) n

def memmove (m : Store) (s ct : BitVec 32) (n : Nat) : Store × BitVec 32 :=
  if s ≠ 0 ∧ ct ≠ 0 ∧ 0 < n then
    if ct ≤ s ∧ s < ct + BitVec.ofNat 32 n then
      (copyBytesBack m (s + BitVec.ofNat 32 n) (ct + BitVec.ofNat 32 n) n, s)
    else (copyBytes m s ct n, s)
  else (m, s)

/-! ## Words -/

section Words

variable {m : Store} {p q s ct c : BitVec 32} {d : BitVec 8} {i k n : Nat}

lemma loadLong_byte (m : Store) (p : BitVec 32) (hi : i < 4) :
    (loadLong m p).extractLsb' (8 * i) 8 = m (p + BitVec.ofNat 32 i) := by
  refine BitVec.eq_of_getLsbD_eq fun j hj => ?_
  simp only [loadLong, BitVec.getLsbD_extractLsb', BitVec.getLsbD_append, hj, decide_true,
    Bool.true_and]
  interval_cases i
  · simp [hj]
  · have h₁ : ¬8 + j < 8 := by omega
    simp [h₁, hj]
  · have h₁ : ¬16 + j < 8 := by omega
    have h₂ : ¬16 + j - 8 < 8 := by omega
    have hlast : 16 + j - 8 - 8 = j := by omega
    simp [h₁, h₂, hlast, hj]
  · have h₁ : ¬24 + j < 8 := by omega
    have h₂ : ¬24 + j - 8 < 8 := by omega
    have h₃ : ¬24 + j - 8 - 8 < 8 := by omega
    have hlast : 24 + j - 8 - 8 - 8 = j := by omega
    simp [h₁, h₂, h₃, hlast]

lemma spread_byte (c : BitVec 32) (hi : i < 4) :
    (spread c).extractLsb' (8 * i) 8 = c.setWidth 8 := by
  refine BitVec.eq_of_getLsbD_eq fun j hj => ?_
  interval_cases i <;> interval_cases j <;> simp [spread]

lemma spread_char (c : BitVec 32) : (spread c).setWidth 8 = c.setWidth 8 := by
  rw [← spread_byte c (show 0 < 4 by decide)]
  exact BitVec.eq_of_getLsbD_eq fun j hj => by simp

/-- A word that is copied. -/
lemma storeLong_loadLong (m : Store) (p q : BitVec 32) :
    storeLong m p (loadLong m q) = blit m p q 4 := by
  funext a
  unfold storeLong blit
  split
  · next hlt => rw [loadLong_byte m q hlt, BitVec.ofNat_toNat, BitVec.setWidth_eq]
  · rfl

lemma toNat_sub_lt_one {a p : BitVec 32} : (a - p).toNat < 1 ↔ a = p := by
  rw [Nat.lt_one_iff, ← BitVec.toNat_zero, BitVec.toNat_inj]
  exact sub_eq_zero

lemma storeChar_fill (m : Store) (p : BitVec 32) (d : BitVec 8) :
    storeChar m p d = fill m p d 1 := by
  funext a
  rw [storeChar, fill, Function.update_apply]
  simp only [toNat_sub_lt_one]

lemma storeChar_blit (m : Store) (p q : BitVec 32) : storeChar m p (m q) = blit m p q 1 := by
  funext a
  rw [storeChar, blit, Function.update_apply]
  simp only [toNat_sub_lt_one]
  split
  · next h => rw [h, sub_self, add_zero]
  · rfl

lemma storeLong_spread (m : Store) (p c : BitVec 32) :
    storeLong m p (spread c) = fill m p (c.setWidth 8) 4 := by
  funext a
  unfold storeLong fill
  split
  · next hlt => rw [spread_byte c hlt]
  · rfl

end Words

/-! ## The loops -/

section Loops

variable {m : Store} {s ct c : BitVec 32} {k n : Nat}

/-- A copy from the front reads no byte that it has overwritten. -/
def Forward (s ct : BitVec 32) (n : Nat) : Prop :=
  ∀ x < n, x ≤ (ct + BitVec.ofNat 32 x - s).toNat

lemma forward_of_apart (h : BlocksApart s ct n) : Forward s ct n := fun _ hx =>
  Nat.le_trans (Nat.le_of_lt hx) (h.le_sub (Nat.le_refl n) hx)

lemma Forward.shift (h : Forward s ct (k + n)) :
    Forward (s + BitVec.ofNat 32 k) (ct + BitVec.ofNat 32 k) n := fun x hx => by
  rw [add_right_comm, add_sub_add_right_eq_sub]
  exact h x (by omega)

/-- The second part of a copy that reads no byte it has overwritten. -/
lemma Forward.blit_append (h : Forward s ct (k + n)) (hn : k + n ≤ 2 ^ 32) :
    blit (blit m s ct k) (s + BitVec.ofNat 32 k) (ct + BitVec.ofNat 32 k) n =
      blit m s ct (k + n) :=
  Lib.blit_append hn fun x hlow hhigh => Nat.le_trans hlow (h x hhigh)

lemma copyBytes_eq (h : Forward s ct n) (hn : n ≤ 2 ^ 32) :
    copyBytes m s ct n = blit m s ct n := by
  induction n generalizing m s ct with
  | zero => exact (Lib.blit_zero m s ct).symm
  | succ n ih =>
    rw [copyBytes, storeChar_blit]
    rw [Nat.add_comm] at h hn ⊢
    exact (ih h.shift (by omega)).trans (h.blit_append hn)

/-- The first loop of `memcpy` copies a part of the block. -/
lemma memcpyLongs_eq (h : Forward s ct n) (hn : n ≤ 2 ^ 32) :
    ∃ k ≤ n, memcpyLongs m s ct n =
      (blit m s ct k, s + BitVec.ofNat 32 k, ct + BitVec.ofNat 32 k, n - k) := by
  fun_induction memcpyLongs m s ct n with
  | case1 m s ct n ih =>
    have hsplit : n.succ.succ.succ.succ.succ = 4 + (n + 1) := by omega
    rw [hsplit] at h hn ⊢
    obtain ⟨k, hk, hrest⟩ := ih h.shift (by omega)
    have hfirst : Forward s ct (4 + k) := fun x hx => h x (by omega)
    refine ⟨4 + k, by omega, hrest.trans ?_⟩
    rw [storeLong_loadLong, ← hfirst.blit_append (by omega), BitVec.ofNat_add, ← add_assoc,
      ← add_assoc, Nat.add_sub_add_left]
    rfl
  | case2 m s ct n =>
    refine ⟨0, Nat.zero_le n, ?_⟩
    rw [Lib.blit_zero, Nat.sub_zero, BitVec.add_zero, BitVec.add_zero]

lemma setBytes_eq (hn : n ≤ 2 ^ 32) : setBytes m s c n = fill m s (c.setWidth 8) n := by
  induction n generalizing m s with
  | zero => exact (Lib.fill_zero m s _).symm
  | succ n ih =>
    rw [setBytes, storeChar_fill]
    rw [Nat.add_comm] at hn ⊢
    exact (ih (by omega)).trans (Lib.fill_append hn)

/-- The loop of `memset` over words fills a part of the block. -/
lemma setInts_eq (hn : n ≤ 2 ^ 32) :
    ∃ k ≤ n, setInts m s (spread c) n =
      (fill m s (c.setWidth 8) k, s + BitVec.ofNat 32 k, n - k) := by
  fun_induction setInts m s (spread c) n with
  | case1 m s n ih =>
    have hsplit : n.succ.succ.succ.succ.succ = 4 + (n + 1) := by omega
    rw [hsplit] at hn ⊢
    obtain ⟨k, hk, hrest⟩ := ih (by omega)
    refine ⟨4 + k, by omega, hrest.trans ?_⟩
    rw [storeLong_spread, ← Lib.fill_append (by omega), BitVec.ofNat_add, ← add_assoc,
      Nat.add_sub_add_left]
    rfl
  | case2 m s n =>
    refine ⟨0, Nat.zero_le n, ?_⟩
    rw [Lib.fill_zero, Nat.sub_zero, BitVec.add_zero]

/-- The first loop of `memmove` copies from behind. -/
lemma copyBytesBack_eq (hn : n ≤ 2 ^ 32)
    (h : ∀ y < n, ∀ x < y, ct + BitVec.ofNat 32 x ≠ s + BitVec.ofNat 32 y) :
    copyBytesBack m (s + BitVec.ofNat 32 n) (ct + BitVec.ofNat 32 n) n = blit m s ct n := by
  induction n generalizing m with
  | zero => exact (Lib.blit_zero m s ct).symm
  | succ n ih =>
    have hback : ∀ p : BitVec 32, p + BitVec.ofNat 32 (n + 1) - 1 = p + BitVec.ofNat 32 n := by
      intro p
      rw [BitVec.ofNat_add, ← add_assoc]
      exact BitVec.add_sub_cancel _ _
    rw [copyBytesBack, hback, hback, storeChar_blit,
      ih (by omega) fun y hy => h y (Nat.lt_succ_of_lt hy)]
    refine Lib.blit_append_back hn fun x hx => ?_
    exact Nat.not_lt.mp fun hlt => h n (Nat.lt_succ_self n) x hx (toNat_sub_lt_one.mp hlt)

end Loops

/-! ## The functions -/

section Functions

variable {s ct : BitVec 32} {n : Nat}

/-- `memcpy` between blocks that are apart. -/
theorem memcpy_eq (m : Store) (hs : s ≠ 0) (hct : ct ≠ 0) (hn : n < 2 ^ 32)
    (h : BlocksApart s ct n) : memcpy m s ct n = (blit m s ct n, s) := by
  have hforward := forward_of_apart h
  rcases Nat.eq_zero_or_pos n with rfl | hpos
  · rw [memcpy, if_neg (by simp), Lib.blit_zero]
  · rw [memcpy, if_pos ⟨hs, hct, hpos⟩]
    split
    · obtain ⟨k, hk, hlongs⟩ := memcpyLongs_eq (m := m) hforward (Nat.le_of_lt hn)
      obtain ⟨l, rfl⟩ := Nat.exists_eq_add_of_le hk
      rw [hlongs]
      dsimp only
      rw [Nat.add_sub_cancel_left, copyBytes_eq hforward.shift (by omega),
        hforward.blit_append (Nat.le_of_lt hn)]
    · rw [copyBytes_eq hforward (Nat.le_of_lt hn)]

/-- `memset` stores the low byte. -/
theorem memset_eq (m : Store) (c : BitVec 32) (hs : s ≠ 0) (hn : n < 2 ^ 32) :
    memset m s c n = (fill m s (c.setWidth 8) n, s) := by
  rcases Nat.eq_zero_or_pos n with rfl | hpos
  · rw [memset, if_neg (by simp), Lib.fill_zero]
  · rw [memset, if_pos ⟨hs, hpos⟩]
    split
    · rw [setBytes_eq (Nat.le_of_lt hn)]
    · obtain ⟨k, hk, hints⟩ := setInts_eq (m := m) (s := s) (c := c) (Nat.le_of_lt hn)
      obtain ⟨l, rfl⟩ := Nat.exists_eq_add_of_le hk
      dsimp only
      rw [hints]
      dsimp only
      rw [Nat.add_sub_cancel_left, setBytes_eq (by omega), spread_char,
        Lib.fill_append (Nat.le_of_lt hn)]

lemma toNat_add_ofNat {p : BitVec 32} {x : Nat} (hx : p.toNat + x < 2 ^ 32) :
    (p + BitVec.ofNat 32 x).toNat = p.toNat + x := by
  rw [BitVec.toNat_add, BitVec.toNat_ofNat, Nat.add_mod_mod, Nat.mod_eq_of_lt hx]

/-- `memmove` reads all of the source before it writes, wherever the blocks are. -/
theorem memmove_eq (m : Store) (hs : s ≠ 0) (hct : ct ≠ 0) (hsn : s.toNat + n ≤ 2 ^ 32)
    (hctn : ct.toNat + n ≤ 2 ^ 32) : memmove m s ct n = (blit m s ct n, s) := by
  have hsource : ∀ x < n, (ct + BitVec.ofNat 32 x).toNat = ct.toNat + x := fun x hx =>
    toNat_add_ofNat (by omega)
  rcases Nat.eq_zero_or_pos n with rfl | hpos
  · rw [memmove, if_neg (by simp), Lib.blit_zero]
  · rw [memmove, if_pos ⟨hs, hct, hpos⟩]
    by_cases hback : ct ≤ s ∧ s < ct + BitVec.ofNat 32 n
    · rw [if_pos hback, copyBytesBack_eq (by omega)]
      intro y hy x hx heq
      have hle : ct.toNat ≤ s.toNat := BitVec.le_def.mp hback.1
      have hsame := congrArg BitVec.toNat heq
      rw [hsource x (by omega), toNat_add_ofNat (by omega)] at hsame
      omega
    · rw [if_neg hback, copyBytes_eq _ (by omega)]
      intro x hx
      by_cases hle : s.toNat ≤ ct.toNat + x
      · have hnone : ct.toNat < s.toNat → ct.toNat + n < 2 ^ 32 := by omega
        have habove : s.toNat ≤ ct.toNat := by
          refine Nat.not_lt.mp fun hlt => hback ⟨BitVec.le_def.mpr (Nat.le_of_lt hlt), ?_⟩
          rw [BitVec.lt_def, toNat_add_ofNat (hnone hlt)]
          omega
        rw [BitVec.toNat_sub_of_le (by rwa [BitVec.le_def, hsource x hx]), hsource x hx]
        omega
      · rw [BitVec.toNat_sub_of_lt (by rw [BitVec.lt_def, hsource x hx]; omega), hsource x hx]
        have hlt := s.isLt
        omega

end Functions

end DiegOS.Libc.Blocks
