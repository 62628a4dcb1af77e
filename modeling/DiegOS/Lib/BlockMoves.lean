import Mathlib.Data.BitVec
import Mathlib.Logic.Function.Basic

/-!
# Block moves

Memories with modular addresses, and the copy of a block as one update that reads the old memory.
Two copies of adjacent parts are one if the part that is copied first does not overwrite what the
other one reads.

Main results:

- Theorems `blit_append` and `blit_append_back`: parts of a copy, from the front and from
  the back.
- Theorem `fill_append`: parts of a block that is filled.
-/

namespace DiegOS.Lib

variable {w : Nat} {β : Type} {m : BitVec w → β} {d s a : BitVec w} {k l n : Nat} {v : β}

/-- Copy a block; the source is read before anything is written. -/
def blit (m : BitVec w → β) (d s : BitVec w) (n : Nat) : BitVec w → β :=
  fun a => if (a - d).toNat < n then m (s + (a - d)) else m a

/-- Fill a block with one value. -/
def fill (m : BitVec w → β) (d : BitVec w) (v : β) (n : Nat) : BitVec w → β :=
  fun a => if (a - d).toNat < n then v else m a

/-- No address of one block is one of the other. -/
def BlocksApart (d s : BitVec w) (n : Nat) : Prop :=
  ∀ i < n, ∀ j < n, d + BitVec.ofNat w i ≠ s + BitVec.ofNat w j

lemma offset_eq (a d : BitVec w) : d + BitVec.ofNat w (a - d).toNat = a := by
  rw [BitVec.ofNat_toNat, BitVec.setWidth_eq, BitVec.add_comm, BitVec.sub_add_cancel]

/-- An address is in the second part of a block. -/
lemma toNat_sub_offset (hk : k < 2 ^ w) :
    (a - (d + BitVec.ofNat w k)).toNat =
      if k ≤ (a - d).toNat then (a - d).toNat - k else 2 ^ w - (k - (a - d).toNat) := by
  have hsplit : a - (d + BitVec.ofNat w k) = a - d - BitVec.ofNat w k := (sub_sub a d _).symm
  have hoffset : (BitVec.ofNat w k).toNat = k := by rw [BitVec.toNat_ofNat, Nat.mod_eq_of_lt hk]
  rw [hsplit]
  by_cases h : k ≤ (a - d).toNat
  · rw [if_pos h, BitVec.toNat_sub_of_le (by rwa [BitVec.le_def, hoffset]), hoffset]
  · rw [if_neg h, BitVec.toNat_sub_of_lt (by rw [BitVec.lt_def, hoffset]; omega), hoffset]

lemma toNat_sub_offset_lt (hfit : k + l ≤ 2 ^ w) :
    (a - (d + BitVec.ofNat w k)).toNat < l ↔ k ≤ (a - d).toNat ∧ (a - d).toNat < k + l := by
  have hlt := (a - d).isLt
  by_cases hk : k < 2 ^ w
  · rw [toNat_sub_offset hk]
    generalize 2 ^ w = size at hlt hk hfit
    split <;> omega
  · generalize 2 ^ w = size at hlt hk hfit
    omega

@[simp]
lemma blit_zero (m : BitVec w → β) (d s : BitVec w) : blit m d s 0 = m := by
  funext a
  exact if_neg (Nat.not_lt_zero _)

@[simp]
lemma fill_zero (m : BitVec w → β) (d : BitVec w) (v : β) : fill m d v 0 = m := by
  funext a
  exact if_neg (Nat.not_lt_zero _)

lemma blit_apply_of_le (h : n ≤ (a - d).toNat) : blit m d s n a = m a :=
  if_neg (Nat.not_lt.mpr h)

/-- Two parts of a copy, the first one first. -/
theorem blit_append (hfit : k + l ≤ 2 ^ w)
    (hread : ∀ x, k ≤ x → x < k + l → k ≤ (s + BitVec.ofNat w x - d).toNat) :
    blit (blit m d s k) (d + BitVec.ofNat w k) (s + BitVec.ofNat w k) l = blit m d s (k + l) := by
  funext a
  by_cases hsecond : (a - (d + BitVec.ofNat w k)).toNat < l
  · obtain ⟨hlow, hhigh⟩ := (toNat_sub_offset_lt hfit).mp hsecond
    have hsource : s + BitVec.ofNat w k + (a - (d + BitVec.ofNat w k)) = s + (a - d) := by
      rw [← sub_sub, BitVec.add_assoc, BitVec.add_comm (BitVec.ofNat w k),
        BitVec.sub_add_cancel]
    have hkeep := hread _ hlow hhigh
    rw [BitVec.ofNat_toNat, BitVec.setWidth_eq] at hkeep
    rw [blit, if_pos hsecond, hsource, blit_apply_of_le hkeep, blit, if_pos hhigh]
  · rw [blit, if_neg hsecond]
    rw [toNat_sub_offset_lt hfit] at hsecond
    by_cases hfirst : (a - d).toNat < k
    · rw [blit, if_pos hfirst, blit, if_pos (by omega)]
    · rw [blit, if_neg hfirst, blit, if_neg (by omega)]

/-- Two parts of a copy, the second one first. -/
theorem blit_append_back (hfit : k + l ≤ 2 ^ w)
    (hread : ∀ x < k, l ≤ (s + BitVec.ofNat w x - (d + BitVec.ofNat w k)).toNat) :
    blit (blit m (d + BitVec.ofNat w k) (s + BitVec.ofNat w k) l) d s k = blit m d s (k + l) := by
  funext a
  by_cases hfirst : (a - d).toNat < k
  · have hkeep := hread _ hfirst
    rw [BitVec.ofNat_toNat, BitVec.setWidth_eq] at hkeep
    rw [blit, if_pos hfirst, blit_apply_of_le hkeep, blit, if_pos (by omega)]
  · rw [blit, if_neg hfirst, blit]
    by_cases hsecond : (a - (d + BitVec.ofNat w k)).toNat < l
    · have hsource : s + BitVec.ofNat w k + (a - (d + BitVec.ofNat w k)) = s + (a - d) := by
        rw [← sub_sub, BitVec.add_assoc, BitVec.add_comm (BitVec.ofNat w k),
          BitVec.sub_add_cancel]
      rw [if_pos hsecond, hsource, blit, if_pos ((toNat_sub_offset_lt hfit).mp hsecond).2]
    · rw [if_neg hsecond, blit, if_neg]
      rw [toNat_sub_offset_lt hfit] at hsecond
      omega

/-- Two parts of a block that is filled. -/
theorem fill_append (hfit : k + l ≤ 2 ^ w) :
    fill (fill m d v k) (d + BitVec.ofNat w k) v l = fill m d v (k + l) := by
  funext a
  by_cases hsecond : (a - (d + BitVec.ofNat w k)).toNat < l
  · rw [fill, if_pos hsecond, fill, if_pos ((toNat_sub_offset_lt hfit).mp hsecond).2]
  · rw [fill, if_neg hsecond]
    rw [toNat_sub_offset_lt hfit] at hsecond
    by_cases hfirst : (a - d).toNat < k
    · rw [fill, if_pos hfirst, fill, if_pos (by omega)]
    · rw [fill, if_neg hfirst, fill, if_neg (by omega)]

/-- Parts of a block are copied in any order if it is disjoint from its source. -/
lemma BlocksApart.le_sub (h : BlocksApart d s n) (hk : k ≤ n) {x : Nat} (hx : x < n) :
    k ≤ (s + BitVec.ofNat w x - d).toNat := by
  refine Nat.not_lt.mp fun hlt => ?_
  refine h _ (Nat.lt_of_lt_of_le hlt hk) x hx ?_
  rw [offset_eq]

end DiegOS.Lib
