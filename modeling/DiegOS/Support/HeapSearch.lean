import DiegOS.Support.HeapUse

/-!
# The search of the heap

`malloc` searches the list of partitions, merges the free ones if none is big enough, and
searches again.  What the second search finds depends on the runs of free partitions before the
merging.

Main results:

- Theorem `mallocInternal_fits`: a search finds a free partition if one is big enough.
- Theorem `malloc_complete`: `malloc` fails exactly for no bytes and for a size that no
  run of free partitions offers, and it leaves the allocated partitions alone.
-/

namespace DiegOS.Support

open Lib

namespace Malloc

variable {s s' : Malloc} {parts parts' new : List Nat} {a b p newsize : Nat}

/-! ## What is found -/

/-- A search finds a free partition exactly if one is big enough. -/
theorem Listed.mallocInternal_fits (h : s.Listed parts) (newsize : Nat) :
    (s.mallocInternal newsize).2 ≠ 0 ↔ Cell.Fits newsize (cells s.mem parts) := by
  have hfits : Cell.Fits newsize (cells s.mem parts) ↔
      ∃ a ∈ parts, isFree s.mem a = true ∧ newsize ≤ getSize s.mem a := by
    simp [Cell.Fits, cells, cell]
  rw [hfits]
  rcases h.mallocInternal_cases newsize with
    ⟨heq, hnone⟩ | ⟨a, ha, hfree, hle, ⟨-, heq⟩ | ⟨-, heq⟩⟩
  · rw [heq]
    apply iff_of_false
    · simp
    · rintro ⟨a, ha, hfree, hle⟩
      exact Nat.not_lt.mpr hle (hnone a ha hfree)
  · rw [heq]
    exact iff_of_true (pointer_ne_zero a) ⟨a, ha, hfree, hle⟩
  · rw [heq]
    exact iff_of_true (pointer_ne_zero a) ⟨a, ha, hfree, hle⟩

lemma Listed.mallocInternal_null (h : s.Listed parts) (hnull : (s.mallocInternal newsize).2 = 0) :
    (s.mallocInternal newsize).1 = s := by
  rcases h.mallocInternal newsize with ⟨heq, -⟩ | ⟨a, hptr, -⟩
  · rw [heq]
  · rw [hnull, PART] at hptr
    omega

/-! ## What is written -/

/-- Two partitions do not overlap. -/
lemma Listed.apart (h : s.Listed parts) (ha : a ∈ parts) (hb : b ∈ parts) (hne : a ≠ b) :
    (s.mem a).next ≤ b ∨ (s.mem b).next ≤ a := by
  rcases List.append_of_mem ha with ⟨pre, suf, rfl⟩
  rcases List.pairwise_append.mp h.tiles.sorted with ⟨-, hsuf, hpre⟩
  rcases List.mem_append.mp hb with hb | hb
  · exact .inr (hpre b hb a (.head _))
  · rcases List.mem_cons.mp hb with rfl | hb
    · contradiction
    · exact .inl ((List.pairwise_cons.mp hsuf).1 b hb)

/-- No header that has changed overlaps an allocated partition. -/
def Clear (s : Malloc) (parts : List Nat) (s' : Malloc) : Prop :=
  ∀ a ∈ parts, isAlloc s.mem a = true → ∀ p, s'.mem p ≠ s.mem p →
    p + PART ≤ a ∨ (s.mem a).next ≤ p

/-- Headers that lie in free partitions are clear of the allocated ones. -/
lemma Listed.clear (h : s.Listed parts)
    (hwritten : ∀ p, s'.mem p ≠ s.mem p → ∃ b ∈ parts, isFree s.mem b = true ∧ b ≤ p ∧
      p + PART ≤ (s.mem b).next) : Clear s parts s' := by
  intro a ha halloc p hp
  rcases hwritten p hp with ⟨b, hb, hfree, hlow, hhigh⟩
  have hne : a ≠ b := by
    rintro rfl
    rw [not_isAlloc_of_isFree hfree] at halloc
    contradiction
  rcases h.apart ha hb hne with hle | hle
  · exact .inr (Nat.le_trans hle hlow)
  · exact .inl (Nat.le_trans hhigh hle)

lemma Listed.mallocInternal_clear (h : s.Listed parts) (newsize : Nat) :
    Clear s parts (s.mallocInternal newsize).1 := by
  apply h.clear
  intro p hp
  rcases h.mallocInternal_cases newsize with
    ⟨heq, -⟩ | ⟨a, ha, hfree, hle, ⟨-, heq⟩ | ⟨hfits, heq⟩⟩
  · rw [heq] at hp
    contradiction
  · rw [heq] at hp
    have hself : p = a := by
      by_contra hne
      exact hp (setMagic_other s.mem MAGIC_ALLOC_NUMBER hne)
    rw [hself]
    exact ⟨a, ha, hfree, Nat.le_refl a, (h.getSize_eq ha).2.1⟩
  · rw [heq] at hp
    have hself : p = a ∨ p = a + PART + newsize := by
      by_contra hne
      rcases not_or.mp hne with ⟨hne, hne'⟩
      exact hp (cut_other hne hne')
    rcases h.getSize_eq ha with ⟨hsize, hpart, -⟩
    exact ⟨a, ha, hfree, by omega, by omega⟩

lemma Listed.defrag_clear (h : s.Listed parts) : Clear s parts s.defrag := by
  rcases h.defrag_cells with ⟨parts', -, -, -, hmerged⟩
  apply h.clear
  intro p hp
  have hmem : p ∈ parts := by
    by_contra hno
    exact hp (hmerged.other p hno)
  have hfree : isFree s.mem p = true := by
    cases hfree : isFree s.mem p with
    | true => rfl
    | false => exact absurd (hmerged.alloc p hfree) hp
  exact ⟨p, hmem, hfree, Nat.le_refl p, (h.tiles.part_inside hmem).2.1⟩

/-- The allocated partitions are still in the list. -/
lemma Grown.mem (h : Grown s parts s' new) : ∃ parts', s'.Listed parts' ∧
    ∀ a ∈ parts, isAlloc s.mem a = true → a ∈ parts' ∧ isAlloc s'.mem a = true := by
  rcases h.listed with ⟨parts', hlisted, hperm⟩
  refine ⟨parts', hlisted, fun a ha halloc => ?_⟩
  have hmem : a ∈ parts'.filter (isAlloc s'.mem) :=
    hperm.mem_iff.mpr (List.mem_append_right _ (List.mem_filter.mpr ⟨ha, halloc⟩))
  exact List.mem_filter.mp hmem

lemma Listed.malloc_clear (h : s.Listed parts) (size : UInt32) :
    Clear s parts (s.malloc size).1 := by
  unfold Malloc.malloc
  split
  · intro a ha halloc p hp
    contradiction
  · dsimp only
    split
    · exact h.mallocInternal_clear _
    · next hnull =>
        have hdefrag := h.defrag
        rcases hdefrag.mem with ⟨parts', hlisted', hstill⟩
        intro a ha halloc p hp
        rw [h.mallocInternal_null (not_not.mp hnull)] at hp
        by_cases hsame : s.defrag.mem p = s.mem p
        · rw [← hsame] at hp
          have hclear := hlisted'.mallocInternal_clear (mult size.toNat LONG) a
            (hstill a ha halloc).1 (hstill a ha halloc).2 p hp
          rwa [hdefrag.kept a ha halloc] at hclear
        · exact h.defrag_clear a ha halloc p hsame

/-- What `malloc` leaves of the allocated partitions: they are in the list, with their
headers, and nothing is written into them. -/
structure Spared (s : Malloc) (parts : List Nat) (s' : Malloc) : Prop where
  listed : ∃ parts', s'.Listed parts' ∧
    ∀ a ∈ parts, isAlloc s.mem a = true → a ∈ parts' ∧ isAlloc s'.mem a = true
  kept : ∀ a ∈ parts, isAlloc s.mem a = true → s'.mem a = s.mem a
  clear : Clear s parts s'

lemma Listed.malloc_spared (h : s.Listed parts) (size : UInt32) :
    Spared s parts (s.malloc size).1 := by
  have hgrown : ∃ new, Grown s parts (s.malloc size).1 new := by
    rcases h.malloc size with ⟨-, hgrown⟩ | ⟨a, -, -, hgrown, -⟩
    · exact ⟨[], hgrown⟩
    · exact ⟨[a], hgrown⟩
  rcases hgrown with ⟨new, hgrown⟩
  exact ⟨hgrown.mem, hgrown.kept, h.malloc_clear size⟩

/-- Both searches together find what a run of free partitions offers. -/
lemma Listed.malloc_fits (h : s.Listed parts) {size : UInt32} (hzero : size ≠ 0) :
    (s.malloc size).2 ≠ 0 ↔ ∃ run, Cell.MaximalRun (cells s.mem parts) run ∧
      mult size.toNat LONG ≤ Cell.runSize PART run := by
  rw [← Cell.fits_merge_iff]
  unfold Malloc.malloc
  rw [if_neg hzero]
  dsimp only
  by_cases hfirst : (s.mallocInternal (mult size.toNat LONG)).2 ≠ 0
  · rw [if_pos hfirst]
    exact iff_of_true hfirst ((h.mallocInternal_fits _).mp hfirst).merge
  · rw [if_neg hfirst]
    rcases h.defrag_cells with ⟨parts', hlisted', hcells, -⟩
    rw [h.mallocInternal_null (not_not.mp hfirst), hlisted'.mallocInternal_fits, hcells]

end Malloc

open Malloc

/-- For every list of partitions and every size that does not overflow when it is rounded
`malloc` returns `NULL` exactly if the size is 0 or no maximal run of free partitions
offers the rounded size; in every case it leaves the allocated partitions alone. -/
theorem malloc_complete {s : Malloc} {parts : List Nat} {size : UInt32} (h : s.Listed parts)
    (hsize : size.toNat + (LONG - 1) < WORD) :
    ((s.malloc size).2 = 0 ↔ size = 0 ∨ ¬∃ run, Cell.MaximalRun (cells s.mem parts) run ∧
      (size.toNat + (LONG - 1)) / LONG * LONG ≤ Cell.runSize PART run) ∧
      Spared s parts (s.malloc size).1 := by
  refine ⟨?_, h.malloc_spared size⟩
  have hround : mult size.toNat LONG = (size.toNat + (LONG - 1)) / LONG * LONG := mult_eq hsize
  rw [← hround]
  by_cases hzero : size = 0
  · apply iff_of_true
    · rw [Malloc.malloc, if_pos hzero]
    · exact Or.inl hzero
  · rw [or_iff_right hzero, ← h.malloc_fits hzero, not_not]

lemma smallHeap_listed : smallHeap.Listed [4096] := by
  constructor
  · exact ⟨rfl, ⟨by decide, .inr (by decide)⟩, rfl⟩
  · rfl
  · decide

/-- The free partition of a new heap offers 56 bytes, so 54 bytes are found. -/
theorem malloc_complete_small : (smallHeap.malloc 54).2 ≠ 0 := by
  have hsize : (54 : UInt32).toNat + (LONG - 1) < WORD := by decide
  have hiff := (malloc_complete smallHeap_listed hsize).1
  intro hnull
  rcases hiff.mp hnull with hzero | hnone
  · contradiction
  · apply hnone
    refine ⟨cells smallHeap.mem [4096],
      ⟨by simp, by simp; decide, [], [], rfl, by simp, by simp⟩, ?_⟩
    decide

/-- For no bytes `malloc` fails, although the free partition of a new heap offers them. -/
theorem malloc_of_none : (smallHeap.malloc 0).2 = 0 ∧
    ¬¬∃ run, Cell.MaximalRun (cells smallHeap.mem [4096]) run ∧
      ((0 : UInt32).toNat + (LONG - 1)) / LONG * LONG ≤ Cell.runSize PART run := by
  refine ⟨rfl, not_not.mpr ⟨cells smallHeap.mem [4096], ?_, by decide⟩⟩
  exact ⟨by simp, by simp; decide, [], [], rfl, by simp, by simp⟩

end DiegOS.Support
