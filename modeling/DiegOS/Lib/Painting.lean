import Mathlib.Data.Set.Lattice
import Mathlib.Logic.Function.Basic

/-!
# Painting

To paint some places of a memory with a value changes these places and no others.  What a
program that only stores one value does to the memory is known when the places are.

Main results:

- Theorem `paint_paint`: painting twice paints the union.
- Theorem `paint_inj`: the places are determined by what painting does.
-/

namespace DiegOS.Lib

variable {ι α : Type} {S T : Set ι} {v : α} {f : ι → α} {i : ι}

open Classical in
/-- The memory with a value at some places. -/
noncomputable def paint (S : Set ι) (v : α) (f : ι → α) : ι → α :=
  fun i => if i ∈ S then v else f i

lemma paint_of_mem (h : i ∈ S) : paint S v f i = v := if_pos h

lemma paint_of_not_mem (h : i ∉ S) : paint S v f i = f i := if_neg h

@[simp]
lemma paint_empty (v : α) (f : ι → α) : paint ∅ v f = f := by
  ext i
  exact paint_of_not_mem (Set.notMem_empty i)

/-- One store paints its place. -/
lemma update_eq_paint [DecidableEq ι] (f : ι → α) (i : ι) (v : α) :
    Function.update f i v = paint {i} v f := by
  ext j
  by_cases h : j = i
  · subst h
    rw [Function.update_self, paint_of_mem (Set.mem_singleton j)]
  · have hnot : j ∉ ({i} : Set ι) := h
    rw [Function.update_of_ne h, paint_of_not_mem hnot]

theorem paint_paint (S T : Set ι) (v : α) (f : ι → α) :
    paint T v (paint S v f) = paint (S ∪ T) v f := by
  ext i
  by_cases hT : i ∈ T
  · rw [paint_of_mem hT, paint_of_mem (Set.mem_union_right S hT)]
  · rw [paint_of_not_mem hT]
    by_cases hS : i ∈ S
    · rw [paint_of_mem hS, paint_of_mem (Set.mem_union_left T hS)]
    · have hnot : i ∉ S ∪ T := fun h => h.elim hS hT
      rw [paint_of_not_mem hS, paint_of_not_mem hnot]

/-- What painting does to every memory tells the places. -/
theorem paint_inj (hne : ∃ u, u ≠ v) : (∀ f, paint S v f = paint T v f) ↔ S = T := by
  constructor
  · intro h
    obtain ⟨u, hu⟩ := hne
    have hmem : ∀ {S : Set ι} {i : ι}, paint S v (fun _ => u) i = v ↔ i ∈ S := by
      intro S i
      constructor
      · intro hv
        by_contra hnot
        rw [paint_of_not_mem hnot] at hv
        exact hu hv
      · exact paint_of_mem
    ext i
    rw [← hmem, h, hmem]
  · intro h f
    rw [h]

end DiegOS.Lib
