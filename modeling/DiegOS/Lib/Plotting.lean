import Mathlib.Algebra.BigOperators.Group.List.Basic
import Mathlib.Algebra.GroupWithZero.Nat
import Mathlib.Data.List.Perm.Subperm
import Mathlib.Logic.Function.Basic

/-!
# Plotting

A list of stores into a memory, one after the other.  Two ways to place the same values do the same
to every memory only if they use the same places; and if one way never goes beyond the other, and
the other never comes back to a place, then they are equal.

Main results:

- Theorem `plot_places`: the places of the stores are determined by what they do.
- Theorem `plot_eq_iff`: two ways to place the same values.
- Theorem `plot_eq_of`: what a memory is after the stores, if no place comes twice.
-/

namespace DiegOS.Lib

open Function

variable {ι κ α : Type}

/-- The memory after some stores. -/
def plot [DecidableEq ι] : List (ι × α) → (ι → α) → ι → α
  | [], f => f
  | (i, a) :: stores, f => plot stores (Function.update f i a)

section Plot

variable [DecidableEq ι] {stores stores' : List (ι × α)} {f f' : ι → α} {i : ι} {a : α}

@[simp]
lemma plot_cons (i : ι) (a : α) (stores : List (ι × α)) (f : ι → α) :
    plot ((i, a) :: stores) f = plot stores (update f i a) := rfl

lemma plot_append (stores stores' : List (ι × α)) (f : ι → α) :
    plot (stores ++ stores') f = plot stores' (plot stores f) := by
  induction stores generalizing f with
  | nil => rfl
  | cons s stores ih => exact ih _

/-- Places without a store keep their values. -/
lemma plot_of_not_mem (h : i ∉ stores.map Prod.fst) : plot stores f i = f i := by
  induction stores generalizing f with
  | nil => rfl
  | cons s stores ih =>
    rw [List.map_cons, List.mem_cons, not_or] at h
    rw [plot_cons, ih h.2, update_of_ne h.1]

/-- The old values do not matter at the places of the stores. -/
lemma plot_congr (h : i ∈ stores.map Prod.fst) : plot stores f i = plot stores f' i := by
  induction stores generalizing f f' with
  | nil => cases h
  | cons s stores ih =>
    by_cases hmem : i ∈ stores.map Prod.fst
    · exact ih hmem
    · have heq : i = s.1 := (List.mem_cons.mp h).resolve_right hmem
      rw [plot_cons, plot_cons, plot_of_not_mem hmem, plot_of_not_mem hmem, heq,
        update_self, update_self]

/-- The value of a store, if no place comes twice. -/
lemma plot_of_mem (hnodup : (stores.map Prod.fst).Nodup) (h : (i, a) ∈ stores) :
    plot stores f i = a := by
  induction stores generalizing f with
  | nil => cases h
  | cons s stores ih =>
    rw [List.map_cons, List.nodup_cons] at hnodup
    rcases List.mem_cons.mp h with rfl | h
    · rw [plot_cons, plot_of_not_mem hnodup.1, update_self]
    · exact ih hnodup.2 h

/-- What a memory is after the stores, if no place comes twice. -/
theorem plot_eq_of (hnodup : (stores.map Prod.fst).Nodup)
    (hstored : ∀ s ∈ stores, f' s.1 = s.2) (hkept : ∀ i ∉ stores.map Prod.fst, f' i = f i) :
    f' = plot stores f := by
  funext i
  by_cases h : i ∈ stores.map Prod.fst
  · obtain ⟨s, hs, rfl⟩ := List.mem_map.mp h
    rw [hstored s hs, plot_of_mem hnodup hs]
  · rw [hkept i h, plot_of_not_mem h]

/-- The places of the stores are determined by what they do. -/
theorem plot_places (hne : ∃ a b : α, a ≠ b)
    (h : ∀ f : ι → α, plot stores f = plot stores' f) (i : ι) :
    i ∈ stores.map Prod.fst → i ∈ stores'.map Prod.fst := by
  intro hmem
  by_contra hnot
  obtain ⟨a, b, hne⟩ := hne
  have hconst : plot stores (fun _ => a) i = plot stores (fun _ => b) i := plot_congr hmem
  rw [h, h, plot_of_not_mem hnot, plot_of_not_mem hnot] at hconst
  exact hne hconst

end Plot

section Ways

variable {l : List κ} {f g : κ → ι} {m : ι → Nat}

/-- Numbers that are not above others with the same sum are equal to them. -/
lemma sum_le_and_eq {l : List κ} {a b : κ → Nat} (h : ∀ p ∈ l, a p ≤ b p) :
    (l.map a).sum ≤ (l.map b).sum ∧
      ((l.map a).sum = (l.map b).sum → ∀ p ∈ l, a p = b p) := by
  induction l with
  | nil => exact ⟨Nat.le_refl _, fun _ _ hp => by cases hp⟩
  | cons q l ih =>
    obtain ⟨hle, heq⟩ := ih fun p hp => h p (List.mem_cons_of_mem q hp)
    have hq := h q (.head _)
    rw [List.map_cons, List.map_cons, List.sum_cons, List.sum_cons]
    refine ⟨by omega, fun hsum p hp => ?_⟩
    rcases List.mem_cons.mp hp with rfl | hp
    · omega
    · exact heq (by omega) p hp

/-- A way to place things that never goes beyond another one, which never comes back to a place,
and that uses the same places, is the other one. -/
lemma eq_of_places (hm : ∀ i j, m i = m j → i = j) (hle : ∀ p ∈ l, m (f p) ≤ m (g p))
    (hnodup : (l.map g).Nodup) (hplaces : ∀ i ∈ l.map g, i ∈ l.map f) :
    ∀ p ∈ l, f p = g p := by
  have hsub : (l.map g).Subperm (l.map f) := List.subperm_of_subset hnodup hplaces
  have hperm : (l.map g).Perm (l.map f) :=
    hsub.perm_of_length_le (Nat.le_of_eq (by rw [List.length_map, List.length_map]))
  have hsum : (l.map fun p => m (f p)).sum = (l.map fun p => m (g p)).sum := by
    have hmap := (hperm.map m).sum_nat
    rw [List.map_map, List.map_map] at hmap
    exact hmap.symm
  intro p hp
  exact hm _ _ ((sum_le_and_eq hle).2 hsum p hp)

/-- Two ways to place the same values do the same to every memory exactly if they are equal. -/
theorem plot_eq_iff [DecidableEq ι] (v : κ → α) (hne : ∃ a b : α, a ≠ b)
    (hm : ∀ i j, m i = m j → i = j) (hle : ∀ p ∈ l, m (f p) ≤ m (g p)) (hnodup : (l.map g).Nodup) :
    (∀ memory : ι → α, plot (l.map fun p => (f p, v p)) memory =
      plot (l.map fun p => (g p, v p)) memory) ↔ ∀ p ∈ l, f p = g p := by
  have hfst : ∀ h : κ → ι, (l.map fun p => (h p, v p)).map Prod.fst = l.map h := by
    intro h
    rw [List.map_map]
    rfl
  constructor
  · intro h
    apply eq_of_places hm hle hnodup
    intro i hi
    have hmem := plot_places hne (fun memory => (h memory).symm) i (by rw [hfst]; exact hi)
    rwa [hfst] at hmem
  · intro h memory
    rw [List.map_congr_left fun p hp => by rw [h p hp]]

end Ways

end DiegOS.Lib
