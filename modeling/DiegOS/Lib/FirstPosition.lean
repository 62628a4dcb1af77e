import Mathlib.Data.List.Basic

/-!
# First positions

The first number with a property, or that there is none, as searches report it.

Main results:

- Theorem `FirstAt.iff_of_imp`: a search for a weaker property finds the first number with
  the stronger one exactly if nothing in front of it passes for it.
-/

namespace DiegOS.Lib

/-- The first number with a property, or `none` if there is none. -/
def FirstAt (P : Nat → Prop) : Option Nat → Prop
  | some j => P j ∧ ∀ i < j, ¬P i
  | none => ∀ i, ¬P i

namespace FirstAt

variable {P Q : Nat → Prop} {r r' : Option Nat}

/-- The number zero. -/
lemma zero (h : P 0) : FirstAt P (some 0) :=
  ⟨h, fun i hi => absurd hi (Nat.not_lt_zero i)⟩

/-- Zero does not have the property. -/
lemma succ (h : FirstAt (fun j => P (j + 1)) r) (hzero : ¬P 0) :
    FirstAt P (r.map (· + 1)) := by
  match r with
  | none =>
    intro i
    cases i with
    | zero => exact hzero
    | succ i => exact h i
  | some j =>
    refine ⟨h.1, fun i hi => ?_⟩
    cases i with
    | zero => exact hzero
    | succ i => exact h.2 i (Nat.lt_of_succ_lt_succ hi)

/-- A search for a weaker property. -/
theorem iff_of_imp (h : FirstAt P r) (himp : ∀ j, Q j → P j) :
    FirstAt Q r ↔ ∀ j, P j → ∃ i ≤ j, Q i := by
  match r with
  | none =>
    constructor
    · exact fun _ j hj => absurd hj (h j)
    · exact fun _ j hj => h j (himp j hj)
  | some k =>
    constructor
    · intro hk j hj
      have hkj : ¬j < k := fun hlt => h.2 j hlt hj
      exact ⟨k, by omega, hk.1⟩
    · intro hall
      obtain ⟨i, hik, hi⟩ := hall k h.1
      have hki : ¬i < k := fun hlt => h.2 i hlt (himp i hi)
      have heq : i = k := by omega
      exact ⟨heq ▸ hi, fun j hj hq => h.2 j hj (himp j hq)⟩

end FirstAt

end DiegOS.Lib
