import Mathlib.Order.Lattice

/-!
# Binary search

A window of a sorted array is halved around its middle until it is empty or the middle is
what is looked for.

Main results:

- Theorem `binarySearch_eq_some`: in a strictly sorted window the search finds exactly
  the position of the key.
-/

namespace DiegOS.Lib

variable {α : Type} [LinearOrder α]

/-- Look for a key among `n` values from position `base` on; the first number counts
the rounds that are left. -/
def binarySearch (f : Nat → α) (key : α) : Nat → Nat → Nat → Option Nat
  | 0, _, _ => none
  | rounds + 1, base, n =>
    if n = 0 then none
    else if key = f (base + n / 2) then some (base + n / 2)
    else if f (base + n / 2) < key then
      binarySearch f key rounds (base + n / 2 + 1) ((n - 1) / 2)
    else binarySearch f key rounds base (n / 2)

variable {f : Nat → α} {key : α}

/-- A found position holds the key and lies in the window. -/
lemma binarySearch_sound (rounds : Nat) : ∀ {base n i : Nat},
    binarySearch f key rounds base n = some i → base ≤ i ∧ i < base + n ∧ f i = key := by
  induction rounds with
  | zero =>
    intro base n i h
    contradiction
  | succ rounds ih =>
    intro base n i h
    rw [binarySearch] at h
    split at h
    · contradiction
    · split at h
      · next hkey =>
          cases h
          exact ⟨by omega, by omega, hkey.symm⟩
      · split at h
        · obtain ⟨hle, hlt, hfi⟩ := ih h
          exact ⟨by omega, by omega, hfi⟩
        · obtain ⟨hle, hlt, hfi⟩ := ih h
          exact ⟨hle, by omega, hfi⟩

/-- A key in a strictly sorted window is found where it is. -/
lemma binarySearch_complete (rounds : Nat) : ∀ {base n i : Nat}, n ≤ rounds →
    (∀ j k, base ≤ j → j < k → k < base + n → f j < f k) →
    base ≤ i → i < base + n → f i = key → binarySearch f key rounds base n = some i := by
  induction rounds with
  | zero =>
    intro base n i hn _ hle hlt _
    omega
  | succ rounds ih =>
    intro base n i hn hsorted hle hlt hfi
    rw [binarySearch, if_neg (by omega)]
    subst hfi
    rcases Nat.lt_trichotomy i (base + n / 2) with hlow | rfl | hhigh
    · have hless : f i < f (base + n / 2) := hsorted i _ hle hlow (by omega)
      rw [if_neg (ne_of_lt hless), if_neg (not_lt_of_gt hless)]
      apply ih (by omega) _ hle (by omega) rfl
      intro j k hj hjk hk
      exact hsorted j k hj hjk (by omega)
    · rw [if_pos rfl]
    · have hless : f (base + n / 2) < f i := hsorted _ i (by omega) hhigh hlt
      rw [if_neg (ne_of_gt hless), if_pos hless]
      apply ih (by omega) _ (by omega) (by omega) rfl
      intro j k hj hjk hk
      exact hsorted j k (by omega) hjk (by omega)

theorem binarySearch_eq_some {rounds base n i : Nat} (hn : n ≤ rounds)
    (hsorted : ∀ j k, base ≤ j → j < k → k < base + n → f j < f k) :
    binarySearch f key rounds base n = some i ↔ base ≤ i ∧ i < base + n ∧ f i = key :=
  ⟨binarySearch_sound rounds,
    fun h => binarySearch_complete rounds hn hsorted h.1 h.2.1 h.2.2⟩

end DiegOS.Lib
