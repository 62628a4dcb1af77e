import Mathlib.Data.List.Basic
import Mathlib.Data.List.Nodup
import Mathlib.Data.List.Range
import Mathlib.Data.Nat.ModEq
import Mathlib.Logic.Function.Basic

/-!
# Circular buffers

Head and tail positions that chase each other around an array.  The positions in
use, from the head up to the tail, form a list without repetitions that grows at
its end and shrinks at its front, wherever the buffer wraps around.

Main results:

- Theorem `Ring.positions_add`: adding uses the tail position.
- Theorem `Ring.positions_remove`: removing gives the head position back.
- Theorem `Ring.positions_nodup`: no position is used twice.
-/

namespace DiegOS.Lib

/-- Positions of the first item and of the first free slot in an array of
`bufsize` slots. -/
@[ext]
structure Ring where
  head : Nat
  tail : Nat
  bufsize : Nat
deriving DecidableEq, Repr

namespace Ring

/-- An empty buffer. -/
def init (buffersize : Nat) : Ring := ⟨0, 0, buffersize⟩

/-- The tail moves on by one slot. -/
def add (r : Ring) : Ring :=
  { r with tail := if r.tail + 1 = r.bufsize then 0 else r.tail + 1 }

/-- The head moves on by one slot. -/
def remove (r : Ring) : Ring :=
  { r with head := if r.head + 1 = r.bufsize then 0 else r.head + 1 }

/-- The tail moves on by `n` slots. -/
def addN (r : Ring) (n : Nat) : Ring :=
  { r with tail := if r.bufsize ≤ r.tail + n then r.tail + n - r.bufsize else r.tail + n }

/-- The head moves on by `n` slots. -/
def removeN (r : Ring) (n : Nat) : Ring :=
  { r with head := if r.bufsize ≤ r.head + n then r.head + n - r.bufsize else r.head + n }

/-- The slots that can still be added. -/
def freeSpace (r : Ring) : Nat :=
  if r.head ≤ r.tail then r.bufsize - r.tail + r.head - 1 else r.head - r.tail - 1

/-- The slots between head and tail. -/
def inUse (r : Ring) : Nat :=
  if r.head ≤ r.tail then r.tail - r.head else r.bufsize - r.head + r.tail

/-- Head and tail meet. -/
def isEmpty (r : Ring) : Bool := r.head = r.tail

/-- The positions from the head up to the tail. -/
def positions (r : Ring) : List Nat :=
  (List.range r.inUse).map fun k => (r.head + k) % r.bufsize

/-- Head and tail lie inside the array. -/
structure Valid (r : Ring) : Prop where
  head_lt : r.head < r.bufsize
  tail_lt : r.tail < r.bufsize

variable {r : Ring}

lemma inUse_of_le (h : r.head ≤ r.tail) : r.inUse = r.tail - r.head := if_pos h

lemma inUse_of_lt (h : ¬r.head ≤ r.tail) : r.inUse = r.bufsize - r.head + r.tail := if_neg h

/-- The slots in use, by whether they wrap around. -/
lemma inUse_cases (r : Ring) :
    r.head ≤ r.tail ∧ r.inUse = r.tail - r.head ∨
      r.tail < r.head ∧ r.inUse = r.bufsize - r.head + r.tail := by
  rcases Nat.lt_or_ge r.tail r.head with hlt | hle
  · exact .inr ⟨hlt, inUse_of_lt (by omega)⟩
  · exact .inl ⟨hle, inUse_of_le hle⟩

lemma freeSpace_of_le (h : r.head ≤ r.tail) :
    r.freeSpace = r.bufsize - r.tail + r.head - 1 := if_pos h

lemma freeSpace_of_lt (h : ¬r.head ≤ r.tail) : r.freeSpace = r.head - r.tail - 1 := if_neg h

lemma addN_tail_of_le {n : Nat} (h : r.bufsize ≤ r.tail + n) :
    (r.addN n).tail = r.tail + n - r.bufsize := if_pos h

lemma addN_tail_of_lt {n : Nat} (h : ¬r.bufsize ≤ r.tail + n) :
    (r.addN n).tail = r.tail + n := if_neg h

lemma removeN_head_of_le {n : Nat} (h : r.bufsize ≤ r.head + n) :
    (r.removeN n).head = r.head + n - r.bufsize := if_pos h

lemma removeN_head_of_lt {n : Nat} (h : ¬r.bufsize ≤ r.head + n) :
    (r.removeN n).head = r.head + n := if_neg h

lemma init_valid {n : Nat} (hn : 0 < n) : (init n).Valid := ⟨hn, hn⟩

section

variable (h : r.Valid)
include h

lemma Valid.inUse_lt : r.inUse < r.bufsize := by
  obtain ⟨hhead, htail⟩ := h
  unfold inUse
  split <;> omega

lemma Valid.freeSpace_eq : r.freeSpace = r.bufsize - 1 - r.inUse := by
  obtain ⟨hhead, htail⟩ := h
  unfold freeSpace inUse
  split <;> omega

lemma Valid.isEmpty_iff : r.isEmpty = true ↔ r.inUse = 0 := by
  obtain ⟨hhead, htail⟩ := h
  unfold isEmpty inUse
  rw [decide_eq_true_iff]
  split <;> omega

lemma Valid.add : r.add.Valid := by
  obtain ⟨hhead, htail⟩ := h
  constructor
  · exact hhead
  · simp only [Ring.add]
    split <;> omega

lemma Valid.remove : r.remove.Valid := by
  obtain ⟨hhead, htail⟩ := h
  constructor
  · simp only [Ring.remove]
    split <;> omega
  · exact htail

lemma Valid.inUse_add (hspace : r.inUse + 1 < r.bufsize) :
    r.add.inUse = r.inUse + 1 := by
  obtain ⟨hhead, htail⟩ := h
  unfold inUse at hspace ⊢
  simp only [Ring.add]
  split_ifs at hspace ⊢ <;> omega

lemma Valid.inUse_remove (huse : r.inUse ≠ 0) :
    r.remove.inUse + 1 = r.inUse := by
  obtain ⟨hhead, htail⟩ := h
  unfold inUse at huse ⊢
  simp only [Ring.remove]
  split_ifs at huse ⊢ <;> omega

/-- One slot is one step of a move by several. -/
lemma Valid.add_eq : r.add = r.addN 1 := by
  have htail := h.tail_lt
  unfold Ring.add addN
  congr 1
  split_ifs <;> omega

lemma Valid.remove_eq : r.remove = r.removeN 1 := by
  have hhead := h.head_lt
  unfold Ring.remove removeN
  congr 1
  split_ifs <;> omega

lemma Valid.addN_zero : r.addN 0 = r := by
  have htail := h.tail_lt
  ext
  · rfl
  · rw [addN_tail_of_lt (by omega), Nat.add_zero]
  · rfl

lemma Valid.removeN_zero : r.removeN 0 = r := by
  have hhead := h.head_lt
  ext
  · rw [removeN_head_of_lt (by omega), Nat.add_zero]
  · rfl
  · rfl

/-- The head after a move, in one formula. -/
lemma Valid.removeN_head {n : Nat} (hn : n < r.bufsize) :
    (r.removeN n).head = (r.head + n) % r.bufsize := by
  have hhead := h.head_lt
  by_cases hwrap : r.bufsize ≤ r.head + n
  · rw [removeN_head_of_le hwrap, Nat.mod_eq_sub_mod hwrap, Nat.mod_eq_of_lt (by omega)]
  · rw [removeN_head_of_lt hwrap, Nat.mod_eq_of_lt (by omega)]

lemma Valid.addN {n : Nat} (hn : n < r.bufsize) : (r.addN n).Valid := by
  obtain ⟨hhead, htail⟩ := h
  constructor
  · exact hhead
  · simp only [Ring.addN]
    split <;> omega

lemma Valid.removeN {n : Nat} (hn : n < r.bufsize) : (r.removeN n).Valid := by
  obtain ⟨hhead, htail⟩ := h
  constructor
  · simp only [Ring.removeN]
    split <;> omega
  · exact htail

lemma Valid.inUse_addN {n : Nat} (hspace : r.inUse + n < r.bufsize) :
    (r.addN n).inUse = r.inUse + n := by
  obtain ⟨hhead, htail⟩ := h
  unfold inUse at hspace ⊢
  simp only [Ring.addN]
  split_ifs at hspace ⊢ <;> omega

lemma Valid.inUse_removeN {n : Nat} (huse : n ≤ r.inUse) :
    (r.removeN n).inUse + n = r.inUse := by
  obtain ⟨hhead, htail⟩ := h
  unfold inUse at huse ⊢
  simp only [Ring.removeN]
  split_ifs at huse ⊢ <;> omega

/-- The tail is one round of the used slots behind the head. -/
lemma Valid.tail_eq : r.tail = (r.head + r.inUse) % r.bufsize := by
  obtain ⟨hhead, htail⟩ := h
  unfold inUse
  split
  · rw [Nat.add_sub_cancel' (by assumption), Nat.mod_eq_of_lt htail]
  · rw [show r.head + (r.bufsize - r.head + r.tail) = r.tail + r.bufsize by omega,
      Nat.add_mod_right, Nat.mod_eq_of_lt htail]

end

lemma positions_length : r.positions.length = r.inUse := by
  simp [positions]

/-- Adding uses the tail position. -/
theorem positions_add (h : r.Valid) (hspace : r.inUse + 1 < r.bufsize) :
    r.add.positions = r.positions ++ [r.tail] := by
  rw [positions, h.inUse_add hspace, List.range_succ, List.map_append, List.map_singleton,
    h.tail_eq]
  rfl

/-- Removing gives the head position back. -/
theorem positions_remove (h : r.Valid) (huse : r.inUse ≠ 0) :
    r.positions = r.head :: r.remove.positions := by
  have hhead := h.head_lt
  rw [positions, ← h.inUse_remove huse, List.range_succ_eq_map, List.map_cons, List.map_map]
  refine congrArg₂ List.cons ?_ ?_
  · rw [Nat.add_zero, Nat.mod_eq_of_lt hhead]
  · refine List.map_congr_left fun k _ => ?_
    have hnext : r.remove.head = (r.head + 1) % r.bufsize := by
      simp only [remove]
      split
      · simp_all
      · rw [Nat.mod_eq_of_lt (by omega)]
    change (r.head + (k + 1)) % r.bufsize = (r.remove.head + k) % r.bufsize
    rw [hnext, Nat.mod_add_mod, Nat.add_assoc, Nat.add_comm 1 k]

/-- No position is used twice. -/
theorem positions_nodup (h : r.Valid) : r.positions.Nodup := by
  have hlt := h.inUse_lt
  refine List.Nodup.map_on (fun j hj k hk heq => ?_) List.nodup_range
  rw [List.mem_range] at hj hk
  have hmod : j % r.bufsize = k % r.bufsize := Nat.ModEq.add_left_cancel rfl heq
  rwa [Nat.mod_eq_of_lt (by omega), Nat.mod_eq_of_lt (by omega)] at hmod

/-- The tail position is not in use. -/
lemma tail_not_mem (h : r.Valid) : r.tail ∉ r.positions := by
  have hlt := h.inUse_lt
  intro hmem
  obtain ⟨k, hk, heq⟩ := List.mem_map.mp hmem
  rw [List.mem_range] at hk
  rw [h.tail_eq] at heq
  have hmod : k % r.bufsize = r.inUse % r.bufsize := Nat.ModEq.add_left_cancel rfl heq
  rw [Nat.mod_eq_of_lt (by omega), Nat.mod_eq_of_lt hlt] at hmod
  omega

lemma positions_init {n : Nat} : (init n).positions = [] := by
  simp [positions, inUse, init]

end Ring

end DiegOS.Lib
