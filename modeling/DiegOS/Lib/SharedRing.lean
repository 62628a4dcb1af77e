import DiegOS.Lib.RingBuffer

/-!
# Circular buffers between two parties

Between the two halves of a move of many slots, head or tail may stand one past the last
slot.  A settled buffer has the moved position wrapped around, and the items of the buffer
are the cells of its settled positions.  The producer changes them at their end, the
consumer at their front.

Main results:

- Theorem `Ring.items_moveTail`: moving the tail appends the cells passed.
- Theorem `Ring.items_moveHead`: moving the head drops the cells passed.
- Theorem `Ring.items_store`: free cells may be written.
-/

namespace DiegOS.Lib.Ring

open Function

variable {α : Type}

/-- Positions one past the last slot wrapped around. -/
def settle (r : Ring) : Ring :=
  { r with
    head := if r.head = r.bufsize then 0 else r.head
    tail := if r.tail = r.bufsize then 0 else r.tail }

/-- Head and tail lie inside the array or one past its end. -/
structure Movable (r : Ring) : Prop where
  size_pos : 0 < r.bufsize
  head_le : r.head ≤ r.bufsize
  tail_le : r.tail ≤ r.bufsize

/-- The number of items. -/
def used (r : Ring) : Nat := r.settle.inUse

/-- The number of items that still fit. -/
def room (r : Ring) : Nat := r.bufsize - 1 - r.used

/-- The items from the head up to the tail. -/
def items (r : Ring) (cells : Nat → α) : List α := r.settle.positions.map cells

variable {r : Ring} (cells : Nat → α)

lemma Movable.settle (h : r.Movable) : r.settle.Valid := by
  have hsize := h.size_pos
  have hhead := h.head_le
  have htail := h.tail_le
  constructor
  · simp only [Ring.settle]
    split <;> omega
  · simp only [Ring.settle]
    split <;> omega

lemma Valid.settle_eq (h : r.Valid) : r.settle = r := by
  simp only [settle, if_neg h.head_lt.ne, if_neg h.tail_lt.ne]

lemma items_length : (r.items cells).length = r.used := by
  simp only [items, List.length_map, positions_length, used]

lemma Movable.used_lt (h : r.Movable) : r.used < r.bufsize := h.settle.inUse_lt

/-! ## The producer -/

/-- The tail moved by some slots. -/
def moveTail (r : Ring) (n : Nat) : Ring := { r with tail := r.tail + n }

lemma moveTail_zero : r.moveTail 0 = r := rfl

lemma Movable.moveTail (h : r.Movable) {n : Nat} (hend : r.tail + n ≤ r.bufsize) :
    (r.moveTail n).Movable := ⟨h.size_pos, h.head_le, hend⟩

lemma settle_moveTail {n : Nat} (hend : r.tail + n < r.bufsize) :
    (r.moveTail n).settle = { r.settle with tail := r.tail + n } :=
  congrArg (fun tail => Ring.mk r.settle.head tail r.bufsize) (if_neg hend.ne)

lemma settle_moveTail_succ {n : Nat} (hend : r.tail + (n + 1) ≤ r.bufsize) :
    (r.moveTail (n + 1)).settle = (r.moveTail n).settle.add := by
  rw [settle_moveTail (n := n) (by omega)]
  rfl

/-- A tail past the end comes around. -/
lemma settle_wrapTail (h : r.tail = r.bufsize) :
    ({ r with tail := 0 } : Ring).settle = r.settle := by
  have htail : (if r.tail = r.bufsize then 0 else r.tail) = 0 := if_pos h
  have hzero : (if 0 = r.bufsize then 0 else 0) = 0 := ite_self 0
  exact congrArg (fun tail => Ring.mk r.settle.head tail r.bufsize) (hzero.trans htail.symm)

lemma Movable.used_moveTail (h : r.Movable) {n : Nat} (hend : r.tail + n ≤ r.bufsize)
    (hroom : n ≤ r.room) : (r.moveTail n).used = r.used + n := by
  induction n with
  | zero => rfl
  | succ n ih =>
    have hlt := h.used_lt
    have hbefore := ih (by omega) (by omega)
    unfold room at hroom
    rw [used, settle_moveTail_succ hend, (h.moveTail (by omega)).settle.inUse_add]
    · change (r.moveTail n).used + 1 = _
      omega
    · change (r.moveTail n).used + 1 < r.bufsize
      omega

/-- Moving the tail appends the cells passed. -/
theorem items_moveTail (h : r.Movable) {n : Nat} (hend : r.tail + n ≤ r.bufsize)
    (hroom : n ≤ r.room) :
    (r.moveTail n).items cells =
      r.items cells ++ (List.range n).map fun k => cells (r.tail + k) := by
  induction n with
  | zero => simp [moveTail_zero]
  | succ n ih =>
    have hlt := h.used_lt
    have hfit : n ≤ r.room := by omega
    have hused := h.used_moveTail (n := n) (by omega) hfit
    have htail : (r.moveTail n).settle.tail = r.tail + n := by
      rw [settle_moveTail (by omega)]
    unfold room at hroom
    have hspace : (r.moveTail n).settle.inUse + 1 < (r.moveTail n).settle.bufsize := by
      change (r.moveTail n).used + 1 < r.bufsize
      omega
    rw [items, settle_moveTail_succ hend, positions_add (h.moveTail (by omega)).settle hspace,
      List.map_append, htail, List.range_succ, List.map_append, ← List.append_assoc]
    exact congrArg₂ (· ++ ·) (ih (by omega) hfit) rfl

/-- Free cells may be written. -/
theorem items_store [DecidableEq Nat] (h : r.Movable) {j : Nat} (hend : r.tail + j < r.bufsize)
    (hroom : j < r.room) (v : α) :
    r.items (update cells (r.tail + j) v) = r.items cells := by
  refine List.map_congr_left fun p hp => update_of_ne ?_ v cells
  intro hsame
  have hmoved := h.moveTail (n := j + 1) (by omega)
  have hnodup := positions_nodup hmoved.settle
  have hsplit := items_moveTail id h (n := j + 1) (by omega) (by omega)
  simp only [items, List.map_id] at hsplit
  rw [hsplit] at hnodup
  refine (List.disjoint_of_nodup_append hnodup) hp ?_
  exact List.mem_map.mpr ⟨j, List.mem_range.mpr (Nat.lt_succ_self j), hsame.symm⟩

/-! ## The consumer -/

/-- The head moved by some slots. -/
def moveHead (r : Ring) (n : Nat) : Ring := { r with head := r.head + n }

lemma moveHead_zero : r.moveHead 0 = r := rfl

lemma Movable.moveHead (h : r.Movable) {n : Nat} (hend : r.head + n ≤ r.bufsize) :
    (r.moveHead n).Movable := ⟨h.size_pos, hend, h.tail_le⟩

lemma settle_moveHead {n : Nat} (hend : r.head + n < r.bufsize) :
    (r.moveHead n).settle = { r.settle with head := r.head + n } :=
  congrArg (fun head => Ring.mk head r.settle.tail r.bufsize) (if_neg hend.ne)

lemma settle_moveHead_succ {n : Nat} (hend : r.head + (n + 1) ≤ r.bufsize) :
    (r.moveHead (n + 1)).settle = (r.moveHead n).settle.remove := by
  rw [settle_moveHead (n := n) (by omega)]
  rfl

/-- A head past the end comes around. -/
lemma settle_wrapHead (h : r.head = r.bufsize) :
    ({ r with head := 0 } : Ring).settle = r.settle := by
  have hhead : (if r.head = r.bufsize then 0 else r.head) = 0 := if_pos h
  have hzero : (if 0 = r.bufsize then 0 else 0) = 0 := ite_self 0
  exact congrArg (fun head => Ring.mk head r.settle.tail r.bufsize) (hzero.trans hhead.symm)

variable (h : r.Movable)
include h

lemma Movable.used_moveHead {n : Nat} (hend : r.head + n ≤ r.bufsize)
    (hused : n ≤ r.used) : (r.moveHead n).used + n = r.used := by
  induction n with
  | zero => rfl
  | succ n ih =>
    have hbefore := ih (by omega) (by omega)
    have hstep := (h.moveHead (n := n) (by omega)).settle.inUse_remove (by
      change (r.moveHead n).used ≠ 0
      omega)
    rw [← settle_moveHead_succ hend] at hstep
    change (r.moveHead (n + 1)).used + 1 = (r.moveHead n).used at hstep
    omega

/-- Moving the head drops the cells passed. -/
theorem items_moveHead {n : Nat} (hend : r.head + n ≤ r.bufsize)
    (hused : n ≤ r.used) :
    r.items cells =
      ((List.range n).map fun k => cells (r.head + k)) ++ (r.moveHead n).items cells := by
  induction n with
  | zero => simp [moveHead_zero]
  | succ n ih =>
    have hleft := h.used_moveHead (n := n) (by omega) (by omega)
    have hhead : (r.moveHead n).settle.head = r.head + n := by
      rw [settle_moveHead (by omega)]
    have hfirst := positions_remove (h.moveHead (n := n) (by omega)).settle (by
      change (r.moveHead n).used ≠ 0
      omega)
    rw [ih (by omega) (by omega), List.range_succ, List.map_append, List.append_assoc]
    refine congrArg _ ?_
    rw [items, hfirst, hhead, ← settle_moveHead_succ hend]
    rfl

/-- The first items lie from the head on. -/
lemma items_take {n : Nat} (hend : r.head + n ≤ r.bufsize)
    (hused : n ≤ r.used) :
    (r.items cells).take n = (List.range n).map fun k => cells (r.head + k) := by
  rw [items_moveHead cells h hend hused, List.take_append_of_le_length (by simp),
    List.take_of_length_le]
  simp

/-! ## Single slots -/

lemma settle_add : r.add.settle = (r.moveTail 1).settle := by
  have hadd : r.add.settle.tail = (r.moveTail 1).settle.tail := by
    change (if (if r.tail + 1 = r.bufsize then 0 else r.tail + 1) = r.bufsize then 0
      else (if r.tail + 1 = r.bufsize then 0 else r.tail + 1)) =
        if r.tail + 1 = r.bufsize then 0 else r.tail + 1
    have hsize := h.size_pos
    split_ifs <;> omega
  exact congrArg (fun tail => Ring.mk r.settle.head tail r.bufsize) hadd

lemma settle_remove : r.remove.settle = (r.moveHead 1).settle := by
  have hremove : r.remove.settle.head = (r.moveHead 1).settle.head := by
    change (if (if r.head + 1 = r.bufsize then 0 else r.head + 1) = r.bufsize then 0
      else (if r.head + 1 = r.bufsize then 0 else r.head + 1)) =
        if r.head + 1 = r.bufsize then 0 else r.head + 1
    have hsize := h.size_pos
    split_ifs <;> omega
  exact congrArg (fun head => Ring.mk head r.settle.tail r.bufsize) hremove

/-- A stored item is appended. -/
lemma items_add (htail : r.tail < r.bufsize) (hroom : 0 < r.room) (v : α) :
    r.add.items (update cells r.tail v) = r.items cells ++ [v] := by
  have hmove := items_moveTail (update cells r.tail v) h (n := 1) (by omega)
    (by omega)
  have hstore := items_store cells h (j := 0) (by omega) hroom v
  rw [Nat.add_zero] at hstore
  rw [hstore] at hmove
  rw [items, settle_add h]
  refine hmove.trans ?_
  simp

/-- The first item is removed. -/
lemma items_remove (hhead : r.head < r.bufsize) (hused : 0 < r.used) :
    r.items cells = cells r.head :: r.remove.items cells := by
  rw [items_moveHead cells h (n := 1) (by omega) hused, items, items,
    settle_remove h]
  simp

end DiegOS.Lib.Ring
