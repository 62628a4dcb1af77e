import Mathlib.Tactic.Common
import DiegOS.Lib.RingBuffer
import DiegOS.Lib.Runs

/-!
# Circular buffer counters

`cbuffers.h`: head and tail are `unsigned`, and every sum and difference is taken
modulo their size.  A run of additions and removals is compared with the number of elements
that it stores.

Main results:

- Theorem `Cbuffer.ring_addN`, `Cbuffer.ring_removeN`: without an overflow the
  counters move as the positions of a ring.
- Theorem `counters_right_iff`: the runs whose counters are right throughout.
-/

namespace DiegOS.Support

open Lib

/-- `struct cbuffer` -/
structure Cbuffer where
  head : UInt32
  tail : UInt32
  bufsize : UInt32
deriving DecidableEq, Repr

namespace Cbuffer

/-- `cbuffer_init` -/
def init (buffersize : UInt32) : Cbuffer := ⟨0, 0, buffersize⟩

/-- `cbuffer_add` -/
def add (cbuf : Cbuffer) : Cbuffer :=
  if cbuf.tail + 1 = cbuf.bufsize then { cbuf with tail := 0 }
  else { cbuf with tail := cbuf.tail + 1 }

/-- `cbuffer_remove` -/
def remove (cbuf : Cbuffer) : Cbuffer :=
  if cbuf.head + 1 = cbuf.bufsize then { cbuf with head := 0 }
  else { cbuf with head := cbuf.head + 1 }

/-- `cbuffer_add_n` -/
def addN (cbuf : Cbuffer) (n : UInt32) : Cbuffer :=
  if cbuf.bufsize ≤ cbuf.tail + n then { cbuf with tail := cbuf.tail + n - cbuf.bufsize }
  else { cbuf with tail := cbuf.tail + n }

/-- `cbuffer_remove_n` -/
def removeN (cbuf : Cbuffer) (n : UInt32) : Cbuffer :=
  if cbuf.bufsize ≤ cbuf.head + n then { cbuf with head := cbuf.head + n - cbuf.bufsize }
  else { cbuf with head := cbuf.head + n }

/-- `cbuffer_free_space` -/
def freeSpace (cbuf : Cbuffer) : UInt32 :=
  if cbuf.head ≤ cbuf.tail then cbuf.bufsize - cbuf.tail + cbuf.head - 1
  else cbuf.head - cbuf.tail - 1

/-- `cbuffer_in_use` -/
def inUse (cbuf : Cbuffer) : UInt32 :=
  if cbuf.head ≤ cbuf.tail then cbuf.tail - cbuf.head
  else cbuf.bufsize - cbuf.head + cbuf.tail

/-- `cbuffer_is_full`, which compares with 1. -/
def isFull (cbuf : Cbuffer) : Bool := cbuf.freeSpace = 1

/-- `cbuffer_is_empty` -/
def isEmpty (cbuf : Cbuffer) : Bool := cbuf.head = cbuf.tail

/-- The positions as numbers. -/
def ring (cbuf : Cbuffer) : Ring := ⟨cbuf.head.toNat, cbuf.tail.toNat, cbuf.bufsize.toNat⟩

variable {cbuf : Cbuffer} {n : UInt32}

/-! ## The counters as positions of a ring -/

lemma inUse_toNat (h : cbuf.ring.Valid) : cbuf.inUse.toNat = cbuf.ring.inUse := by
  obtain ⟨hhead, htail⟩ := h
  have hsize := cbuf.bufsize.toNat_lt
  simp only [ring] at hhead htail
  by_cases hle : cbuf.head.toNat ≤ cbuf.tail.toNat
  · rw [Ring.inUse_of_le hle, inUse, if_pos (UInt32.le_iff_toNat_le.mpr hle), UInt32.toNat_sub]
    simp only [ring]
    omega
  · rw [Ring.inUse_of_lt hle, inUse, if_neg (mt UInt32.le_iff_toNat_le.mp hle),
      UInt32.toNat_add, UInt32.toNat_sub]
    simp only [ring]
    omega

lemma freeSpace_toNat (h : cbuf.ring.Valid) : cbuf.freeSpace.toNat = cbuf.ring.freeSpace := by
  obtain ⟨hhead, htail⟩ := h
  have hsize := cbuf.bufsize.toNat_lt
  simp only [ring] at hhead htail
  by_cases hle : cbuf.head.toNat ≤ cbuf.tail.toNat
  · rw [Ring.freeSpace_of_le hle, freeSpace, if_pos (UInt32.le_iff_toNat_le.mpr hle),
      UInt32.toNat_sub, UInt32.toNat_add, UInt32.toNat_sub, UInt32.toNat_one]
    simp only [ring]
    omega
  · rw [Ring.freeSpace_of_lt hle, freeSpace, if_neg (mt UInt32.le_iff_toNat_le.mp hle),
      UInt32.toNat_sub, UInt32.toNat_sub, UInt32.toNat_one]
    simp only [ring]
    omega

lemma isEmpty_iff (h : cbuf.ring.Valid) : cbuf.isEmpty = true ↔ cbuf.inUse.toNat = 0 := by
  rw [inUse_toNat h, ← h.isEmpty_iff]
  simp only [isEmpty, Ring.isEmpty, ring, decide_eq_true_iff, UInt32.toNat_inj]

lemma isFull_iff : cbuf.isFull = true ↔ cbuf.freeSpace.toNat = 1 := by
  rw [isFull, decide_eq_true_iff, ← UInt32.toNat_inj, UInt32.toNat_one]

/-- Without an overflow the tail moves as that of a ring. -/
theorem ring_addN (htail : cbuf.tail.toNat < cbuf.bufsize.toNat)
    (hn : cbuf.tail.toNat + n.toNat < UInt32.size) :
    (cbuf.addN n).ring = cbuf.ring.addN n.toNat := by
  have hsum : (cbuf.tail + n).toNat = cbuf.tail.toNat + n.toNat := by
    rw [UInt32.toNat_add]
    exact Nat.mod_eq_of_lt hn
  have hsize := cbuf.bufsize.toNat_lt
  simp only [UInt32.size] at hn
  by_cases hwrap : cbuf.bufsize.toNat ≤ cbuf.tail.toNat + n.toNat
  · have hdiff : (cbuf.tail + n - cbuf.bufsize).toNat =
        cbuf.tail.toNat + n.toNat - cbuf.bufsize.toNat := by
      rw [UInt32.toNat_sub, hsum]
      omega
    rw [addN, if_pos (UInt32.le_iff_toNat_le.mpr (by rwa [hsum]))]
    ext
    · rfl
    · rw [Ring.addN_tail_of_le hwrap]
      exact hdiff
    · rfl
  · rw [addN, if_neg (mt UInt32.le_iff_toNat_le.mp (by rwa [hsum]))]
    ext
    · rfl
    · rw [Ring.addN_tail_of_lt hwrap]
      exact hsum
    · rfl

/-- Without an overflow the head moves as that of a ring. -/
theorem ring_removeN (hhead : cbuf.head.toNat < cbuf.bufsize.toNat)
    (hn : cbuf.head.toNat + n.toNat < UInt32.size) :
    (cbuf.removeN n).ring = cbuf.ring.removeN n.toNat := by
  have hsum : (cbuf.head + n).toNat = cbuf.head.toNat + n.toNat := by
    rw [UInt32.toNat_add]
    exact Nat.mod_eq_of_lt hn
  have hsize := cbuf.bufsize.toNat_lt
  simp only [UInt32.size] at hn
  by_cases hwrap : cbuf.bufsize.toNat ≤ cbuf.head.toNat + n.toNat
  · have hdiff : (cbuf.head + n - cbuf.bufsize).toNat =
        cbuf.head.toNat + n.toNat - cbuf.bufsize.toNat := by
      rw [UInt32.toNat_sub, hsum]
      omega
    rw [removeN, if_pos (UInt32.le_iff_toNat_le.mpr (by rwa [hsum]))]
    ext
    · rw [Ring.removeN_head_of_le hwrap]
      exact hdiff
    · rfl
    · rfl
  · rw [removeN, if_neg (mt UInt32.le_iff_toNat_le.mp (by rwa [hsum]))]
    ext
    · rw [Ring.removeN_head_of_lt hwrap]
      exact hsum
    · rfl
    · rfl

lemma ring_add (htail : cbuf.tail < cbuf.bufsize) : cbuf.add.ring = cbuf.ring.add := by
  rw [UInt32.lt_iff_toNat_lt] at htail
  have hsize := cbuf.bufsize.toNat_lt
  have hsum : (cbuf.tail + 1).toNat = cbuf.tail.toNat + 1 := by
    rw [UInt32.toNat_add, UInt32.toNat_one]
    omega
  by_cases hwrap : cbuf.tail.toNat + 1 = cbuf.bufsize.toNat
  · rw [add, if_pos (UInt32.toNat_inj.mp (hsum.trans hwrap))]
    ext
    · rfl
    · exact (if_pos hwrap).symm
    · rfl
  · rw [add, if_neg (fun heq => hwrap (hsum.symm.trans (congrArg UInt32.toNat heq)))]
    ext
    · rfl
    · exact hsum.trans (if_neg hwrap).symm
    · rfl

lemma ring_remove (hhead : cbuf.head < cbuf.bufsize) : cbuf.remove.ring = cbuf.ring.remove := by
  rw [UInt32.lt_iff_toNat_lt] at hhead
  have hsize := cbuf.bufsize.toNat_lt
  have hsum : (cbuf.head + 1).toNat = cbuf.head.toNat + 1 := by
    rw [UInt32.toNat_add, UInt32.toNat_one]
    omega
  by_cases hwrap : cbuf.head.toNat + 1 = cbuf.bufsize.toNat
  · rw [remove, if_pos (UInt32.toNat_inj.mp (hsum.trans hwrap))]
    ext
    · exact (if_pos hwrap).symm
    · rfl
    · rfl
  · rw [remove, if_neg (fun heq => hwrap (hsum.symm.trans (congrArg UInt32.toNat heq)))]
    ext
    · exact hsum.trans (if_neg hwrap).symm
    · rfl
    · rfl

lemma add_head : cbuf.add.head = cbuf.head := by
  unfold add
  split <;> rfl

end Cbuffer

/-! ## Runs -/

/-- Calls that move the counters. -/
inductive CbufferOp where
  | add
  | remove
  | addN (n : UInt32)
  | removeN (n : UInt32)
deriving DecidableEq, Repr

/-- The elements a call adds. -/
def CbufferOp.added : CbufferOp → Nat
  | .add => 1
  | .remove => 0
  | .addN n => n.toNat
  | .removeN _ => 0

/-- The elements a call removes. -/
def CbufferOp.removed : CbufferOp → Nat
  | .add => 0
  | .remove => 1
  | .addN _ => 0
  | .removeN n => n.toNat

/-- A buffer with the numbers of elements added and removed so far. -/
structure Counted where
  cbuf : Cbuffer
  adds : Nat
  removes : Nat
deriving DecidableEq, Repr

namespace Counted

/-- A buffer after `cbuffer_init`. -/
def init (buffersize : UInt32) : Counted := ⟨.init buffersize, 0, 0⟩

/-- The counters after a call. -/
def moved (cbuf : Cbuffer) : CbufferOp → Cbuffer
  | .add => cbuf.add
  | .remove => cbuf.remove
  | .addN n => cbuf.addN n
  | .removeN n => cbuf.removeN n

/-- One call. -/
def exec (s : Counted) (op : CbufferOp) : Counted :=
  ⟨moved s.cbuf op, s.adds + op.added, s.removes + op.removed⟩

/-- A call that adds no more than there is room for and removes no more than is stored. -/
def Respects (s : Counted) (op : CbufferOp) : Prop :=
  s.adds + op.added < s.removes + s.cbuf.bufsize.toNat ∧ s.removes + op.removed ≤ s.adds

instance (s : Counted) (op : CbufferOp) : Decidable (s.Respects op) :=
  inferInstanceAs (Decidable (_ ∧ _))

/-- What the counters and their predicates say of the elements stored. -/
structure Right (s : Counted) : Prop where
  head_lt : s.cbuf.head < s.cbuf.bufsize
  tail_lt : s.cbuf.tail < s.cbuf.bufsize
  sum : s.cbuf.inUse.toNat + s.cbuf.freeSpace.toNat = s.cbuf.bufsize.toNat - 1
  inUse_eq : s.cbuf.inUse.toNat + s.removes = s.adds
  isEmpty_iff : s.cbuf.isEmpty = true ↔ s.cbuf.inUse = 0
  isFull_iff : s.cbuf.isFull = true ↔ s.cbuf.freeSpace = 0
  wrapped_iff : s.cbuf.isFull = true ↔ s.cbuf.add.tail = s.cbuf.head
  room_iff : s.cbuf.isFull = false ↔ s.adds + 1 < s.removes + s.cbuf.bufsize.toNat

/-- A call that leaves two slots free and whose sum does not overflow. -/
def Spare (s : Counted) (op : CbufferOp) : Prop :=
  s.adds + op.added + 2 < s.removes + s.cbuf.bufsize.toNat ∧
    s.adds % s.cbuf.bufsize.toNat + op.added < UInt32.size ∧
    s.removes % s.cbuf.bufsize.toNat + op.removed < UInt32.size

instance (s : Counted) (op : CbufferOp) : Decidable (s.Spare op) :=
  inferInstanceAs (Decidable (_ ∧ _ ∧ _))

/-- The counters are the numbers of elements, wrapped around, with two slots free. -/
structure Kept (s : Counted) : Prop where
  valid : s.cbuf.ring.Valid
  inUse_eq : s.cbuf.ring.inUse + s.removes = s.adds
  head_eq : s.cbuf.head.toNat = s.removes % s.cbuf.bufsize.toNat
  spare : s.adds + 2 < s.removes + s.cbuf.bufsize.toNat

variable {s : Counted} {op : CbufferOp} {n : UInt32}

lemma Kept.tail_eq (h : s.Kept) : s.cbuf.tail.toNat = s.adds % s.cbuf.bufsize.toNat := by
  calc
    s.cbuf.tail.toNat = (s.cbuf.head.toNat + s.cbuf.ring.inUse) % s.cbuf.bufsize.toNat :=
      h.valid.tail_eq
    _ = s.adds % s.cbuf.bufsize.toNat := by
      rw [h.head_eq, Nat.mod_add_mod, Nat.add_comm, h.inUse_eq]

/-- A buffer with two slots free is right in all respects. -/
lemma Kept.right (h : s.Kept) : s.Right := by
  have huse := Cbuffer.inUse_toNat h.valid
  have hfree := Cbuffer.freeSpace_toNat h.valid
  have hcount := h.inUse_eq
  have hspare := h.spare
  have hlt := h.valid.inUse_lt
  rw [h.valid.freeSpace_eq] at hfree
  have hsize : s.cbuf.ring.bufsize = s.cbuf.bufsize.toNat := rfl
  have hnot : s.cbuf.isFull = false := by
    rw [← Bool.not_eq_true, Cbuffer.isFull_iff]
    omega
  constructor
  · exact UInt32.lt_iff_toNat_lt.mpr h.valid.head_lt
  · exact UInt32.lt_iff_toNat_lt.mpr h.valid.tail_lt
  · omega
  · omega
  · rw [Cbuffer.isEmpty_iff h.valid, ← UInt32.toNat_inj, UInt32.toNat_zero]
  · rw [hnot, ← UInt32.toNat_inj, UInt32.toNat_zero]
    simp only [Bool.false_eq_true, false_iff]
    omega
  · rw [hnot]
    simp only [Bool.false_eq_true, false_iff]
    intro heq
    have hring := Cbuffer.ring_add (UInt32.lt_iff_toNat_lt.mpr h.valid.tail_lt)
    have hnext := h.valid.add
    rw [← hring] at hnext
    have hzero : s.cbuf.add.inUse.toNat = 0 := by
      rw [← Cbuffer.isEmpty_iff hnext, Cbuffer.isEmpty, heq, Cbuffer.add_head]
      exact decide_eq_true rfl
    rw [Cbuffer.inUse_toNat hnext, hring, h.valid.inUse_add (by omega)] at hzero
    omega
  · rw [hnot]
    simp only [true_iff]
    omega

/-- The sum of a call does not overflow. -/
def Fits (cbuf : Cbuffer) (op : CbufferOp) : Prop :=
  cbuf.tail.toNat + op.added < UInt32.size ∧ cbuf.head.toNat + op.removed < UInt32.size

/-- What a call does to the positions. -/
lemma ring_moved {cbuf : Cbuffer} (h : cbuf.ring.Valid) (hfits : Fits cbuf op)
    (hadd : op.added < cbuf.bufsize.toNat) :
    (moved cbuf op).ring = (cbuf.ring.addN op.added).removeN op.removed := by
  have htail := h.tail_lt
  have hhead := h.head_lt
  have hnext : (cbuf.ring.addN op.added).Valid := h.addN hadd
  cases op with
  | add =>
    exact (Cbuffer.ring_add (UInt32.lt_iff_toNat_lt.mpr htail)).trans
      (h.add_eq.trans hnext.removeN_zero.symm)
  | remove =>
    rw [CbufferOp.added, h.addN_zero]
    exact (Cbuffer.ring_remove (UInt32.lt_iff_toNat_lt.mpr hhead)).trans h.remove_eq
  | addN n => exact (Cbuffer.ring_addN htail hfits.1).trans hnext.removeN_zero.symm
  | removeN n =>
    rw [CbufferOp.added, h.addN_zero]
    exact Cbuffer.ring_removeN hhead hfits.2

/-- A call never changes the size. -/
lemma moved_bufsize (cbuf : Cbuffer) (op : CbufferOp) :
    (moved cbuf op).bufsize = cbuf.bufsize := by
  cases op with
  | add => simp only [moved, Cbuffer.add]; split <;> rfl
  | remove => simp only [moved, Cbuffer.remove]; split <;> rfl
  | addN n => simp only [moved, Cbuffer.addN]; split <;> rfl
  | removeN n => simp only [moved, Cbuffer.removeN]; split <;> rfl

/-- The step lemma: a call that leaves two slots free keeps the counters. -/
lemma Kept.step (h : s.Kept) (hok : s.Respects op) (hspare : s.Spare op) :
    (s.exec op).Kept := by
  obtain ⟨hroom, htaken⟩ := hok
  obtain ⟨hfree, htail, hhead⟩ := hspare
  rw [← h.tail_eq] at htail
  rw [← h.head_eq] at hhead
  have hcount := h.inUse_eq
  have hsize : s.cbuf.ring.bufsize = s.cbuf.bufsize.toNat := rfl
  have hadd : op.added < s.cbuf.ring.bufsize := by omega
  have hring := ring_moved h.valid ⟨htail, hhead⟩ hadd
  have hadded := h.valid.addN hadd
  have huse : (s.cbuf.ring.addN op.added).inUse = s.cbuf.ring.inUse + op.added :=
    h.valid.inUse_addN (by omega)
  have hrest := hadded.inUse_removeN (n := op.removed) (by omega)
  have hbuf := moved_bufsize s.cbuf op
  constructor
  · change (moved s.cbuf op).ring.Valid
    rw [hring]
    apply hadded.removeN
    have hlt := hadded.inUse_lt
    omega
  · change (moved s.cbuf op).ring.inUse + _ = s.adds + op.added
    rw [hring]
    simp only [exec]
    omega
  · have hhead' : (moved s.cbuf op).ring.head =
        (s.cbuf.ring.head + op.removed) % s.cbuf.bufsize.toNat := by
      rw [hring]
      exact hadded.removeN_head (by have hlt := hadded.inUse_lt; omega)
    refine hhead'.trans ?_
    change (s.cbuf.head.toNat + op.removed) % _ =
      (s.removes + op.removed) % (moved s.cbuf op).bufsize.toNat
    rw [h.head_eq, Nat.mod_add_mod, hbuf]
  · simp only [exec, hbuf]
    omega

/-- A move of the tail that overflows leaves it short of its place. -/
lemma overflow_tail {cbuf : Cbuffer} (h : cbuf.ring.Valid)
    (hover : UInt32.size ≤ cbuf.tail.toNat + n.toNat)
    (hroom : cbuf.ring.inUse + n.toNat < cbuf.bufsize.toNat) :
    (cbuf.addN n).inUse.toNat ≠ cbuf.ring.inUse + n.toNat := by
  obtain ⟨hhead, htail⟩ := h
  have hsize := cbuf.bufsize.toNat_lt
  have hn := n.toNat_lt
  simp only [UInt32.size] at hover
  simp only [Cbuffer.ring] at hhead htail
  have hsum : (cbuf.tail + n).toNat = cbuf.tail.toNat + n.toNat - 4294967296 := by
    rw [UInt32.toNat_add]
    omega
  have hmoved : (cbuf.addN n).ring =
      ⟨cbuf.head.toNat, cbuf.tail.toNat + n.toNat - 4294967296, cbuf.bufsize.toNat⟩ := by
    rw [Cbuffer.addN, if_neg (by rw [UInt32.le_iff_toNat_le, hsum]; omega)]
    ext
    · rfl
    · exact hsum
    · rfl
  have hvalid : (cbuf.addN n).ring.Valid := by
    rw [hmoved]
    exact ⟨hhead, by simp only; omega⟩
  have hbefore := cbuf.ring.inUse_cases
  have hafter := (cbuf.addN n).ring.inUse_cases
  rw [Cbuffer.inUse_toNat hvalid]
  rw [hmoved] at hafter ⊢
  simp only [Cbuffer.ring] at hbefore hafter hroom ⊢
  omega

/-- A move of the head that overflows leaves it short of its place. -/
lemma overflow_head {cbuf : Cbuffer} (h : cbuf.ring.Valid)
    (hover : UInt32.size ≤ cbuf.head.toNat + n.toNat) (hstored : n.toNat ≤ cbuf.ring.inUse) :
    (cbuf.removeN n).inUse.toNat + n.toNat ≠ cbuf.ring.inUse := by
  obtain ⟨hhead, htail⟩ := h
  have hsize := cbuf.bufsize.toNat_lt
  have hn := n.toNat_lt
  simp only [UInt32.size] at hover
  simp only [Cbuffer.ring] at hhead htail
  have hsum : (cbuf.head + n).toNat = cbuf.head.toNat + n.toNat - 4294967296 := by
    rw [UInt32.toNat_add]
    omega
  have hmoved : (cbuf.removeN n).ring =
      ⟨cbuf.head.toNat + n.toNat - 4294967296, cbuf.tail.toNat, cbuf.bufsize.toNat⟩ := by
    rw [Cbuffer.removeN, if_neg (by rw [UInt32.le_iff_toNat_le, hsum]; omega)]
    ext
    · exact hsum
    · rfl
    · rfl
  have hvalid : (cbuf.removeN n).ring.Valid := by
    rw [hmoved]
    exact ⟨by simp only; omega, htail⟩
  have hbefore := cbuf.ring.inUse_cases
  have hafter := (cbuf.removeN n).ring.inUse_cases
  rw [Cbuffer.inUse_toNat hvalid]
  rw [hmoved] at hafter ⊢
  simp only [Cbuffer.ring] at hbefore hafter hstored ⊢
  omega

/-- Counters that are right after a call that fits have two slots free. -/
lemma Right.spare (h : s.Right) : s.adds + 2 < s.removes + s.cbuf.bufsize.toNat := by
  have hfull := h.isFull_iff
  rw [Cbuffer.isFull_iff, ← UInt32.toNat_inj, UInt32.toNat_zero] at hfull
  have hsum := h.sum
  have hcount := h.inUse_eq
  have htail := UInt32.lt_iff_toNat_lt.mp h.tail_lt
  omega

/-- Right counters after a call need two slots free and no overflow. -/
lemma Kept.spare_of_right (h : s.Kept) (hok : s.Respects op) (hright : (s.exec op).Right) :
    s.Spare op := by
  have hbefore := h.spare
  have hafter := hright.spare
  have hcount := h.inUse_eq
  have hnext := hright.inUse_eq
  obtain ⟨hroom, htaken⟩ := hok
  simp only [exec, moved_bufsize] at hafter hnext
  have htail := h.valid.tail_lt
  have hhead := h.valid.head_lt
  have hsize := s.cbuf.bufsize.toNat_lt
  simp only [Cbuffer.ring] at htail hhead
  rw [Spare, ← h.tail_eq, ← h.head_eq]
  simp only [UInt32.size]
  cases op with
  | add =>
    simp only [CbufferOp.added, CbufferOp.removed] at hafter hroom ⊢
    omega
  | remove =>
    simp only [CbufferOp.added, CbufferOp.removed] at hroom ⊢
    omega
  | addN n =>
    simp only [CbufferOp.added, CbufferOp.removed, moved] at hafter hnext hroom ⊢
    refine ⟨by omega, Nat.lt_of_not_le fun hover => ?_, by omega⟩
    exact overflow_tail h.valid hover (by omega) (by omega)
  | removeN n =>
    simp only [CbufferOp.added, CbufferOp.removed, moved] at hnext hroom htaken ⊢
    refine ⟨by omega, by omega, Nat.lt_of_not_le fun hover => ?_⟩
    exact overflow_head h.valid hover (by omega) (by omega)

/-- An empty buffer of three slots or more. -/
lemma init_kept {buffersize : UInt32} (hsize : 3 ≤ buffersize) : (init buffersize).Kept := by
  rw [UInt32.le_iff_toNat_le] at hsize
  have hthree : (3 : UInt32).toNat = 3 := rfl
  have hpos : 0 < buffersize.toNat := by omega
  constructor
  · exact ⟨hpos, hpos⟩
  · rfl
  · exact (Nat.zero_mod _).symm
  · simp only [init, Cbuffer.init]
    omega

end Counted

/-- The counters are right throughout a run exactly when the buffer has three slots or more
and every call leaves two slots free and does not overflow. -/
theorem counters_right_iff (buffersize : UInt32) (ops : List CbufferOp)
    (hok : Along Counted.exec Counted.Respects (.init buffersize) ops) :
    (∀ s ∈ passed Counted.exec (.init buffersize) ops, s.Right) ↔
      3 ≤ buffersize ∧ Along Counted.exec Counted.Spare (.init buffersize) ops := by
  have hgood : ∀ s : Counted, s.Kept → s.Right := fun _ h => h.right
  have hstep : ∀ (s : Counted) op, s.Kept → s.Respects op → s.Spare op → (s.exec op).Kept :=
    fun _ _ h hok hspare => h.step hok hspare
  have hneeds : ∀ (s : Counted) op, s.Kept → s.Respects op → (s.exec op).Right → s.Spare op :=
    fun _ _ h hok hright => h.spare_of_right hok hright
  have hrun (hthree : 3 ≤ buffersize) :=
    Along.forall_passed_iff hgood hstep hneeds ops (Counted.init_kept hthree) hok
  constructor
  · intro hall
    have hstart : (Counted.init buffersize).Right := by
      apply hall
      cases ops <;> simp [passed]
    have hthree : 3 ≤ buffersize := by
      have hspare := hstart.spare
      rw [UInt32.le_iff_toNat_le]
      simp only [Counted.init, Cbuffer.init] at hspare
      have hlit : (3 : UInt32).toNat = 3 := rfl
      omega
    exact ⟨hthree, (hrun hthree).mp hall⟩
  · rintro ⟨hthree, hspare⟩
    exact (hrun hthree).mpr hspare

theorem counters_right_eight :
    ((Counted.init 8).exec (.addN 5)).Right ∧
      (((Counted.init 8).exec (.addN 5)).exec (.removeN 2)).Right := by
  have hright := (counters_right_iff 8 [.addN 5, .removeN 2] (by decide)).mpr (by decide)
  exact ⟨hright _ (by simp [passed]), hright _ (by simp [passed])⟩

/-- A buffer of three slots with one element has a free slot and counts as full; with two
elements it has none and does not. -/
theorem counters_wrong_three :
    Along Counted.exec Counted.Respects (.init 3) [.add, .add] ∧
      ¬∀ s ∈ passed Counted.exec (.init 3) [.add, .add], s.Right := by
  constructor
  · decide
  · intro hall
    have hone := (hall ((Counted.init 3).exec .add) (by simp [passed])).isFull_iff
    revert hone
    decide

end DiegOS.Support
