import DiegOS.Lib.RingBuffer
import Mathlib.Tactic.Common

/-!
# Packet queues

A circular buffer of `cbuffers.h` with the array that it is about, as `net_buffers.c`
uses it.  The head moves in two statements, and between them it may be behind the end of the
array.

Main results:

- Theorem `Good.push`: a packet goes to the end of the queue, whatever the reader does.
- Theorem `Good.read`, `Good.stepHead`: the reader takes the first packet.
-/

namespace DiegOS.Network

open Lib

/-- `cbuffer_is_full` -/
def isFull (cb : Ring) : Bool := cb.freeSpace = 1

/-- The array and the positions in it. -/
structure PacketQueue (α : Type) where
  cb : Ring
  items : Nat → α

namespace PacketQueue

variable {α : Type}

/-- `cbuffer_init` -/
def init (x : α) (packets : Nat) : PacketQueue α := ⟨.init packets, fun _ => x⟩

/-- A packet is stored at the tail, and `cbuffer_add`. -/
def push (q : PacketQueue α) (x : α) : PacketQueue α :=
  ⟨q.cb.add, Function.update q.items q.cb.tail x⟩

/-- The packet at the head. -/
def first (q : PacketQueue α) : α := q.items q.cb.head

/-- The first statement of `cbuffer_remove`. -/
def stepHead (q : PacketQueue α) : PacketQueue α :=
  { q with cb := { q.cb with head := q.cb.head + 1 } }

/-- The second statement of `cbuffer_remove`. -/
def wrapHead (q : PacketQueue α) : PacketQueue α :=
  { q with cb := { q.cb with head := if q.cb.head = q.cb.bufsize then 0 else q.cb.head } }

/-- The packets in the queue. -/
def contents (q : PacketQueue α) : List α := q.wrapHead.cb.positions.map q.items

/-- Head and tail are in the array, apart from the head between its two statements, and a place
is left. -/
structure Good (q : PacketQueue α) : Prop where
  valid : q.wrapHead.cb.Valid
  room : q.wrapHead.cb.inUse + 2 ≤ q.cb.bufsize

/-- The head is not between its two statements. -/
def Steady (q : PacketQueue α) : Prop := q.cb.head ≠ q.cb.bufsize

variable {q : PacketQueue α} {x : α}

lemma Steady.wrapHead_eq (h : q.Steady) : q.wrapHead = q := by
  rw [wrapHead, if_neg h]

lemma wrapHead_steady (h : q.Good) : q.wrapHead.Steady := Nat.ne_of_lt h.valid.head_lt

lemma wrapHead_wrapHead (h : q.Good) : q.wrapHead.wrapHead = q.wrapHead :=
  (wrapHead_steady h).wrapHead_eq

lemma Good.wrapHead (h : q.Good) : q.wrapHead.Good := by
  have hsame := wrapHead_wrapHead h
  constructor
  · rw [hsame]
    exact h.valid
  · rw [hsame]
    exact h.room

lemma contents_wrapHead (h : q.Good) : q.wrapHead.contents = q.contents := by
  rw [contents, wrapHead_wrapHead h]
  rfl

lemma init_good (x : α) {packets : Nat} (hpackets : 8 ≤ packets) :
    (init x packets).Good ∧ (init x packets).Steady ∧ (init x packets).contents = [] := by
  have hsteady : (init x packets).Steady := by
    rw [Steady, init, Ring.init]
    dsimp only
    omega
  refine ⟨⟨?_, ?_⟩, hsteady, ?_⟩
  · rw [hsteady.wrapHead_eq]
    exact Ring.init_valid (by omega)
  · rw [hsteady.wrapHead_eq]
    have huse : (init x packets).cb.inUse = 0 := rfl
    have hsize : (init x packets).cb.bufsize = packets := rfl
    omega
  · rw [contents, hsteady.wrapHead_eq]
    exact congrArg (List.map _) Ring.positions_init

variable (h : q.Good)
include h

/-- The space that is left is the same between the two statements. -/
lemma Good.freeSpace_eq : q.cb.freeSpace = q.wrapHead.cb.freeSpace := by
  have htail := h.valid.tail_lt
  rw [PacketQueue.wrapHead] at htail ⊢
  dsimp only at htail ⊢
  rw [Ring.freeSpace, Ring.freeSpace]
  dsimp only
  by_cases hend : q.cb.head = q.cb.bufsize
  · rw [if_pos hend, if_neg (by omega), if_pos (Nat.zero_le _)]
    omega
  · rw [if_neg hend]

/-- A packet goes to the end of the queue. -/
theorem Good.push (hfull : isFull q.cb = false) (x : α) :
    (q.push x).Good ∧ (q.push x).contents = q.contents ++ [x] ∧
      (q.push x).cb.head = q.cb.head ∧ (q.push x).cb.bufsize = q.cb.bufsize := by
  have hwrap : (q.push x).wrapHead.cb = q.wrapHead.cb.add := rfl
  have huse : q.wrapHead.cb.inUse + 3 ≤ q.cb.bufsize := by
    have hfree := h.valid.freeSpace_eq
    have hroom := h.room
    have hsize : q.wrapHead.cb.bufsize = q.cb.bufsize := rfl
    rw [isFull, h.freeSpace_eq, hfree, hsize] at hfull
    have hne := of_decide_eq_false hfull
    omega
  have hspace : q.wrapHead.cb.inUse + 1 < q.wrapHead.cb.bufsize := by
    have hsize : q.wrapHead.cb.bufsize = q.cb.bufsize := rfl
    omega
  refine ⟨⟨?_, ?_⟩, ?_, rfl, rfl⟩
  · rw [hwrap]
    exact h.valid.add
  · rw [hwrap, h.valid.inUse_add hspace]
    exact huse
  · rw [contents, hwrap, Ring.positions_add h.valid hspace, List.map_append, List.map_singleton]
    have htail : q.wrapHead.cb.tail = q.cb.tail := rfl
    congr 1
    · apply List.map_congr_left
      intro i hi
      apply Function.update_of_ne
      rintro rfl
      exact Ring.tail_not_mem h.valid hi
    · rw [htail, PacketQueue.push]
      dsimp only
      rw [Function.update_self]

lemma Good.isEmpty_iff (hsteady : q.Steady) :
    q.cb.isEmpty = true ↔ q.contents = [] := by
  have hvalid := h.valid
  rw [hsteady.wrapHead_eq] at hvalid
  rw [hvalid.isEmpty_iff, contents, hsteady.wrapHead_eq, List.map_eq_nil_iff,
    ← List.length_eq_zero_iff, Ring.positions_length]

/-- The reader finds the first packet. -/
theorem Good.read (hsteady : q.Steady) (hsome : q.cb.isEmpty ≠ true) :
    ∃ rest, q.contents = q.first :: rest := by
  have hvalid := h.valid
  rw [hsteady.wrapHead_eq] at hvalid
  have huse : q.cb.inUse ≠ 0 := fun hzero => hsome (hvalid.isEmpty_iff.mpr hzero)
  rw [contents, hsteady.wrapHead_eq, Ring.positions_remove hvalid huse]
  exact ⟨_, rfl⟩

/-- The reader takes the first packet out of the queue. -/
theorem Good.stepHead (hsteady : q.Steady) {rest : List α}
    (hcontents : q.contents = x :: rest) : q.stepHead.Good ∧ q.stepHead.contents = rest := by
  have hvalid := h.valid
  have hroom := h.room
  rw [hsteady.wrapHead_eq] at hvalid hroom
  rw [contents, hsteady.wrapHead_eq] at hcontents
  have huse : q.cb.inUse ≠ 0 := by
    intro hzero
    have hlen := congrArg List.length hcontents
    rw [List.length_map, Ring.positions_length, hzero] at hlen
    contradiction
  have hwrap : q.stepHead.wrapHead.cb = q.cb.remove := rfl
  have hless := hvalid.inUse_remove huse
  refine ⟨⟨?_, ?_⟩, ?_⟩
  · rw [hwrap]
    exact hvalid.remove
  · rw [hwrap]
    have hsize : q.stepHead.cb.bufsize = q.cb.bufsize := rfl
    omega
  · rw [Ring.positions_remove hvalid huse, List.map_cons] at hcontents
    rw [contents, hwrap]
    exact (List.cons.inj hcontents).2

end PacketQueue

end DiegOS.Network
