import DiegOS.Lib.BinarySearch
import DiegOS.Lib.Spans
import DiegOS.Support.Words
import Mathlib.Logic.Function.Basic
import Mathlib.Data.List.Nodup

/-!
# The allocator of the I/O memory

`iomalloc.c`: the blocks of the I/O memory are recorded in an array.  An allocation looks
for a hole between two records, else it takes the memory behind the last one; a deletion finds
its record by a binary search.

Main results:

- Lemma `IoHeap.Tidy.exec_iff`: exactly which calls keep the records tidy.
- Theorem `iomalloc_keeps_records`: what holds after every run of such calls.
- Theorem `iomalloc_unsorted`: a block in a hole is recorded before its lower neighbour
  and cannot be released.
-/

namespace DiegOS.Support

open Lib Span Function

/-! ## The code -/

/-- The locations of `storage`. -/
def MAX_IO_ALLOCS : Nat := 128

/-- `struct mempart` -/
abbrev Mempart := Span

/-- An unused location. -/
def unused : Mempart := ⟨0, 0⟩

/-- The static variables of `iomalloc.c`. -/
structure IoMem where
  storage : Nat → Mempart
  stored : Nat
  startOfMemory : Nat
  endOfMemory : Nat
  freebytes : Nat
  allocbytes : Nat

namespace IoMem

/-- The variables before the first call. -/
def zeroed : IoMem := ⟨fun _ => unused, 0, 0, 0, 0, 0⟩

/-- `iomalloc_init` -/
def init (s : IoMem) (start stop : UInt32) : IoMem × Status :=
  if stop < start then (s, .EINVAL)
  else if start.toNat % LONG ≠ 0 then (s, .EINVAL)
  else if stop.toNat % LONG ≠ 0 then (s, .EINVAL)
  else
    ({ s with
        startOfMemory := start.toNat, endOfMemory := stop.toNat, allocbytes := 0
        freebytes := stop.toNat - start.toNat, storage := fun _ => unused }, .EOK)

/-- `simple_alloc`; `NULL` is 0. -/
def simpleAlloc (s : IoMem) (location cursor aln newsize : Nat) : IoMem × Nat :=
  let pointer := mult cursor aln
  if s.endOfMemory < (pointer + newsize) % WORD then
    ({ s with storage := Function.update s.storage location unused }, 0)
  else
    ({ s with
        storage := Function.update s.storage location ⟨pointer, newsize⟩
        allocbytes := (s.allocbytes + newsize) % WORD
        freebytes := (s.freebytes + WORD - newsize) % WORD, stored := s.stored + 1 }, pointer)

/-- The memory between a record and the next one takes a block. -/
def isHole (s : IoMem) (newsize aln this : Nat) : Bool :=
  (s.storage this).stop % WORD < (s.storage (this + 1)).pointer &&
    (mult (s.storage this).stop aln + newsize) % WORD < (s.storage (this + 1)).pointer

/-- The loop over the locations: where it stops, and if it stops at a hole.  The first number
counts the rounds that are left. -/
def findHole (s : IoMem) (newsize aln : Nat) : Nat → Nat → Nat × Bool
  | 0, this => (this, false)
  | rounds + 1, this =>
    if (s.storage this).pointer = 0 then (this, false)
    else if s.isHole newsize aln this then (this, true)
    else findHole s newsize aln rounds (this + 1)

/-- The loop that moves the locations from `this` on one step down. -/
def shiftUp (storage : Nat → Mempart) (this : Nat) : Nat → (Nat → Mempart)
  | 0 => storage
  | dst + 1 =>
    if dst + 1 = this then storage
    else shiftUp (Function.update storage (dst + 1) (storage dst)) this dst

def iomallocInternal (s : IoMem) (newsize aln : Nat) : IoMem × Nat :=
  if s.stored = MAX_IO_ALLOCS then (s, 0)
  else if s.stored = 0 then s.simpleAlloc 0 s.startOfMemory aln newsize
  else
    match s.findHole newsize aln MAX_IO_ALLOCS 0 with
    | (this, true) =>
      { s with storage := shiftUp s.storage this s.stored }.simpleAlloc this
        (mult (s.storage this).stop aln) aln newsize
    | (this, false) =>
      s.simpleAlloc this (mult (s.storage (this - 1)).stop aln) aln newsize

/-- The alignment for an argument of `iomalloc`. -/
def alignment (aln : UInt32) : Nat := if aln = 0 then LONG else aln.toNat

/-- The size of the block for an argument of `iomalloc`. -/
def blockSize (size : UInt32) : Nat := aln size.toNat LONG

def iomalloc (s : IoMem) (size aln : UInt32) : IoMem × Nat :=
  if size = 0 then (s, 0) else s.iomallocInternal (blockSize size) (alignment aln)

/-- The loop that moves the locations behind `this` one step up; the number counts
them. -/
def shiftDown (storage : Nat → Mempart) (this : Nat) : Nat → (Nat → Mempart)
  | 0 => Function.update storage this unused
  | n + 1 => shiftDown (Function.update storage this (storage (this + 1))) (this + 1) n

/-- The search of `bsearch` for an address. -/
def search (s : IoMem) (ptr : Nat) : Option Nat :=
  binarySearch (fun i => (s.storage i).pointer) ptr s.stored 0 s.stored

def iofree (s : IoMem) (ptr : Nat) : IoMem :=
  if ptr = 0 then s
  else
    match s.search ptr with
    | none => s
    | some i =>
      { s with
        freebytes := (s.freebytes + (s.storage i).size) % WORD
        allocbytes := (s.allocbytes + WORD - (s.storage i).size) % WORD
        storage := shiftDown s.storage i (s.stored - 1 - i), stored := s.stored - 1 }

/-- The locations in use. -/
def records (s : IoMem) : List Span := (List.range s.stored).map s.storage

/-- The address of a block behind the last record. -/
def behind (s : IoMem) (aln : Nat) : Nat :=
  if s.stored = 0 then mult s.startOfMemory aln
  else mult (mult (s.storage (s.stored - 1)).stop aln) aln

/-! ## The loops -/

variable {s : IoMem} {storage : Nat → Mempart}

lemma shiftUp_apply (storage : Nat → Mempart) (this n j : Nat) (hthis : this ≤ n) :
    shiftUp storage this n j = if this < j ∧ j ≤ n then storage (j - 1) else storage j := by
  induction n generalizing storage with
  | zero =>
    rw [shiftUp, if_neg (by omega)]
  | succ dst ih =>
    rw [shiftUp]
    by_cases heq : dst + 1 = this
    · rw [if_pos heq, if_neg (by omega)]
    · rw [if_neg heq, ih _ (by omega)]
      by_cases hj : j = dst + 1
      · subst hj
        rw [if_neg (by omega), if_pos (by omega), update_self]
        rfl
      · by_cases hmoved : this < j ∧ j ≤ dst
        · rw [if_pos hmoved, if_pos (by omega), update_of_ne (by omega)]
        · rw [if_neg hmoved, if_neg (by omega), update_of_ne hj]

lemma shiftDown_apply (storage : Nat → Mempart) (this n j : Nat) :
    shiftDown storage this n j =
      if j < this ∨ this + n < j then storage j
      else if j = this + n then unused
      else storage (j + 1) := by
  induction n generalizing storage this with
  | zero =>
    rw [shiftDown]
    by_cases hj : j = this
    · rw [hj, update_self, if_neg (by omega), if_pos (by omega)]
    · rw [update_of_ne hj, if_pos (by omega)]
  | succ n ih =>
    rw [shiftDown, ih]
    by_cases hout : j < this ∨ this + (n + 1) < j
    · rw [if_pos hout, if_pos (by omega), update_of_ne (by omega)]
    · rw [if_neg hout]
      by_cases hlast : j = this + (n + 1)
      · rw [if_neg (by omega), if_pos (by omega), if_pos hlast]
      · by_cases hj : j = this
        · rw [if_pos (by omega), if_neg hlast, hj, update_self]
        · rw [if_neg (by omega), if_neg (by omega), if_neg hlast,
            update_of_ne (by omega)]

/-! ## The records -/

@[simp] lemma length_records (s : IoMem) : s.records.length = s.stored := by
  rw [records, List.length_map, List.length_range]

lemma getElem_records {i : Nat} (h : i < s.records.length) :
    s.records[i] = s.storage i := by
  simp [records]

lemma mem_records {r : Span} : r ∈ s.records ↔ ∃ i < s.stored, s.storage i = r := by
  simp [records]

lemma getLast_records (h : s.stored ≠ 0) :
    s.records.getLast? = some (s.storage (s.stored - 1)) := by
  obtain ⟨n, hn⟩ := Nat.exists_eq_succ_of_ne_zero h
  rw [records, hn, List.range_succ, List.map_append]
  simp

/-- The records after a deletion at one location. -/
lemma records_shiftDown {i : Nat} (hi : i < s.stored) :
    (List.range (s.stored - 1)).map (shiftDown s.storage i (s.stored - 1 - i)) =
      s.records.eraseIdx i := by
  apply List.ext_getElem
  · rw [List.length_eraseIdx_of_lt (by simpa using hi)]
    simp
  · intro j hj _
    have hlt : j < s.stored - 1 := by simpa using hj
    rw [List.getElem_eraseIdx, List.getElem_map, List.getElem_range, shiftDown_apply]
    by_cases hji : j < i
    · rw [if_pos (.inl hji), dif_pos hji, getElem_records]
    · rw [if_neg (by omega), if_neg (by omega), dif_neg hji, getElem_records]

end IoMem

/-! ## Blocks and records -/

/-- A block that a caller has. -/
structure IoBlock where
  pointer : Nat
  size : Nat
  alignment : Nat
deriving DecidableEq

/-- The allocator and the blocks that were returned and not yet released. -/
structure IoHeap where
  mem : IoMem
  live : List IoBlock

/-- A call. -/
inductive IoOp where
  | iomalloc (size aln : UInt32)
  | iofree (ptr : Nat)

namespace IoHeap

/-- One call. -/
def exec (h : IoHeap) : IoOp → IoHeap
  | .iomalloc size aln =>
    ⟨(h.mem.iomalloc size aln).1,
      if (h.mem.iomalloc size aln).2 = 0 then h.live
      else h.live ++ [⟨(h.mem.iomalloc size aln).2, size.toNat, IoMem.alignment aln⟩]⟩
  | .iofree ptr => ⟨h.mem.iofree ptr, h.live.filter fun b => b.pointer ≠ ptr⟩

/-- A list of calls. -/
def run (h : IoHeap) (ops : List IoOp) : IoHeap := ops.foldl exec h

/-- The records are in order and inside the memory, they are those of the live blocks, and the
counters fit. -/
structure Tidy (h : IoHeap) : Prop where
  memory : h.mem.startOfMemory ≤ h.mem.endOfMemory ∧ h.mem.endOfMemory < WORD
  room : h.mem.stored ≤ MAX_IO_ALLOCS
  unused : ∀ i, h.mem.stored ≤ i → h.mem.storage i = unused
  ordered : Ordered h.mem.records
  used : ∀ r ∈ h.mem.records, 0 < r.pointer ∧ 0 < r.size
  inside : ∀ r ∈ h.mem.records, r.Inside h.mem.startOfMemory h.mem.endOfMemory
  same : (h.live.map IoBlock.pointer).Perm (h.mem.records.map Span.pointer)
  fits : ∀ b ∈ h.live, ∃ r ∈ h.mem.records,
    r.pointer = b.pointer ∧ b.size ≤ r.size ∧ b.alignment ∣ b.pointer
  bytes : h.mem.freebytes + total h.mem.records = h.mem.endOfMemory - h.mem.startOfMemory
  allocated : h.mem.allocbytes = total h.mem.records

/-- The condition on a call: the block does not go into a hole, and where it is not refused
neither its address nor its size has wrapped to 0, and its end has not wrapped either. -/
def Sound (h : IoHeap) : IoOp → Prop
  | .iomalloc size aln =>
    size = 0 ∨ h.mem.stored = MAX_IO_ALLOCS ∨
      (∀ this, this + 1 < h.mem.stored →
        h.mem.isHole (IoMem.blockSize size) (IoMem.alignment aln) this = false) ∧
      ((h.mem.behind (IoMem.alignment aln) + IoMem.blockSize size) % WORD ≤
          h.mem.endOfMemory →
        0 < h.mem.behind (IoMem.alignment aln) ∧ 0 < IoMem.blockSize size ∧
          h.mem.behind (IoMem.alignment aln) + IoMem.blockSize size < WORD)
  | .iofree _ => True

/-- Every call of the list meets the condition when it is made. -/
def Meets (h : IoHeap) : List IoOp → Prop
  | [] => True
  | op :: ops => h.Sound op ∧ (h.exec op).Meets ops

variable {h : IoHeap} {i j : Nat}

section

variable (ht : h.Tidy)
include ht

lemma Tidy.record (hi : i < h.mem.stored) :
    0 < (h.mem.storage i).pointer ∧ 0 < (h.mem.storage i).size ∧
      (h.mem.storage i).Inside h.mem.startOfMemory h.mem.endOfMemory := by
  have hmem : h.mem.storage i ∈ h.mem.records := IoMem.mem_records.mpr ⟨i, hi, rfl⟩
  exact ⟨(ht.used _ hmem).1, (ht.used _ hmem).2, ht.inside _ hmem⟩

lemma Tidy.before (hij : i < j) (hj : j < h.mem.stored) :
    (h.mem.storage i).Before (h.mem.storage j) := by
  have hpair := List.pairwise_iff_getElem.mp ht.ordered i j
    (by rw [IoMem.length_records]; omega) (by rw [IoMem.length_records]; omega) hij
  rwa [IoMem.getElem_records, IoMem.getElem_records] at hpair

/-! ## Deletions -/

/-- The addresses of the records are different. -/
lemma Tidy.nodup : (h.mem.records.map Span.pointer).Nodup := by
  apply List.pairwise_map.mpr
  apply (ht.ordered.sorted fun r hr => (ht.used r hr).2).imp
  exact Nat.ne_of_lt

/-- The binary search finds the record of an address. -/
lemma Tidy.search {ptr : Nat} :
    h.mem.search ptr = some i ↔ i < h.mem.stored ∧ (h.mem.storage i).pointer = ptr := by
  rw [IoMem.search, binarySearch_eq_some le_rfl]
  · simp
  · intro j k _ hjk hk
    exact (ht.before hjk (by omega)).pointer_lt (ht.record (by omega)).2.1

/-- What a deletion does. -/
lemma Tidy.iofree_cases (ptr : Nat) :
    (h.mem.iofree ptr = h.mem ∧ ∀ r ∈ h.mem.records, r.pointer ≠ ptr) ∨
    ∃ i, i < h.mem.stored ∧ (h.mem.storage i).pointer = ptr ∧
      h.mem.iofree ptr = { h.mem with
        freebytes := (h.mem.freebytes + (h.mem.storage i).size) % WORD
        allocbytes := (h.mem.allocbytes + WORD - (h.mem.storage i).size) % WORD
        storage := IoMem.shiftDown h.mem.storage i (h.mem.stored - 1 - i)
        stored := h.mem.stored - 1 } := by
  unfold IoMem.iofree
  by_cases hnull : ptr = 0
  · left
    refine ⟨if_pos hnull, fun r hr => ?_⟩
    have hpos := (ht.used r hr).1
    omega
  · rw [if_neg hnull]
    cases hfound : h.mem.search ptr with
    | none =>
      left
      refine ⟨rfl, fun r hr heq => ?_⟩
      obtain ⟨i, hi, rfl⟩ := IoMem.mem_records.mp hr
      have hsome := ht.search.mpr ⟨hi, heq⟩
      rw [hfound] at hsome
      contradiction
    | some i =>
      right
      obtain ⟨hi, hptr⟩ := ht.search.mp hfound
      exact ⟨i, hi, hptr, rfl⟩

/-- The records without one of them. -/
lemma Tidy.eraseIdx (hi : i < h.mem.stored) :
    h.mem.records.eraseIdx i =
      h.mem.records.filter fun r => r.pointer ≠ (h.mem.storage i).pointer := by
  have hdistinct : h.mem.records.Nodup := List.Nodup.of_map _ ht.nodup
  have hlen : i < h.mem.records.length := by rwa [IoMem.length_records]
  rw [← hdistinct.erase_getElem i hlen, hdistinct.erase_eq_filter, IoMem.getElem_records]
  apply List.filter_congr
  intro r hr
  have hiff : r = h.mem.storage i ↔ r.pointer = (h.mem.storage i).pointer :=
    ⟨congrArg _, List.inj_on_of_nodup_map ht.nodup hr (IoMem.mem_records.mpr ⟨i, hi, rfl⟩)⟩
  simp [hiff, bne, BEq.beq]

/-- A deletion removes the record of its address. -/
lemma Tidy.iofree_records (ptr : Nat) :
    (h.mem.iofree ptr).records = h.mem.records.filter fun r => r.pointer ≠ ptr := by
  rcases ht.iofree_cases ptr with ⟨hsame, hother⟩ | ⟨i, hi, rfl, hfree⟩
  · rw [hsame, List.filter_eq_self.mpr]
    intro r hr
    simpa using hother r hr
  · rw [hfree, ← ht.eraseIdx hi]
    exact IoMem.records_shiftDown hi

/-- The bytes of one record and those of the others. -/
lemma Tidy.total_eraseIdx (hi : i < h.mem.stored) :
    total h.mem.records = (h.mem.storage i).size +
      total (h.mem.records.filter fun r => r.pointer ≠ (h.mem.storage i).pointer) := by
  have hlen : i < h.mem.records.length := by rwa [IoMem.length_records]
  rw [← total_perm (List.getElem_cons_eraseIdx_perm hlen), total_cons,
    ht.eraseIdx hi, IoMem.getElem_records]

/-- A deletion keeps the records tidy. -/
lemma Tidy.iofree (ptr : Nat) : (h.exec (.iofree ptr)).Tidy := by
  have hrecords := ht.iofree_records ptr
  have hsub : ∀ r ∈ h.mem.records.filter fun r => r.pointer ≠ ptr, r ∈ h.mem.records :=
    fun r hr => (List.mem_filter.mp hr).1
  have hsame : ((h.live.filter fun b => b.pointer ≠ ptr).map IoBlock.pointer).Perm
      ((h.mem.records.filter fun r => r.pointer ≠ ptr).map Span.pointer) := by
    have hperm := ht.same.filter fun a => a ≠ ptr
    rw [List.filter_map, List.filter_map] at hperm
    exact hperm
  have hfits : ∀ b ∈ h.live.filter fun b => b.pointer ≠ ptr,
      ∃ r ∈ h.mem.records.filter fun r => r.pointer ≠ ptr,
        r.pointer = b.pointer ∧ b.size ≤ r.size ∧ b.alignment ∣ b.pointer := by
    intro b hb
    obtain ⟨hlive, hother⟩ := List.mem_filter.mp hb
    obtain ⟨r, hr, hptr, hsize⟩ := ht.fits b hlive
    exact ⟨r, List.mem_filter.mpr ⟨hr, by rwa [hptr]⟩, hptr, hsize⟩
  have hstate : (h.mem.iofree ptr).startOfMemory = h.mem.startOfMemory ∧
      (h.mem.iofree ptr).endOfMemory = h.mem.endOfMemory ∧
      (h.mem.iofree ptr).stored ≤ h.mem.stored ∧
      (∀ i, (h.mem.iofree ptr).stored ≤ i → (h.mem.iofree ptr).storage i = Support.unused) ∧
      (h.mem.iofree ptr).freebytes + total (h.mem.iofree ptr).records =
        h.mem.freebytes + total h.mem.records ∧
      (h.mem.iofree ptr).allocbytes = total (h.mem.iofree ptr).records := by
    rw [hrecords]
    rcases ht.iofree_cases ptr with ⟨hsame, hother⟩ | ⟨i, hi, rfl, hfree⟩
    · rw [hsame, List.filter_eq_self.mpr fun r hr => by simpa using hother r hr]
      exact ⟨rfl, rfl, le_rfl, ht.unused, rfl, ht.allocated⟩
    · have htotal := ht.total_eraseIdx hi
      have hbytes := ht.bytes
      have hmemory := ht.memory
      have hallocated := ht.allocated
      rw [hfree]
      refine ⟨rfl, rfl, Nat.sub_le .., fun j hj => ?_, ?_, ?_⟩
      · dsimp only at hj ⊢
        rw [IoMem.shiftDown_apply]
        by_cases hlast : j = h.mem.stored - 1
        · rw [if_neg (by omega), if_pos (by omega)]
        · rw [if_pos (by omega)]
          exact ht.unused j (by omega)
      · dsimp only
        rw [Nat.mod_eq_of_lt (by omega)]
        omega
      · dsimp only
        rw [Nat.add_sub_assoc (by omega), hallocated, htotal, Nat.add_comm, ← Nat.add_assoc,
          Nat.sub_add_cancel (by omega), Nat.add_mod_left, Nat.mod_eq_of_lt (by omega)]
  obtain ⟨hstart, hend, hstored, hunused, hfree, hallocated⟩ := hstate
  rw [hrecords] at hfree hallocated
  constructor
  · change (h.mem.iofree ptr).startOfMemory ≤ (h.mem.iofree ptr).endOfMemory ∧
      (h.mem.iofree ptr).endOfMemory < WORD
    rw [hstart, hend]
    exact ht.memory
  · exact hstored.trans ht.room
  · exact hunused
  · change Ordered (h.mem.iofree ptr).records
    rw [hrecords]
    exact ht.ordered.filter _
  · change ∀ r ∈ (h.mem.iofree ptr).records, _
    rw [hrecords]
    exact fun r hr => ht.used r (hsub r hr)
  · change ∀ r ∈ (h.mem.iofree ptr).records,
      r.Inside (h.mem.iofree ptr).startOfMemory (h.mem.iofree ptr).endOfMemory
    rw [hrecords, hstart, hend]
    exact fun r hr => ht.inside r (hsub r hr)
  · change List.Perm _ ((h.mem.iofree ptr).records.map _)
    rw [hrecords]
    exact hsame
  · change ∀ b ∈ _, ∃ r ∈ (h.mem.iofree ptr).records, _
    rw [hrecords]
    exact hfits
  · change (h.mem.iofree ptr).freebytes + total (h.mem.iofree ptr).records =
      (h.mem.iofree ptr).endOfMemory - (h.mem.iofree ptr).startOfMemory
    rw [hrecords, hfree, hstart, hend]
    exact ht.bytes
  · change (h.mem.iofree ptr).allocbytes = total (h.mem.iofree ptr).records
    rw [hrecords]
    exact hallocated

end

/-! ## Allocations -/

variable {newsize aln : Nat}

/-- Without a hole the loop stops behind the last record. -/
lemma Tidy.findHole_none (ht : h.Tidy)
    (hfull : ∀ this, this + 1 < h.mem.stored → h.mem.isHole newsize aln this = false) :
    ∀ rounds this : Nat, this ≤ h.mem.stored → h.mem.stored < this + rounds →
      h.mem.findHole newsize aln rounds this = (h.mem.stored, false) := by
  intro rounds
  induction rounds with
  | zero =>
    intro this hle hlt
    omega
  | succ rounds ih =>
    intro this hle hlt
    rw [IoMem.findHole]
    by_cases hend : this = h.mem.stored
    · rw [hend, if_pos (by rw [ht.unused _ le_rfl]; rfl)]
    · have hpos := (ht.record (i := this) (by omega)).1
      have hhole : h.mem.isHole newsize aln this = false := by
        by_cases hnext : this + 1 < h.mem.stored
        · exact hfull this hnext
        · rw [IoMem.isHole, ht.unused (this + 1) (by omega)]
          rfl
      rw [if_neg (by omega), hhole, if_neg Bool.false_ne_true]
      exact ih (this + 1) (by omega) (by omega)

/-- The loop stops at a hole. -/
lemma Tidy.findHole_some (ht : h.Tidy) :
    ∀ rounds this : Nat,
      (∃ i, this ≤ i ∧ i + 1 < h.mem.stored ∧ h.mem.isHole newsize aln i = true) →
      h.mem.stored ≤ this + rounds →
      ∃ i, i + 1 < h.mem.stored ∧ h.mem.isHole newsize aln i = true ∧
        h.mem.findHole newsize aln rounds this = (i, true) := by
  intro rounds
  induction rounds with
  | zero =>
    rintro this ⟨i, hle, hlt, hhole⟩ hrounds
    omega
  | succ rounds ih =>
    rintro this ⟨i, hle, hlt, hhole⟩ hrounds
    have hpos := (ht.record (i := this) (by omega)).1
    rw [IoMem.findHole, if_neg (by omega)]
    cases hthis : h.mem.isHole newsize aln this with
    | true => exact ⟨this, by omega, hthis, rfl⟩
    | false =>
      have hne : this ≠ i := by
        rintro rfl
        rw [hhole] at hthis
        contradiction
      exact ih (this + 1) ⟨i, by omega, hlt, hhole⟩ (by omega)

/-- The address behind the last record before it is rounded the last time. -/
def cursor (h : IoHeap) (aln : Nat) : Nat :=
  if h.mem.stored = 0 then h.mem.startOfMemory
  else mult (h.mem.storage (h.mem.stored - 1)).stop aln

lemma mult_cursor (h : IoHeap) (aln : Nat) : mult (h.cursor aln) aln = h.mem.behind aln := by
  unfold cursor IoMem.behind
  by_cases hzero : h.mem.stored = 0
  · rw [if_pos hzero, if_pos hzero]
  · rw [if_neg hzero, if_neg hzero]

/-- Without a hole a block goes behind the last record. -/
lemma Tidy.iomallocInternal_behind (ht : h.Tidy) (hroom : h.mem.stored ≠ MAX_IO_ALLOCS)
    (hfull : ∀ this, this + 1 < h.mem.stored → h.mem.isHole newsize aln this = false) :
    h.mem.iomallocInternal newsize aln =
      h.mem.simpleAlloc h.mem.stored (h.cursor aln) aln newsize := by
  have hle := ht.room
  unfold IoMem.iomallocInternal cursor
  rw [if_neg hroom]
  by_cases hzero : h.mem.stored = 0
  · rw [if_pos hzero, if_pos hzero, hzero]
  · rw [if_neg hzero, if_neg hzero, ht.findHole_none hfull _ _ (Nat.zero_le _) (by omega)]

/-- An address that is rounded twice is 0 or not below the end of the last record. -/
lemma Tidy.le_behind (ht : h.Tidy) (haln : 0 < aln) (hword : aln < WORD)
    (hpos : 0 < h.mem.behind aln) :
    h.mem.startOfMemory ≤ h.mem.behind aln ∧
      ∀ r ∈ h.mem.records.getLast?, r.stop ≤ h.mem.behind aln := by
  have hmemory := ht.memory
  unfold IoMem.behind at hpos ⊢
  by_cases hzero : h.mem.stored = 0
  · rw [if_pos hzero] at hpos ⊢
    refine ⟨le_mult_of_pos haln hword (by omega) hpos, fun r hr => ?_⟩
    have hnil : h.mem.records = [] := List.length_eq_zero_iff.mp (by simpa using hzero)
    rw [hnil] at hr
    contradiction
  · rw [if_neg hzero] at hpos ⊢
    obtain ⟨hptr, hsize, hlow, hhigh⟩ := ht.record (i := h.mem.stored - 1) (by omega)
    have hle := le_mult_mult haln hword (by omega) hpos
    have hstop : (h.mem.storage (h.mem.stored - 1)).pointer ≤
        (h.mem.storage (h.mem.stored - 1)).stop := Nat.le_add_right ..
    refine ⟨by omega, fun r hr => ?_⟩
    rw [IoMem.getLast_records hzero] at hr
    cases hr
    omega

/-- A further location in use. -/
lemma records_append (h : IoHeap) (r : Mempart) (allocbytes freebytes : Nat) :
    { h.mem with
      storage := update h.mem.storage h.mem.stored r, allocbytes, freebytes
      stored := h.mem.stored + 1 : IoMem }.records = h.mem.records ++ [r] := by
  rw [IoMem.records, IoMem.records]
  dsimp only
  rw [List.range_succ, List.map_append, List.map_singleton, update_self]
  congr 1
  apply List.map_congr_left
  intro i hi
  rw [update_of_ne (by have := List.mem_range.mp hi; omega)]

/-- An allocation that is refused changes nothing. -/
lemma Tidy.simpleAlloc_refused (ht : h.Tidy) {location : Nat}
    (hfull : h.mem.endOfMemory < (mult location aln + newsize) % WORD) :
    h.mem.simpleAlloc h.mem.stored location aln newsize = (h.mem, 0) := by
  unfold IoMem.simpleAlloc
  dsimp only
  rw [if_pos hfull, ← ht.unused _ le_rfl, update_eq_self]

/-- A block behind the last record keeps the records tidy. -/
lemma Tidy.concat (ht : h.Tidy) {size alignment pointer : Nat}
    (hroom : h.mem.stored < MAX_IO_ALLOCS) (hstart : h.mem.startOfMemory ≤ pointer)
    (hlast : ∀ r ∈ h.mem.records.getLast?, r.stop ≤ pointer)
    (hend : pointer + newsize ≤ h.mem.endOfMemory) (hpos : 0 < pointer) (hsize : 0 < newsize)
    (hfits : size ≤ newsize ∧ alignment ∣ pointer) {mem : IoMem}
    (hmem : mem = { h.mem with
      storage := update h.mem.storage h.mem.stored ⟨pointer, newsize⟩
      allocbytes := (h.mem.allocbytes + newsize) % WORD
      freebytes := (h.mem.freebytes + WORD - newsize) % WORD, stored := h.mem.stored + 1 }) :
    (⟨mem, h.live ++ [⟨pointer, size, alignment⟩]⟩ : IoHeap).Tidy := by
  have hmemory := ht.memory
  have hbytes := ht.bytes
  have hallocated := ht.allocated
  have hnew : ∀ r ∈ h.mem.records ++ [(⟨pointer, newsize⟩ : Span)],
      r ∈ h.mem.records ∨ r = ⟨pointer, newsize⟩ := fun r hr => by simpa using hr
  have hinside : ∀ r ∈ h.mem.records ++ [(⟨pointer, newsize⟩ : Span)],
      r.Inside h.mem.startOfMemory h.mem.endOfMemory := by
    intro r hr
    rcases hnew r hr with hr | rfl
    · exact ht.inside r hr
    · exact ⟨hstart, hend⟩
  have hordered : Ordered (h.mem.records ++ [⟨pointer, newsize⟩]) := ht.ordered.concat hlast
  have htotal : total (h.mem.records ++ [⟨pointer, newsize⟩]) =
      total h.mem.records + newsize := total_append ..
  have hle := hordered.total_le hmemory.1 hinside
  have hrecords : mem.records = h.mem.records ++ [⟨pointer, newsize⟩] := by
    rw [hmem]
    exact records_append ..
  subst hmem
  constructor
  · exact hmemory
  · exact hroom
  · intro i hi
    have hi' : h.mem.stored + 1 ≤ i := hi
    dsimp only
    rw [update_of_ne (by omega)]
    exact ht.unused i (by omega)
  · rw [hrecords]
    exact hordered
  · rw [hrecords]
    intro r hr
    rcases hnew r hr with hr | rfl
    · exact ht.used r hr
    · exact ⟨hpos, hsize⟩
  · rw [hrecords]
    exact hinside
  · rw [hrecords, List.map_append, List.map_append]
    exact ht.same.append_right [pointer]
  · rw [hrecords]
    intro b hb
    rcases List.mem_append.mp hb with hb | hb
    · obtain ⟨r, hr, hblock⟩ := ht.fits b hb
      exact ⟨r, List.mem_append_left _ hr, hblock⟩
    · rw [List.mem_singleton.mp hb]
      exact ⟨_, List.mem_append_right _ (List.mem_singleton_self _), rfl, hfits⟩
  · rw [hrecords, htotal]
    dsimp only
    have hsub : h.mem.freebytes + WORD - newsize = h.mem.freebytes - newsize + WORD := by
      omega
    rw [hsub, Nat.add_mod_right, Nat.mod_eq_of_lt (by omega)]
    omega
  · rw [hrecords, htotal]
    dsimp only
    rw [Nat.mod_eq_of_lt (by omega), hallocated]

lemma alignment_pos (aln : UInt32) : 0 < IoMem.alignment aln := by
  unfold IoMem.alignment
  by_cases hzero : aln = 0
  · rw [if_pos hzero]
    decide
  · rw [if_neg hzero]
    exact Nat.pos_of_ne_zero fun heq => hzero (UInt32.toNat_inj.mp heq)

lemma alignment_lt (aln : UInt32) : IoMem.alignment aln < WORD := by
  unfold IoMem.alignment
  by_cases hzero : aln = 0
  · rw [if_pos hzero]
    decide
  · rw [if_neg hzero]
    exact aln.toNat_lt

/-- A block takes at least what was asked for unless its size wraps to 0. -/
lemma le_blockSize {size : UInt32} (hpos : 0 < IoMem.blockSize size) :
    size.toNat ≤ IoMem.blockSize size := by
  rw [IoMem.blockSize, aln_eq] at hpos ⊢
  exact le_mult_of_pos (by decide) (by decide) size.toNat_lt hpos

/-- An allocation behind the last record. -/
lemma Tidy.behind_iff (ht : h.Tidy) {size aln : UInt32} (hsize : size ≠ 0)
    (hroom : h.mem.stored ≠ MAX_IO_ALLOCS)
    (hfull : ∀ this, this + 1 < h.mem.stored →
      h.mem.isHole (IoMem.blockSize size) (IoMem.alignment aln) this = false) :
    (h.exec (.iomalloc size aln)).Tidy ↔
      ((h.mem.behind (IoMem.alignment aln) + IoMem.blockSize size) % WORD ≤
          h.mem.endOfMemory →
        0 < h.mem.behind (IoMem.alignment aln) ∧ 0 < IoMem.blockSize size ∧
          h.mem.behind (IoMem.alignment aln) + IoMem.blockSize size < WORD) := by
  have hexec : h.mem.iomalloc size aln =
      h.mem.simpleAlloc h.mem.stored (h.cursor (IoMem.alignment aln)) (IoMem.alignment aln)
        (IoMem.blockSize size) := by
    rw [IoMem.iomalloc, if_neg hsize, ht.iomallocInternal_behind hroom hfull]
  have hlt : h.mem.stored < MAX_IO_ALLOCS := Nat.lt_of_le_of_ne ht.room hroom
  rw [exec, hexec]
  by_cases hrefused : h.mem.endOfMemory <
      (h.mem.behind (IoMem.alignment aln) + IoMem.blockSize size) % WORD
  · rw [ht.simpleAlloc_refused (by rwa [mult_cursor])]
    exact iff_of_true ht fun hle => absurd hrefused (Nat.not_lt.mpr hle)
  · unfold IoMem.simpleAlloc
    rw [mult_cursor, if_neg hrefused]
    constructor
    · intro ht' _
      have hlast := ht'.record (i := h.mem.stored) (Nat.lt_succ_self _)
      dsimp only at hlast
      rw [update_self] at hlast
      have hend := hlast.2.2.2
      have hmemory := ht.memory
      exact ⟨hlast.1, hlast.2.1, Nat.lt_of_le_of_lt hend hmemory.2⟩
    · intro hsound
      obtain ⟨hpos, hblock, hword⟩ := hsound (Nat.not_lt.mp hrefused)
      rw [Nat.mod_eq_of_lt hword] at hrefused
      obtain ⟨hstart, hlast⟩ := ht.le_behind (alignment_pos aln) (alignment_lt aln) hpos
      rw [if_neg (by omega)]
      apply ht.concat hlt hstart hlast (Nat.not_lt.mp hrefused) hpos hblock _ rfl
      refine ⟨le_blockSize hblock, ?_⟩
      rw [← mult_cursor]
      exact dvd_mult ..

/-- A block in a hole takes the location of its lower neighbour, and this one goes behind
it. -/
lemma Tidy.not_tidy_of_hole (ht : h.Tidy) {size aln : UInt32} (hsize : size ≠ 0)
    (hroom : h.mem.stored ≠ MAX_IO_ALLOCS) {this : Nat} (hthis : this + 1 < h.mem.stored)
    (hhole : h.mem.isHole (IoMem.blockSize size) (IoMem.alignment aln) this = true) :
    ¬(h.exec (.iomalloc size aln)).Tidy := by
  intro ht'
  have hle := ht.room
  obtain ⟨i, hi, -, hfound⟩ := ht.findHole_some MAX_IO_ALLOCS 0
    ⟨this, Nat.zero_le _, hthis, hhole⟩ (by omega)
  have hexec : (h.mem.iomalloc size aln).1 =
      ({ h.mem with storage := IoMem.shiftUp h.mem.storage i h.mem.stored }.simpleAlloc i
        (mult (h.mem.storage i).stop (IoMem.alignment aln)) (IoMem.alignment aln)
        (IoMem.blockSize size)).1 := by
    rw [IoMem.iomalloc, if_neg hsize, IoMem.iomallocInternal, if_neg hroom, if_neg (by omega),
      hfound]
  -- the lower neighbour is in the next location, the last record behind all of them
  have hshift : ∀ j, i < j → j ≤ h.mem.stored →
      IoMem.shiftUp h.mem.storage i h.mem.stored j = h.mem.storage (j - 1) := by
    intro j hij hj
    rw [IoMem.shiftUp_apply _ _ _ _ (by omega), if_pos ⟨hij, hj⟩]
  have hmem : (h.exec (.iomalloc size aln)).mem = (h.mem.iomalloc size aln).1 := rfl
  unfold IoMem.simpleAlloc at hexec
  dsimp only at hexec
  split at hexec
  · rw [hexec] at hmem
    have hunused := ht'.unused h.mem.stored (by rw [hmem])
    rw [hmem] at hunused
    dsimp only at hunused
    rw [update_of_ne (by omega), hshift _ (by omega) le_rfl] at hunused
    have hpos := (ht.record (i := h.mem.stored - 1) (by omega)).1
    rw [hunused] at hpos
    exact Nat.lt_irrefl 0 hpos
  · rw [hexec] at hmem
    have hnew := ht'.record (i := i) (by rw [hmem]; dsimp only; omega)
    have hbefore := ht'.before (Nat.lt_succ_self i) (by rw [hmem]; dsimp only; omega)
    rw [hmem] at hnew hbefore
    dsimp only at hnew hbefore
    rw [update_self] at hnew hbefore
    rw [update_of_ne (by omega), hshift _ (by omega) (by omega)] at hbefore
    obtain ⟨hptr, hsize, hlow, hhigh⟩ := ht.record (i := i) (by omega)
    have hmemory := ht.memory
    have hle := le_mult_mult (alignment_pos aln) (alignment_lt aln) (by omega) hnew.1
    have hstop : (h.mem.storage i).pointer + (h.mem.storage i).size =
      (h.mem.storage i).stop := rfl
    have hover : mult (mult (h.mem.storage i).stop (IoMem.alignment aln))
        (IoMem.alignment aln) < (h.mem.storage i).pointer := hbefore.pointer_lt hnew.2.1
    omega

/-- A call keeps the records tidy exactly when it meets the condition. -/
lemma Tidy.exec_iff (ht : h.Tidy) (op : IoOp) : (h.exec op).Tidy ↔ h.Sound op := by
  cases op with
  | iofree ptr => exact iff_of_true (ht.iofree ptr) trivial
  | iomalloc size aln =>
    unfold Sound
    by_cases hsize : size = 0
    · have hexec : h.exec (.iomalloc size aln) = h := by
        rw [exec, IoMem.iomalloc, if_pos hsize]
        rfl
      rw [hexec]
      exact iff_of_true ht (.inl hsize)
    · by_cases hroom : h.mem.stored = MAX_IO_ALLOCS
      · have hexec : h.exec (.iomalloc size aln) = h := by
          rw [exec, IoMem.iomalloc, if_neg hsize, IoMem.iomallocInternal, if_pos hroom]
          rfl
        rw [hexec]
        exact iff_of_true ht (.inr (.inl hroom))
      · dsimp only
        rw [or_iff_right hsize, or_iff_right hroom]
        by_cases hfull : ∀ this, this + 1 < h.mem.stored →
            h.mem.isHole (IoMem.blockSize size) (IoMem.alignment aln) this = false
        · rw [ht.behind_iff hsize hroom hfull]
          exact (and_iff_right hfull).symm
        · have hhole := hfull
          push Not at hhole
          obtain ⟨this, hthis, hhole⟩ := hhole
          rw [ne_eq, Bool.not_eq_false] at hhole
          exact iff_of_false (ht.not_tidy_of_hole hsize hroom hthis hhole)
            fun hsound => hfull hsound.1

/-! ## Runs of calls -/

lemma Tidy.run (ops : List IoOp) : ∀ {h : IoHeap}, h.Tidy → h.Meets ops → (h.run ops).Tidy := by
  induction ops with
  | nil => exact fun ht _ => ht
  | cons op ops ih =>
    intro h ht hmeets
    exact ih ((ht.exec_iff op).mpr hmeets.1) hmeets.2

/-- The memory without a block. -/
lemma Tidy.init {start stop : UInt32} {mem : IoMem}
    (hinit : IoMem.zeroed.init start stop = (mem, .EOK)) : (⟨mem, []⟩ : IoHeap).Tidy := by
  unfold IoMem.init at hinit
  split at hinit
  · cases hinit
  · next hle =>
      split at hinit
      · cases hinit
      · split at hinit
        · cases hinit
        · cases hinit
          have hstart : start.toNat ≤ stop.toNat :=
            Nat.not_lt.mp fun hlt => hle (UInt32.lt_iff_toNat_lt.mpr hlt)
          constructor
          · exact ⟨hstart, stop.toNat_lt⟩
          · exact Nat.zero_le _
          · exact fun _ _ => rfl
          · exact List.Pairwise.nil
          · exact fun _ hr => absurd hr List.not_mem_nil
          · exact fun _ hr => absurd hr List.not_mem_nil
          · exact List.Perm.nil
          · exact fun _ hb => absurd hb List.not_mem_nil
          · rfl
          · rfl

/-- A live block is released. -/
lemma Tidy.release (ht : h.Tidy) {b : IoBlock} (hb : b ∈ h.live) :
    ∃ r ∈ h.mem.records, r.pointer = b.pointer ∧
      (h.mem.iofree b.pointer).records = h.mem.records.filter (fun r => r.pointer ≠ b.pointer) ∧
      (h.mem.iofree b.pointer).freebytes = h.mem.freebytes + r.size := by
  have hbytes := ht.bytes
  have hmemory := ht.memory
  rcases ht.iofree_cases b.pointer with ⟨-, hother⟩ | ⟨i, hi, hptr, hfree⟩
  · obtain ⟨r, hr, hptr, -⟩ := ht.fits b hb
    exact absurd hptr (hother r hr)
  · have htotal := ht.total_eraseIdx hi
    refine ⟨h.mem.storage i, IoMem.mem_records.mpr ⟨i, hi, rfl⟩, hptr,
      ht.iofree_records b.pointer, ?_⟩
    rw [hfree]
    exact Nat.mod_eq_of_lt (by omega)

end IoHeap

/-- After every run of calls that meet the condition the records are tidy, every block that was
returned can be released, and a further call keeps this exactly when it meets the condition
too. -/
theorem iomalloc_keeps_records {start stop : UInt32} {mem : IoMem}
    (hinit : IoMem.zeroed.init start stop = (mem, .EOK)) {ops : List IoOp} {h : IoHeap}
    (hrun : (⟨mem, []⟩ : IoHeap).run ops = h) (hmeets : (⟨mem, []⟩ : IoHeap).Meets ops) :
    h.Tidy ∧
      h.mem.records.Pairwise (fun a b => a.pointer < b.pointer) ∧
      h.mem.records.Pairwise Apart ∧
      (∀ b ∈ h.live, ∃ r ∈ h.mem.records, r.pointer = b.pointer ∧
        (h.mem.iofree b.pointer).records =
          h.mem.records.filter (fun r => r.pointer ≠ b.pointer) ∧
        (h.mem.iofree b.pointer).freebytes = h.mem.freebytes + r.size) ∧
      ∀ op, (h.exec op).Tidy ↔ h.Sound op := by
  have ht : h.Tidy := hrun ▸ (IoHeap.Tidy.init hinit).run ops hmeets
  exact ⟨ht, ht.ordered.sorted fun r hr => (ht.used r hr).2, ht.ordered.apart,
    fun b hb => ht.release hb, ht.exec_iff⟩

/-- Four kilobytes of memory. -/
def ioPage : IoMem := { IoMem.zeroed with
  startOfMemory := 4096, endOfMemory := 8192, freebytes := 4096 }

/-- Two blocks, and the first one is released. -/
theorem iomalloc_keeps_records_two :
    ((⟨ioPage, []⟩ : IoHeap).run
      [.iomalloc 64 0, .iomalloc 100 256, .iofree 4096]).Tidy := by
  have hinit : IoMem.zeroed.init 4096 8192 = (ioPage, .EOK) := rfl
  have hnone : ∀ {h : IoHeap} {newsize aln : Nat}, h.mem.stored ≤ 1 →
      ∀ this, this + 1 < h.mem.stored → h.mem.isHole newsize aln this = false := by
    intro h newsize aln hle this hlt
    omega
  have hmeets : (⟨ioPage, []⟩ : IoHeap).Meets
      [.iomalloc 64 0, .iomalloc 100 256, .iofree 4096] := by
    refine ⟨?_, ?_, trivial, trivial⟩
    · exact Or.inr (Or.inr ⟨hnone (by decide), by decide⟩)
    · exact Or.inr (Or.inr ⟨hnone (by decide), by decide⟩)
  exact (iomalloc_keeps_records hinit rfl hmeets).1

/-- Three blocks, the second one is released and a smaller one takes its place: its record goes
before the one of the first block, and its release does not find it. -/
theorem iomalloc_unsorted :
    let h := (⟨ioPage, []⟩ : IoHeap).run
      [.iomalloc 64 0, .iomalloc 64 0, .iomalloc 64 0, .iofree 4160, .iomalloc 32 0]
    IoMem.zeroed.init 4096 8192 = (ioPage, .EOK) ∧
      h.mem.records = [⟨4160, 32⟩, ⟨4096, 64⟩, ⟨4224, 64⟩] ∧
      h.live = [⟨4096, 64, 4⟩, ⟨4224, 64, 4⟩, ⟨4160, 32, 4⟩] ∧
      ¬h.mem.records.Pairwise (fun a b => a.pointer < b.pointer) ∧
      (h.mem.iofree 4160).records = h.mem.records ∧
      (h.mem.iofree 4160).freebytes = h.mem.freebytes :=
  ⟨rfl, by decide⟩

end DiegOS.Support
