import DiegOS.Lib.FreeRuns
import DiegOS.Lib.Spans
import DiegOS.Support.Words
import Mathlib.Logic.Function.Basic

/-!
# The heap

`malloc.c`: the heap is a list of partitions, each with a header in front of its memory.
A partition is split when it is bigger than what is asked for; free neighbours are merged when
no partition is big enough.

Main results:

- Theorem `Tiles.findFree_eq`: the search finds the first free partition that is big enough.
- Theorem `Tiles.defragFrom_cells`: merging makes one partition of each run of free ones.
-/

namespace DiegOS.Support

open Lib (Span Cell)
open Lib.Span Function

/-! ## The code -/

/-- `struct mempart` of the heap. -/
structure HeapPart where
  next : Nat
  magic : Nat
deriving DecidableEq

def MAGIC_ALLOC_NUMBER : Nat := 0x1A2B3C4D

def MAGIC_FREE_NUMBER : Nat := 0x5E6F8A9B

def MAGIC_LAST_NUMBER : Nat := 0xDEADBEEF

/-- `sizeof(struct mempart)` -/
def PART : Nat := 8

/-- The headers in the memory and the static variables of `malloc.c`. -/
structure Malloc where
  mem : Nat → HeapPart
  heapStart : Nat
  heapEnd : Nat
  freebytes : Nat
  allocbytes : Nat

/-- The memory behind a header is not `NULL`. -/
lemma pointer_ne_zero (a : Nat) : a + PART ≠ 0 := Nat.succ_ne_zero (a + 7)

namespace Malloc

def isAlloc (mem : Nat → HeapPart) (p : Nat) : Bool := (mem p).magic = MAGIC_ALLOC_NUMBER

def isFree (mem : Nat → HeapPart) (p : Nat) : Bool := (mem p).magic = MAGIC_FREE_NUMBER

def isLast (mem : Nat → HeapPart) (p : Nat) : Bool := (mem p).magic = MAGIC_LAST_NUMBER

def getSize (mem : Nat → HeapPart) (p : Nat) : Nat := sub (mem p).next (p + PART)

/-- Overwrite the magic number of a header. -/
def setMagic (mem : Nat → HeapPart) (p magic : Nat) : Nat → HeapPart :=
  Function.update mem p ⟨(mem p).next, magic⟩

/-- Overwrite the link of a header. -/
def setNext (mem : Nat → HeapPart) (p next : Nat) : Nat → HeapPart :=
  Function.update mem p ⟨next, (mem p).magic⟩

/-- `malloc_init`; the end of the heap steps back by `sizeof` structures. -/
def init (mem : Nat → HeapPart) (heapstart heapend : UInt32) : Option Malloc × Status :=
  if heapend < heapstart then (none, .EINVAL)
  else if (heapstart ^^^ heapend) &&& 7 ≠ 0 then (none, .EINVAL)
  else
    let heapStart := heapstart.toNat
    let heapEnd := sub heapend.toNat (PART * PART)
    let mem := Function.update mem heapStart ⟨heapEnd, MAGIC_FREE_NUMBER⟩
    (some {
      mem := Function.update mem heapEnd ⟨heapEnd, MAGIC_LAST_NUMBER⟩
      heapStart
      heapEnd
      allocbytes := 2 * PART
      freebytes := sub (sub heapEnd heapStart) (2 * PART) }, .EOK)

/-- More rounds than the list has partitions. -/
def rounds (s : Malloc) : Nat := (s.heapEnd - s.heapStart) / PART + 1

/-- The inner loop of `defrag_mem`: the first partition that is not free, and the bytes of
the headers on the way. -/
def skipFree (mem : Nat → HeapPart) : Nat → Nat → Nat → Nat × Nat
  | 0, this, bytes => (this, bytes)
  | n + 1, this, bytes =>
    if isFree mem this then skipFree mem n (mem this).next (bytes + PART) else (this, bytes)

/-- The outer loop of `defrag_mem`. -/
def defragFrom : Nat → (Nat → HeapPart) → Nat → Nat → (Nat → HeapPart) × Nat
  | 0, mem, _, bytes => (mem, bytes)
  | n + 1, mem, this, bytes =>
    if isLast mem this then (mem, bytes)
    else if isFree mem this then
      let (stop, bytes) := skipFree mem n (mem this).next bytes
      let mem := if (mem this).next ≠ stop then setNext mem this stop else mem
      defragFrom n mem (mem stop).next bytes
    else defragFrom n mem (mem this).next bytes

/-- `defrag_mem` -/
def defrag (s : Malloc) : Malloc :=
  let (mem, bytes) := defragFrom s.rounds s.mem s.heapStart 0
  { s with mem, freebytes := (s.freebytes + bytes) % WORD, allocbytes := sub s.allocbytes bytes }

/-- The loops of `malloc_internal`: the first free partition that is big enough. -/
def findFree (mem : Nat → HeapPart) (newsize : Nat) : Nat → Nat → Option Nat
  | 0, _ => none
  | n + 1, this =>
    if isLast mem this then none
    else if isAlloc mem this then findFree mem newsize n (mem this).next
    else if getSize mem this < newsize then findFree mem newsize n (mem this).next
    else some this

/-- `malloc_internal`; `NULL` is 0. -/
def mallocInternal (s : Malloc) (newsize : Nat) : Malloc × Nat :=
  match findFree s.mem newsize s.rounds s.heapStart with
  | none => (s, 0)
  | some this =>
    let available := getSize s.mem this
    let mem := setMagic s.mem this MAGIC_ALLOC_NUMBER
    if available < (newsize + PART) % WORD then
      ({ s with
          mem
          allocbytes := (s.allocbytes + available) % WORD
          freebytes := sub s.freebytes available }, this + PART)
    else
      let middle := this + PART + newsize
      let mem := Function.update mem middle ⟨(mem this).next, MAGIC_FREE_NUMBER⟩
      ({ s with
          mem := setNext mem this middle
          allocbytes := (s.allocbytes + newsize + PART) % WORD
          freebytes := sub s.freebytes (newsize + PART) }, this + PART)

def malloc (s : Malloc) (size : UInt32) : Malloc × Nat :=
  if size = 0 then (s, 0)
  else
    let newsize := mult size.toNat LONG
    let (s, retval) := s.mallocInternal newsize
    if retval ≠ 0 then (s, retval) else s.defrag.mallocInternal newsize

/-- `free`; none if the assertion fails. -/
def free (s : Malloc) (p : Nat) : Option Malloc :=
  if p = 0 then some s
  else
    let this := p - PART
    if isAlloc s.mem this then
      some { s with
        mem := setMagic s.mem this MAGIC_FREE_NUMBER
        allocbytes := sub s.allocbytes (getSize s.mem this)
        freebytes := (s.freebytes + getSize s.mem this) % WORD }
    else none

/-- `realloc`; none if the assertion of `free` fails. -/
def realloc (s : Malloc) (p : Nat) (size : UInt32) : Option (Malloc × Nat) :=
  if p = 0 then some (s.malloc size)
  else if size = 0 then (s.free p).map fun s => (s, 0)
  else if !isAlloc s.mem (p - PART) then some (s, 0)
  else if size.toNat ≤ getSize s.mem (p - PART) then some (s, p)
  else
    let (s, temp) := s.malloc size
    if temp = 0 then some (s, 0) else (s.free p).map fun s => (s, temp)

/-! ## The list of partitions -/

/-- The partitions from `low` on link to each other up to `high`, and each of them is
allocated or free. -/
def Tiles (mem : Nat → HeapPart) (low : Nat) : List Nat → Nat → Prop
  | [], high => low = high
  | a :: l, high => a = low ∧ (a + PART ≤ (mem a).next ∧
      (isAlloc mem a = true ∨ isFree mem a = true)) ∧ Tiles mem (mem a).next l high

/-- The memory of a partition with its header. -/
def part (mem : Nat → HeapPart) (a : Nat) : Span := ⟨a, (mem a).next - a⟩

variable {mem mem' : Nat → HeapPart} {low high a : Nat} {l l' : List Nat}

lemma tiles_append : Tiles mem low (l ++ l') high ↔
    ∃ mid, Tiles mem low l mid ∧ Tiles mem mid l' high := by
  induction l generalizing low with
  | nil => simp [Tiles]
  | cons a l ih =>
    rw [List.cons_append, Tiles, ih]
    constructor
    · rintro ⟨hlow, ha, mid, hl, hl'⟩
      exact ⟨mid, ⟨hlow, ha, hl⟩, hl'⟩
    · rintro ⟨mid, ⟨hlow, ha, hl⟩, hl'⟩
      exact ⟨hlow, ha, mid, hl, hl'⟩

section

variable (h : Tiles mem low l high)
include h

/-- The partitions depend on their own headers only. -/
lemma Tiles.congr (hsame : ∀ a ∈ l, mem' a = mem a) :
    Tiles mem' low l high := by
  induction l generalizing low with
  | nil => exact h
  | cons a l ih =>
    obtain ⟨hlow, ha, hl⟩ := h
    have heq := hsame a (.head _)
    refine ⟨hlow, ?_, ?_⟩
    · rwa [isAlloc, isFree, heq]
    · rw [heq]
      exact ih hl fun b hb => hsame b (List.mem_cons_of_mem a hb)

/-- The partitions follow each other without a gap. -/
lemma Tiles.adjacent : Adjacent low (l.map (part mem)) high := by
  induction l generalizing low with
  | nil => exact h
  | cons a l ih =>
    obtain ⟨hlow, ⟨hle, -⟩, hl⟩ := h
    have hstop : (part mem a).stop = (mem a).next := by
      rw [stop, part]
      dsimp only
      omega
    refine ⟨hlow, ?_⟩
    rw [hstop]
    exact ih hl

lemma Tiles.part_inside (ha : a ∈ l) :
    low ≤ a ∧ a + PART ≤ (mem a).next ∧ (mem a).next ≤ high ∧
      (isAlloc mem a = true ∨ isFree mem a = true) := by
  induction l generalizing low with
  | nil => exact absurd ha List.not_mem_nil
  | cons b l ih =>
    obtain ⟨rfl, ⟨hle, hmagic⟩, hl⟩ := h
    have htotal := hl.adjacent.total_eq
    rcases List.mem_cons.mp ha with rfl | ha
    · exact ⟨le_rfl, hle, by omega, hmagic⟩
    · obtain ⟨hlow, hrest⟩ := ih hl ha
      exact ⟨by omega, hrest⟩

lemma Tiles.le : low ≤ high := by
  have htotal := h.adjacent.total_eq
  omega

lemma Tiles.length_le : low + PART * l.length ≤ high := by
  induction l generalizing low with
  | nil => exact h.le
  | cons a l ih =>
    obtain ⟨rfl, ⟨hle, -⟩, hl⟩ := h
    have hrest := ih hl
    rw [List.length_cons, Nat.mul_succ]
    omega

/-- Every partition ends before the next ones begin. -/
lemma Tiles.sorted : l.Pairwise fun a b => (mem a).next ≤ b := by
  induction l generalizing low with
  | nil => exact List.Pairwise.nil
  | cons a l ih =>
    obtain ⟨rfl, -, hl⟩ := h
    exact List.pairwise_cons.mpr ⟨fun b hb => (hl.part_inside hb).1, ih hl⟩

lemma Tiles.nodup : l.Nodup := by
  apply h.sorted.imp_of_mem
  intro a b ha _ hle
  have hpart := (h.part_inside ha).2.1
  have hsize : PART = 8 := rfl
  omega

/-- The end of the list is none of the partitions. -/
lemma Tiles.high_not_mem : high ∉ l := by
  intro hmem
  obtain ⟨-, hle, hhigh, -⟩ := h.part_inside hmem
  have hsize : PART = 8 := rfl
  omega

end

/-- No partition is the last marker. -/
lemma not_isLast (h : isAlloc mem a = true ∨ isFree mem a = true) : isLast mem a = false := by
  unfold isLast
  rcases h with h | h
  · rw [of_decide_eq_true h]
    rfl
  · rw [of_decide_eq_true h]
    rfl

lemma not_isAlloc_of_isFree (h : isFree mem a = true) : isAlloc mem a = false := by
  unfold isAlloc
  rw [of_decide_eq_true h]
  rfl

/-- A partition as a cell of memory. -/
def cell (mem : Nat → HeapPart) (a : Nat) : Cell := ⟨a, getSize mem a, isFree mem a⟩

/-- The partitions of a list. -/
def cells (mem : Nat → HeapPart) (l : List Nat) : List Cell := l.map (cell mem)

@[simp] lemma cell_free (mem : Nat → HeapPart) (a : Nat) : (cell mem a).free = isFree mem a := rfl

@[simp] lemma cell_size (mem : Nat → HeapPart) (a : Nat) : (cell mem a).size = getSize mem a := rfl

@[simp] lemma cells_nil (mem : Nat → HeapPart) : cells mem [] = [] := rfl

@[simp] lemma cells_cons (mem : Nat → HeapPart) (a : Nat) (l : List Nat) :
    cells mem (a :: l) = cell mem a :: cells mem l := rfl

@[simp] lemma cells_append (mem : Nat → HeapPart) (l l' : List Nat) :
    cells mem (l ++ l') = cells mem l ++ cells mem l' := List.map_append

lemma cell_congr (h : mem' a = mem a) : cell mem' a = cell mem a := by
  rw [cell, cell, getSize, getSize, isFree, isFree, h]

lemma cells_congr (h : ∀ a ∈ l, mem' a = mem a) : cells mem' l = cells mem l :=
  List.map_congr_left fun a ha => cell_congr (h a ha)

section

variable (h : Tiles mem low l high)
include h

/-- The next partition is behind the memory of this one. -/
lemma Tiles.next_eq (hword : high < WORD) (ha : a ∈ l) :
    (mem a).next = a + PART + getSize mem a := by
  rcases h.part_inside ha with ⟨-, hle, hhigh, -⟩
  rw [getSize, sub_eq hle (by omega)]
  omega

/-- The partitions and their headers fill the space. -/
lemma Tiles.total_eq (hword : high < WORD) :
    low + ((cells mem l).map Cell.size).sum + PART * l.length = high := by
  induction l generalizing low with
  | nil => exact h
  | cons a l ih =>
    have hnext := h.next_eq hword (.head _)
    rcases h with ⟨rfl, -, hl⟩
    have hrest := ih hl
    simp only [cells, cell, List.map_cons, List.sum_cons, List.length_cons, Nat.mul_succ]
      at hrest ⊢
    omega

/-- The allocated partitions are the cells in use. -/
lemma Tiles.filter_alloc :
    l.filter (isAlloc mem) = ((cells mem l).filter fun c => !c.free).map Cell.pointer := by
  induction l generalizing low with
  | nil => rfl
  | cons a l ih =>
    rcases h with ⟨-, ⟨-, hmagic⟩, hl⟩
    have halloc : isAlloc mem a = !isFree mem a := by
      cases hfree : isFree mem a with
      | true => exact not_isAlloc_of_isFree hfree
      | false => exact hmagic.resolve_right (by rw [hfree]; exact Bool.false_ne_true)
    rw [cells, List.map_cons, List.filter_cons, List.filter_cons, halloc, ih hl]
    cases hfree : isFree mem a with
    | true | false => simp [cell, cells, hfree]

/-! ## The loops -/

/-- The search for a free partition. -/
theorem Tiles.findFree_eq (hlast : isLast mem high = true)
    (newsize : Nat) {n : Nat} (hn : l.length < n) :
    findFree mem newsize n low = l.find? fun a => isFree mem a && newsize ≤ getSize mem a := by
  induction l generalizing low n with
  | nil =>
    obtain ⟨n, rfl⟩ := Nat.exists_eq_succ_of_ne_zero (Nat.ne_of_gt hn)
    obtain rfl : low = high := h
    rw [findFree, if_pos hlast]
    rfl
  | cons a l ih =>
    obtain ⟨n, rfl⟩ := Nat.exists_eq_succ_of_ne_zero (Nat.ne_of_gt (Nat.zero_lt_of_lt hn))
    obtain ⟨rfl, ⟨-, hmagic⟩, hl⟩ := h
    have hrest := ih hl (Nat.lt_of_succ_lt_succ hn)
    rw [findFree, not_isLast hmagic, if_neg Bool.false_ne_true, List.find?_cons]
    by_cases halloc : isAlloc mem a = true
    · have hfree : isFree mem a = false := by
        apply Bool.eq_false_iff.mpr
        intro hfree
        rw [not_isAlloc_of_isFree hfree] at halloc
        contradiction
      rw [if_pos halloc, hrest, hfree]
      rfl
    · rw [if_neg halloc, hmagic.resolve_left halloc, Bool.true_and, hrest]
      by_cases hsize : getSize mem a < newsize
      · rw [if_pos hsize, decide_eq_false (Nat.not_le.mpr hsize)]
      · rw [if_neg hsize, decide_eq_true (Nat.not_lt.mp hsize)]

/-- The inner loop of the merge stops at the first place that is not free. -/
lemma Tiles.skipFree_split (hlast : isLast mem high = true) {n : Nat}
    (hn : l.length ≤ n) (bytes : Nat) :
    ∃ frees rest, l = frees ++ rest ∧ (∀ a ∈ frees, isFree mem a = true) ∧
      (∀ a ∈ rest.head?, isFree mem a = false) ∧ Tiles mem low frees (skipFree mem n low bytes).1 ∧
      Tiles mem (skipFree mem n low bytes).1 rest high ∧
      (skipFree mem n low bytes).2 = bytes + PART * frees.length := by
  induction n generalizing low l bytes with
  | zero =>
    rcases List.length_eq_zero_iff.mp (Nat.le_zero.mp hn) with rfl
    exact ⟨[], [], rfl, by simp, by simp, rfl, h, rfl⟩
  | succ n ih =>
    rw [skipFree]
    by_cases hfree : isFree mem low = true
    · rw [if_pos hfree]
      cases l with
      | nil =>
        obtain rfl : low = high := h
        rw [not_isLast (.inr hfree)] at hlast
        contradiction
      | cons a l =>
        rcases h with ⟨rfl, ha, hl⟩
        rcases ih hl (Nat.le_of_succ_le_succ hn) (bytes + PART) with
          ⟨frees, rest, rfl, hall, hhead, hfrees, hrest, hbytes⟩
        refine ⟨a :: frees, rest, rfl, ?_, hhead, ⟨rfl, ha, hfrees⟩, hrest, ?_⟩
        · exact List.forall_mem_cons.mpr ⟨hfree, hall⟩
        · rw [hbytes, List.length_cons, Nat.mul_succ]
          omega
    · rw [if_neg hfree]
      refine ⟨[], l, rfl, by simp, ?_, rfl, h, rfl⟩
      cases l with
      | nil => simp
      | cons a l =>
        rcases h with ⟨rfl, -, -⟩
        simpa using hfree

end

@[simp] lemma setNext_magic (mem : Nat → HeapPart) (p next a : Nat) :
    (setNext mem p next a).magic = (mem a).magic := by
  rw [setNext]
  by_cases ha : a = p
  · rw [ha, update_self]
  · rw [update_of_ne ha]

/-- A link is only written when it changes. -/
lemma setNext_ite (mem : Nat → HeapPart) (p next : Nat) :
    (if (mem p).next ≠ next then setNext mem p next else mem) = setNext mem p next := by
  by_cases heq : (mem p).next = next
  · rw [if_neg (not_not.mpr heq), setNext, ← heq]
    exact (update_eq_self p mem).symm
  · rw [if_pos heq]

/-- What merging leaves alone: the magic numbers and the allocated partitions. -/
structure Merged (mem mem' : Nat → HeapPart) (l : List Nat) : Prop where
  magic : ∀ a, (mem' a).magic = (mem a).magic
  alloc : ∀ a, isFree mem a = false → mem' a = mem a
  other : ∀ a, a ∉ l → mem' a = mem a

lemma Merged.isFree_eq (h : Merged mem mem' l) (a : Nat) : isFree mem' a = isFree mem a := by
  rw [isFree, isFree, h.magic]

lemma Merged.refl (mem : Nat → HeapPart) (l : List Nat) : Merged mem mem l :=
  ⟨fun _ => rfl, fun _ _ => rfl, fun _ _ => rfl⟩

/-- A free partition takes the free ones behind it. -/
lemma Merged.setNext (next : Nat) (hfree : isFree mem a = true) (ha : a ∈ l) :
    Merged mem (setNext mem a next) l := by
  refine ⟨setNext_magic mem a next, fun b hb => ?_, fun b hb => ?_⟩
  · apply update_of_ne
    rintro rfl
    rw [hfree] at hb
    contradiction
  · apply update_of_ne
    rintro rfl
    exact hb ha

lemma Merged.trans {mem'' : Nat → HeapPart} (h : Merged mem mem' l) (h' : Merged mem' mem'' l')
    (hsub : ∀ a ∈ l', a ∈ l) : Merged mem mem'' l := by
  refine ⟨fun a => (h'.magic a).trans (h.magic a), fun a ha => ?_, fun a ha => ?_⟩
  · rw [h'.alloc a (by rw [h.isFree_eq, ha]), h.alloc a ha]
  · rw [h'.other a fun hmem => ha (hsub a hmem), h.other a ha]

/-- The list behind its first partition; behind the last marker there is the marker again. -/
lemma Tiles.tail (h : Tiles mem low l high) (hself : (mem high).next = high) :
    Tiles mem (mem low).next l.tail high := by
  cases l with
  | nil =>
    obtain rfl : low = high := h
    exact hself
  | cons a l =>
    obtain ⟨rfl, -, hl⟩ := h
    exact hl

/-- The list behind a first partition that is not free was merged. -/
lemma Tiles.of_tail (h : Tiles mem low l high) (hself : (mem high).next = high)
    (hhead : ∀ a ∈ l.head?, isFree mem a = false) (hmerged : Merged mem mem' l.tail)
    (htail : Tiles mem' (mem low).next l' high)
    (hcells : cells mem' l' = Cell.merge PART (cells mem l.tail)) :
    ∃ l'', Tiles mem' low l'' high ∧ cells mem' l'' = Cell.merge PART (cells mem l) ∧
      l''.length + l.tail.length = l'.length + l.length := by
  cases l with
  | nil =>
    obtain rfl : low = high := h
    rw [hself] at htail
    exact ⟨l', htail, hcells, rfl⟩
  | cons a l =>
    have hnotin : a ∉ l := (List.nodup_cons.mp h.nodup).1
    have hlive : (cell mem a).free = false := hhead a (by simp)
    rcases h with ⟨rfl, ha, -⟩
    have heq := hmerged.other a hnotin
    refine ⟨a :: l', ⟨rfl, ?_, ?_⟩, ?_, ?_⟩
    · rwa [isAlloc, isFree, heq]
    · rw [heq]
      exact htail
    · rw [List.tail_cons] at hcells
      rw [cells, cells, List.map_cons, List.map_cons, Cell.merge_live hlive, cell_congr heq,
        ← cells, ← cells, hcells]
    · simp only [List.tail_cons, List.length_cons]
      omega

/-- A free partition takes the free ones behind it. -/
lemma Tiles.merge {frees rest : List Nat} {stop : Nat}
    (h : Tiles mem a (a :: (frees ++ rest)) high) (hfree : isFree mem a = true)
    (hfrees : Tiles mem (mem a).next frees stop) (hrest : Tiles mem stop rest high) :
    Tiles (setNext mem a stop) a (a :: rest) high ∧ Tiles (setNext mem a stop) stop rest high ∧
      cells (setNext mem a stop) rest = cells mem rest := by
  have hnotin : a ∉ frees ++ rest := (List.nodup_cons.mp h.nodup).1
  have hsame : ∀ b ∈ rest, setNext mem a stop b = mem b := by
    intro b hb
    apply update_of_ne
    rintro rfl
    exact hnotin (List.mem_append_right _ hb)
  have hmerged := Merged.setNext stop hfree (List.mem_cons_self (a := a) (l := rest))
  have hrest' := hrest.congr hsame
  refine ⟨⟨rfl, ⟨?_, .inr ?_⟩, ?_⟩, hrest', cells_congr hsame⟩
  · rw [setNext, update_self]
    exact Nat.le_trans h.2.1.1 hfrees.le
  · rw [hmerged.isFree_eq]
    exact hfree
  · rw [setNext, update_self]
    exact hrest'

/-- The merged partition has the memory of the run. -/
lemma Tiles.cell_setNext {frees : List Nat} {stop : Nat} (h : Tiles mem a (a :: l) high)
    (hfrees : Tiles mem (mem a).next frees stop) (hstop : stop < WORD) :
    cell (setNext mem a stop) a =
      { cell mem a with size := Cell.runSize PART (cells mem (a :: frees)) } := by
  have hself : setNext mem a stop a = ⟨stop, (mem a).magic⟩ := update_self ..
  have htotal := hfrees.total_eq hstop
  have hle := h.2.1.1
  have hfree' : isFree (setNext mem a stop) a = isFree mem a := by
    rw [isFree, isFree, hself]
  have hnext : (mem a).next = a + PART + getSize mem a := by
    rw [getSize, sub_eq hle (by have := hfrees.le; omega)]
    omega
  have hsize : getSize (setNext mem a stop) a = Cell.runSize PART (cells mem (a :: frees)) := by
    rw [getSize, hself]
    rw [sub_eq (by omega) hstop, Cell.runSize]
    simp only [cells, cell, List.map_cons, List.sum_cons, List.length_cons, List.length_map,
      Nat.add_sub_cancel] at htotal ⊢
    omega
  rw [cell, cell, hsize, hfree']

/-- A free partition that has taken the free ones behind it is the first of the merged list. -/
lemma Tiles.cells_merge {frees rest : List Nat} {stop : Nat} (hword : high < WORD)
    (h : Tiles mem a (a :: (frees ++ rest)) high) (hfree : isFree mem a = true)
    (hfrees : Tiles mem (mem a).next frees stop) (hrest : Tiles mem stop rest high)
    (hall : ∀ b ∈ frees, isFree mem b = true) (hhead : ∀ b ∈ rest.head?, isFree mem b = false) :
    cell (setNext mem a stop) a :: Cell.merge PART (cells mem rest) =
      Cell.merge PART (cells mem (a :: (frees ++ rest))) := by
  have hstop := hrest.le
  have hallcells : ∀ c ∈ cells mem frees, c.free = true := by
    simpa [cells] using hall
  have hheadcells : ∀ c ∈ (cells mem rest).head?, c.free = false := by
    simpa [cells] using hhead
  have hrun := Cell.merge_run PART (cell_free mem a ▸ hfree) hallcells hheadcells
  rw [h.cell_setNext hfrees (by omega), cells_cons mem a (frees ++ rest), cells_append]
  exact hrun.symm

/-- Merging makes one partition of each run of free ones, and counts the headers that go. -/
theorem Tiles.defragFrom_cells (hword : high < WORD) (n : Nat) : ∀ {mem : Nat → HeapPart}
    {low : Nat} {l : List Nat} (bytes : Nat), Tiles mem low l high → isLast mem high = true →
    (mem high).next = high → l.length < n →
    ∃ l', Tiles (defragFrom n mem low bytes).1 low l' high ∧
      cells (defragFrom n mem low bytes).1 l' = Cell.merge PART (cells mem l) ∧
      (defragFrom n mem low bytes).2 + PART * l'.length = bytes + PART * l.length ∧
      Merged mem (defragFrom n mem low bytes).1 l := by
  induction n with
  | zero => exact fun _ _ _ _ hn => absurd hn (Nat.not_lt_zero _)
  | succ n ih =>
    intro mem low l bytes h hlast hself hn
    rw [defragFrom]
    cases l with
    | nil =>
      obtain rfl : low = high := h
      rw [if_pos hlast]
      exact ⟨[], rfl, rfl, rfl, Merged.refl mem []⟩
    | cons a l =>
      obtain rfl : a = low := h.1
      have hlen : l.length < n := Nat.lt_of_succ_lt_succ hn
      rw [not_isLast h.2.1.2, if_neg Bool.false_ne_true]
      by_cases hfree : isFree mem a = true
      · rw [if_pos hfree]
        rcases h.2.2.skipFree_split hlast (Nat.le_of_lt hlen) bytes with
          ⟨frees, rest, rfl, hall, hhead, hfrees, hrest, hbytes⟩
        cases hskip : skipFree mem n (mem a).next bytes with
        | mk stop bytes' =>
          rw [hskip] at hfrees hrest hbytes
          dsimp only at hfrees hrest hbytes ⊢
          rw [setNext_ite]
          rcases h.merge hfree hfrees hrest with ⟨htiles, hbehind, hrestcells⟩
          have hmerged := Merged.setNext stop hfree
            (List.mem_cons_self (a := a) (l := frees ++ rest))
          have hself' : (setNext mem a stop high).next = high := by
            rw [setNext, update_of_ne]
            · exact hself
            · rintro rfl
              exact h.high_not_mem (.head _)
          have hfew : rest.tail.length < n := by
            rw [List.length_append] at hlen
            rw [List.length_tail]
            omega
          rcases ih bytes' (hbehind.tail hself') (by rwa [isLast, setNext_magic]) hself' hfew
            with ⟨l', htail, hcells, hlen', hmerged'⟩
          have hhead' : ∀ b ∈ rest.head?, isFree (setNext mem a stop) b = false := by
            intro b hb
            rw [hmerged.isFree_eq]
            exact hhead b hb
          rcases hbehind.of_tail hself' hhead' hmerged' htail hcells with
            ⟨l'', htiles', hcells', hlen''⟩
          have hnotin : a ∉ rest := (List.nodup_cons.mp htiles.nodup).1
          have heq := hmerged'.other a fun hmem => hnotin (List.mem_of_mem_tail hmem)
          refine ⟨a :: l'', ⟨rfl, ?_, ?_⟩, ?_, ?_, hmerged.trans hmerged' fun b hb =>
            List.mem_cons_of_mem a (List.mem_append_right _ (List.mem_of_mem_tail hb))⟩
          · rw [isAlloc, isFree, heq]
            exact htiles.2.1
          · rw [heq, setNext, update_self]
            exact htiles'
          · rw [cells_cons, cell_congr heq, hcells', hrestcells]
            exact h.cells_merge hword hfree hfrees hrest hall hhead
          · rw [List.length_tail] at hlen' hlen''
            simp only [List.length_cons, List.length_append, Nat.mul_succ, Nat.mul_add,
              PART] at hlen' hbytes ⊢
            omega
      · rw [if_neg hfree]
        rcases ih bytes h.2.2 hlast hself hlen with ⟨l', htail, hcells, hlen', hmerged⟩
        rcases h.of_tail hself (by simpa using hfree) hmerged htail hcells with
          ⟨l'', htiles, hcells', hlen''⟩
        refine ⟨l'', htiles, hcells', ?_, hmerged.magic, hmerged.alloc, fun b hb =>
          hmerged.other b fun hmem => hb (List.mem_cons_of_mem a hmem)⟩
        simp only [List.tail_cons, List.length_cons, PART] at hlen' hlen'' ⊢
        omega

end Malloc

end DiegOS.Support
