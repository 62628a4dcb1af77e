import DiegOS.Support.Malloc
import DiegOS.Lib.Lists
import Mathlib.Data.Nat.Bitwise

/-!
# The use of the heap

The blocks that the calls of `malloc.c` give to their callers, and what every call keeps of
the list of partitions.

Main results:

- Theorem `HeapUse.Tiled.exec_iff`: exactly which calls keep the heap in order.
- Theorem `heap_stays_tiled`: what holds after every run of such calls.
- Theorem `malloc_init_too_small`: a heap that is accepted though it has no place for the
  last marker.
-/

namespace DiegOS.Support

open Lib Span Function

namespace Malloc

/-- The partitions of the heap and the last marker behind them. -/
structure Listed (s : Malloc) (parts : List Nat) : Prop where
  tiles : Tiles s.mem s.heapStart parts s.heapEnd
  last : s.mem s.heapEnd = ⟨s.heapEnd, MAGIC_LAST_NUMBER⟩
  word : s.heapEnd < WORD

/-- A call kept the allocated partitions, and the list has some new ones. -/
structure Grown (s : Malloc) (parts : List Nat) (s' : Malloc) (new : List Nat) : Prop where
  start : s'.heapStart = s.heapStart
  stop : s'.heapEnd = s.heapEnd
  kept : ∀ a ∈ parts, isAlloc s.mem a = true → s'.mem a = s.mem a
  listed : ∃ parts', s'.Listed parts' ∧
    (parts'.filter (isAlloc s'.mem)).Perm (new ++ parts.filter (isAlloc s.mem))

variable {s s' : Malloc} {parts parts' new : List Nat} {mem : Nat → HeapPart}
  {low high a b m newsize : Nat} {l : List Nat}

lemma Listed.isLast (h : s.Listed parts) : isLast s.mem s.heapEnd = true := by
  rw [Malloc.isLast, h.last]
  rfl

lemma Listed.length_lt (h : s.Listed parts) : parts.length < s.rounds := by
  have hle := h.tiles.length_le
  rw [PART] at hle
  rw [rounds, PART]
  omega

/-- The size of a partition. -/
lemma Listed.getSize_eq (h : s.Listed parts) (ha : a ∈ parts) :
    getSize s.mem a = (s.mem a).next - (a + PART) ∧ a + PART ≤ (s.mem a).next ∧
      (s.mem a).next ≤ s.heapEnd := by
  obtain ⟨-, hle, hhigh, -⟩ := h.tiles.part_inside ha
  have hword := h.word
  exact ⟨sub_eq hle (by omega), hle, hhigh⟩

/-! ## Magic numbers -/

@[simp] lemma setMagic_next (mem : Nat → HeapPart) (a m b : Nat) :
    (setMagic mem a m b).next = (mem b).next := by
  rw [setMagic]
  by_cases hb : b = a
  · rw [hb, update_self]
  · rw [update_of_ne hb]

lemma setMagic_other (mem : Nat → HeapPart) (m : Nat) (hb : b ≠ a) :
    setMagic mem a m b = mem b := update_of_ne hb _ _

lemma setMagic_self (mem : Nat → HeapPart) (a m : Nat) :
    setMagic mem a m a = ⟨(mem a).next, m⟩ := update_self ..

/-- The list of partitions does not depend on which of them are free. -/
lemma Tiles.setMagic (h : Tiles mem low l high)
    (hm : m = MAGIC_ALLOC_NUMBER ∨ m = MAGIC_FREE_NUMBER) :
    Tiles (setMagic mem a m) low l high := by
  induction l generalizing low with
  | nil => exact h
  | cons b l ih =>
    obtain ⟨hlow, ⟨hle, hmagic⟩, hl⟩ := h
    refine ⟨hlow, ⟨?_, ?_⟩, ?_⟩
    · rwa [setMagic_next]
    · by_cases hb : b = a
      · rw [isAlloc, isFree, hb, setMagic_self]
        exact hm.imp decide_eq_true decide_eq_true
      · rwa [isAlloc, isFree, setMagic_other mem m hb]
    · rw [setMagic_next]
      exact ih hl

/-! ## Allocations -/

lemma Grown.refl (h : s.Listed parts) : Grown s parts s [] :=
  ⟨rfl, rfl, fun _ _ _ => rfl, parts, h, List.Perm.refl _⟩

/-- The heap after a free partition was given away whole. -/
def whole (s : Malloc) (a : Nat) : Malloc :=
  { s with
    mem := setMagic s.mem a MAGIC_ALLOC_NUMBER
    allocbytes := (s.allocbytes + getSize s.mem a) % WORD
    freebytes := sub s.freebytes (getSize s.mem a) }

/-- The heap after the front of a free partition was given away. -/
def cut (s : Malloc) (a newsize : Nat) : Malloc :=
  { s with
    mem := setNext (Function.update (setMagic s.mem a MAGIC_ALLOC_NUMBER) (a + PART + newsize)
      ⟨(s.mem a).next, MAGIC_FREE_NUMBER⟩) a (a + PART + newsize)
    allocbytes := (s.allocbytes + newsize + PART) % WORD
    freebytes := sub s.freebytes (newsize + PART) }

lemma whole_self (s : Malloc) (a : Nat) :
    (s.whole a).mem a = ⟨(s.mem a).next, MAGIC_ALLOC_NUMBER⟩ := setMagic_self ..

lemma cut_mem (s : Malloc) (a newsize : Nat) : (s.cut a newsize).mem =
    setNext (update (setMagic s.mem a MAGIC_ALLOC_NUMBER) (a + PART + newsize)
      ⟨(s.mem a).next, MAGIC_FREE_NUMBER⟩) a (a + PART + newsize) := rfl

lemma cut_self (s : Malloc) (a newsize : Nat) :
    (s.cut a newsize).mem a = ⟨a + PART + newsize, MAGIC_ALLOC_NUMBER⟩ := by
  have hne : a ≠ a + PART + newsize := by
    rw [PART]
    omega
  rw [cut_mem, setNext, update_self, update_of_ne hne, setMagic_self]

lemma cut_middle (s : Malloc) (a newsize : Nat) :
    (s.cut a newsize).mem (a + PART + newsize) = ⟨(s.mem a).next, MAGIC_FREE_NUMBER⟩ := by
  have hne : a + PART + newsize ≠ a := by
    rw [PART]
    omega
  rw [cut_mem, setNext, update_of_ne hne, update_self]

lemma cut_other (hb : b ≠ a) (hb' : b ≠ a + PART + newsize) :
    (s.cut a newsize).mem b = s.mem b := by
  rw [cut_mem, setNext, update_of_ne hb, update_of_ne hb', setMagic_other _ _ hb]

lemma Listed.whole_listed (h : s.Listed parts) (ha : a ∈ parts) : (s.whole a).Listed parts := by
  have hend : s.heapEnd ≠ a := by
    rintro rfl
    exact h.tiles.high_not_mem ha
  exact ⟨h.tiles.setMagic (.inl rfl), (setMagic_other _ _ hend).trans h.last, h.word⟩

/-- The whole partition is given away. -/
lemma Listed.whole (h : s.Listed parts) (ha : a ∈ parts) (hfree : isFree s.mem a = true) :
    Grown s parts (s.whole a) [a] := by
  have halloc := not_isAlloc_of_isFree hfree
  have hother : ∀ b, b ≠ a → (s.whole a).mem b = s.mem b := fun b hb => setMagic_other _ _ hb
  refine ⟨rfl, rfl, fun b hb hball => hother b ?_, parts, h.whole_listed ha, ?_⟩
  · rintro rfl
    rw [halloc] at hball
    contradiction
  · apply filter_insert h.tiles.nodup ha halloc
    · rw [isAlloc, whole_self]
      rfl
    · intro b _ hb
      rw [isAlloc, isAlloc, hother b hb]

/-- The new header lies in the partition that is cut, so the others keep theirs. -/
lemma Listed.cut_kept (h : s.Listed parts) (ha : a ∈ parts)
    (hfits : newsize + PART ≤ getSize s.mem a) :
    (∀ b ∈ parts, b ≠ a → (s.cut a newsize).mem b = s.mem b) ∧
      (s.cut a newsize).mem s.heapEnd = s.mem s.heapEnd := by
  rcases h.getSize_eq ha with ⟨hsize, hle, hhigh⟩
  have hword := h.word
  have hpart : PART = 8 := rfl
  constructor
  · intro b hb hne
    apply cut_other hne
    rintro rfl
    have hsorted := h.tiles.sorted
    rcases List.append_of_mem ha with ⟨pre, suf, rfl⟩
    rcases List.pairwise_append.mp hsorted with ⟨-, hsuf, hpre⟩
    rcases List.mem_append.mp hb with hb' | hb'
    · have hlow := (h.tiles.part_inside hb).2.1
      have hbefore := hpre _ hb' a (.head _)
      omega
    · rcases List.mem_cons.mp hb' with heq | hb'
      · omega
      · have hbehind := (List.pairwise_cons.mp hsuf).1 _ hb'
        omega
  · apply cut_other
    · rintro heq
      exact h.tiles.high_not_mem (by rwa [heq])
    · omega

/-- The partition is cut in two. -/
lemma Listed.cut_listed {pre suf : List Nat} (h : s.Listed (pre ++ a :: suf))
    (hfits : newsize + PART ≤ getSize s.mem a) :
    (s.cut a newsize).Listed (pre ++ a :: (a + PART + newsize) :: suf) := by
  have ha : a ∈ pre ++ a :: suf := List.mem_append_right _ (.head _)
  rcases h.cut_kept ha hfits with ⟨hkept, hend⟩
  rcases h.getSize_eq ha with ⟨hsize, hle, hhigh⟩
  have hword := h.word
  have hnotin : a ∉ pre ++ suf :=
      (List.nodup_cons.mp (List.perm_middle.nodup_iff.mp h.tiles.nodup)).1
  have hpre : ∀ b ∈ pre, (s.cut a newsize).mem b = s.mem b := fun b hb =>
    hkept b (List.mem_append_left _ hb) fun heq => hnotin (heq ▸ List.mem_append_left _ hb)
  have hsuf : ∀ b ∈ suf, (s.cut a newsize).mem b = s.mem b := fun b hb =>
    hkept b (List.mem_append_right _ (List.mem_cons_of_mem a hb))
      fun heq => hnotin (heq ▸ List.mem_append_right _ hb)
  rcases tiles_append.mp h.tiles with ⟨mid, hfirst, rfl, -, hrest⟩
  refine ⟨?_, hend.trans h.last, hword⟩
  apply tiles_append.mpr
  refine ⟨a, hfirst.congr hpre, rfl, ⟨?_, .inl ?_⟩, ?_⟩
  · rw [cut_self]
    exact Nat.le_add_right _ _
  · rw [isAlloc, cut_self]
    rfl
  · rw [cut_self]
    refine ⟨rfl, ⟨?_, .inr ?_⟩, ?_⟩
    · rw [cut_middle]
      dsimp only
      omega
    · rw [isFree, cut_middle]
      rfl
    · rw [cut_middle]
      exact hrest.congr hsuf

/-- The front of the partition is given away. -/
lemma Listed.cut (h : s.Listed parts) (ha : a ∈ parts) (hfree : isFree s.mem a = true)
    (hfits : newsize + PART ≤ getSize s.mem a) : Grown s parts (s.cut a newsize) [a] := by
  have halloc := not_isAlloc_of_isFree hfree
  rcases h.cut_kept ha hfits with ⟨hkept, -⟩
  refine ⟨rfl, rfl, fun b hb hball => hkept b hb ?_, ?_⟩
  · rintro rfl
    rw [halloc] at hball
    contradiction
  · have hnodup := h.tiles.nodup
    rcases List.append_of_mem ha with ⟨pre, suf, rfl⟩
    refine ⟨_, h.cut_listed hfits, ?_⟩
    have hmiddle : isAlloc (s.cut a newsize).mem (a + PART + newsize) = false := by
      rw [isAlloc, cut_middle]
      rfl
    have hfilter : (pre ++ a :: (a + PART + newsize) :: suf).filter
        (isAlloc (s.cut a newsize).mem) =
        (pre ++ a :: suf).filter (isAlloc (s.cut a newsize).mem) := by
      simp only [List.filter_append, List.filter_cons, hmiddle, Bool.false_eq_true, if_false]
    rw [hfilter]
    apply filter_insert hnodup ha halloc
    · rw [isAlloc, cut_self]
      rfl
    · intro b hb hne
      rw [isAlloc, isAlloc, hkept b hb hne]

lemma Listed.cut_size (h : s.Listed parts) (ha : a ∈ parts)
    (hfits : newsize + PART ≤ getSize s.mem a) : getSize (s.cut a newsize).mem a = newsize := by
  rcases h.getSize_eq ha with ⟨hsize, hle, hhigh⟩
  have hword := h.word
  rw [getSize, cut_self]
  dsimp only
  rw [sub_eq (by omega) (by omega)]
  omega

/-- A search fails, or it gives away a free partition that is big enough, whole or in part. -/
lemma Listed.mallocInternal_cases (h : s.Listed parts) (newsize : Nat) :
    (s.mallocInternal newsize = (s, 0) ∧
      ∀ a ∈ parts, isFree s.mem a = true → getSize s.mem a < newsize) ∨
    ∃ a ∈ parts, isFree s.mem a = true ∧ newsize ≤ getSize s.mem a ∧
      ((getSize s.mem a < newsize + PART ∧ s.mallocInternal newsize = (s.whole a, a + PART)) ∨
        (newsize + PART ≤ getSize s.mem a ∧
          s.mallocInternal newsize = (s.cut a newsize, a + PART))) := by
  have hfind := h.tiles.findFree_eq h.isLast newsize h.length_lt
  have hword := h.word
  unfold Malloc.mallocInternal
  rw [hfind]
  cases hresult : parts.find? fun a => isFree s.mem a && newsize ≤ getSize s.mem a with
  | none =>
    left
    refine ⟨rfl, fun a ha hfree => ?_⟩
    have hno := List.find?_eq_none.mp hresult a ha
    simpa [hfree] using hno
  | some a =>
    right
    have ha := List.mem_of_find?_eq_some hresult
    have hfits := List.find?_some hresult
    rw [Bool.and_eq_true, decide_eq_true_eq] at hfits
    obtain ⟨hfree, hle⟩ := hfits
    obtain ⟨hsize, hpart, hhigh⟩ := h.getSize_eq ha
    have hpartsize : PART = 8 := rfl
    refine ⟨a, ha, hfree, hle, ?_⟩
    rw [Nat.mod_eq_of_lt (by omega)]
    dsimp only
    by_cases hwhole : getSize s.mem a < newsize + PART
    · rw [if_pos hwhole]
      exact .inl ⟨hwhole, rfl⟩
    · rw [if_neg hwhole, setMagic_next]
      exact .inr ⟨Nat.not_lt.mp hwhole, rfl⟩

/-- A search in the list of partitions. -/
lemma Listed.mallocInternal (h : s.Listed parts) (newsize : Nat) :
    (s.mallocInternal newsize = (s, 0) ∧
      ∀ a ∈ parts, isFree s.mem a = true → getSize s.mem a < newsize) ∨
    ∃ a, (s.mallocInternal newsize).2 = a + PART ∧
      Grown s parts (s.mallocInternal newsize).1 [a] ∧
      newsize ≤ getSize (s.mallocInternal newsize).1.mem a := by
  rcases h.mallocInternal_cases newsize with hnone | ⟨a, ha, hfree, hle, ⟨-, heq⟩ | ⟨hfits, heq⟩⟩
  · exact .inl hnone
  · right
    rw [heq]
    refine ⟨a, rfl, h.whole ha hfree, ?_⟩
    rw [getSize, whole_self]
    exact hle
  · right
    rw [heq]
    exact ⟨a, rfl, h.cut ha hfree hfits, Nat.le_of_eq (h.cut_size ha hfits).symm⟩

/-- Merging makes one partition of each run of free ones. -/
lemma Listed.defrag_cells (h : s.Listed parts) : ∃ parts', s.defrag.Listed parts' ∧
    cells s.defrag.mem parts' = Cell.merge PART (cells s.mem parts) ∧
    (defragFrom s.rounds s.mem s.heapStart 0).2 + PART * parts'.length = PART * parts.length ∧
    Merged s.mem s.defrag.mem parts := by
  rcases h.tiles.defragFrom_cells h.word s.rounds 0 h.isLast (by rw [h.last]) h.length_lt with
    ⟨parts', htiles, hcells, hbytes, hmerged⟩
  have hend : s.defrag.mem s.heapEnd = s.mem s.heapEnd := by
    apply hmerged.alloc
    rw [isFree, h.last]
    rfl
  refine ⟨parts', ⟨htiles, ?_, h.word⟩, hcells, by rw [hbytes, Nat.zero_add], hmerged⟩
  exact hend.trans h.last

/-- Merging keeps the list and the allocated partitions. -/
lemma Listed.defrag (h : s.Listed parts) : Grown s parts s.defrag [] := by
  obtain ⟨parts', hlisted, hcells, -, hmerged⟩ := h.defrag_cells
  have hkept : ∀ a, isFree s.mem a = false → s.defrag.mem a = s.mem a := hmerged.alloc
  refine ⟨rfl, rfl, fun a _ halloc => hkept a ?_, parts', hlisted, ?_⟩
  · apply Bool.eq_false_iff.mpr
    intro hfree
    rw [not_isAlloc_of_isFree hfree] at halloc
    contradiction
  · rw [hlisted.tiles.filter_alloc, h.tiles.filter_alloc, hcells, Cell.live_merge]
    exact List.Perm.refl _

/-- An allocated partition stays one. -/
lemma Grown.still (h : Grown s parts s' new) (ha : a ∈ parts) (halloc : isAlloc s.mem a = true) :
    isAlloc s'.mem a = true := by
  rw [isAlloc, h.kept a ha halloc]
  exact halloc

/-- One call after another. -/
lemma Grown.trans {s'' : Malloc} {more : List Nat} (h : Grown s parts s' new)
    (hperm : (parts'.filter (isAlloc s'.mem)).Perm (new ++ parts.filter (isAlloc s.mem)))
    (h' : Grown s' parts' s'' more) : Grown s parts s'' (more ++ new) := by
  obtain ⟨parts'', hparts'', hperm'⟩ := h'.listed
  refine ⟨h'.start.trans h.start, h'.stop.trans h.stop, fun a ha halloc => ?_,
    parts'', hparts'', ?_⟩
  · have ha' : a ∈ parts' := by
      have hmem : a ∈ parts'.filter (isAlloc s'.mem) :=
        hperm.mem_iff.mpr (List.mem_append_right _ (List.mem_filter.mpr ⟨ha, halloc⟩))
      exact (List.mem_filter.mp hmem).1
    rw [h'.kept a ha' (h.still ha halloc), h.kept a ha halloc]
  · rw [List.append_assoc]
    exact hperm'.trans (hperm.append_left more)

/-- What `malloc` does: it fails, or it returns a partition that is big enough. -/
lemma Listed.malloc (h : s.Listed parts) (size : UInt32) :
    ((s.malloc size).2 = 0 ∧ Grown s parts (s.malloc size).1 []) ∨
    ∃ a, size ≠ 0 ∧ (s.malloc size).2 = a + PART ∧ Grown s parts (s.malloc size).1 [a] ∧
      mult size.toNat LONG ≤ getSize (s.malloc size).1.mem a := by
  unfold Malloc.malloc
  by_cases hzero : size = 0
  · rw [if_pos hzero]
    exact .inl ⟨rfl, Grown.refl h⟩
  · rw [if_neg hzero]
    dsimp only
    rcases h.mallocInternal (mult size.toNat LONG) with ⟨hnone, -⟩ | ⟨a, hptr, hgrown, hsize⟩
    · rw [hnone]
      dsimp only
      rw [if_neg (by decide)]
      have hdefrag := h.defrag
      obtain ⟨parts', hparts', hperm⟩ := hdefrag.listed
      rcases hparts'.mallocInternal (mult size.toNat LONG) with
        ⟨hnone', -⟩ | ⟨a, hptr, hgrown, hsize⟩
      · left
        rw [hnone']
        exact ⟨rfl, hdefrag⟩
      · right
        exact ⟨a, hzero, hptr, hdefrag.trans hperm hgrown, hsize⟩
    · right
      rw [if_pos (hptr.trans_ne (pointer_ne_zero a))]
      exact ⟨a, hzero, hptr, hgrown, hsize⟩

/-- Without a free partition a search finds nothing. -/
lemma Listed.mallocInternal_full (h : s.Listed parts)
    (hfull : ∀ a ∈ parts, isFree s.mem a = false)
    (newsize : Nat) : s.mallocInternal newsize = (s, 0) := by
  have hnone : parts.find? (fun a => isFree s.mem a && newsize ≤ getSize s.mem a) = none := by
    apply List.find?_eq_none.mpr
    intro a ha
    rw [hfull a ha]
    exact Bool.false_ne_true
  unfold Malloc.mallocInternal
  rw [h.tiles.findFree_eq h.isLast newsize h.length_lt, hnone]

/-- Without a free partition `malloc` fails. -/
lemma Listed.malloc_full (h : s.Listed parts) (hfull : ∀ a ∈ parts, isFree s.mem a = false)
    (size : UInt32) : (s.malloc size).2 = 0 := by
  obtain ⟨parts', -, -, -, hmerged⟩ := h.defrag_cells
  have hmem : s.defrag.mem = s.mem := by
    ext1 a
    by_cases ha : a ∈ parts
    · exact hmerged.alloc a (hfull a ha)
    · exact hmerged.other a ha
  have hdefrag : s.defrag.Listed parts := by
    constructor
    · rw [hmem]
      exact h.tiles
    · rw [hmem]
      exact h.last
    · exact h.word
  unfold Malloc.malloc
  by_cases hzero : size = 0
  · rw [if_pos hzero]
  · rw [if_neg hzero]
    dsimp only
    rw [h.mallocInternal_full hfull]
    dsimp only
    rw [if_neg (by decide), hdefrag.mallocInternal_full (by rwa [hmem])]

/-- A size that has wrapped to 0 fits in every free partition. -/
lemma Listed.malloc_wrapped (h : s.Listed parts) (ha : a ∈ parts) (hfree : isFree s.mem a = true)
    {size : UInt32} (hzero : size ≠ 0) (hwrap : mult size.toNat LONG = 0) :
    (s.malloc size).2 ≠ 0 := by
  unfold Malloc.malloc
  rw [if_neg hzero, hwrap]
  dsimp only
  rcases h.mallocInternal 0 with ⟨-, hnone⟩ | ⟨b, hptr, -, -⟩
  · exact absurd (hnone a ha hfree) (Nat.not_lt_zero _)
  · have hpos : (s.mallocInternal 0).2 ≠ 0 := hptr.trans_ne (pointer_ne_zero b)
    rw [if_pos hpos]
    exact hpos

/-! ## Releases -/

/-- The heap after an allocated partition was released. -/
def released (s : Malloc) (a : Nat) : Malloc :=
  { s with
    mem := setMagic s.mem a MAGIC_FREE_NUMBER
    allocbytes := sub s.allocbytes (getSize s.mem a)
    freebytes := (s.freebytes + getSize s.mem a) % WORD }

lemma released_self (s : Malloc) (a : Nat) :
    (s.released a).mem a = ⟨(s.mem a).next, MAGIC_FREE_NUMBER⟩ := setMagic_self ..

lemma free_eq (halloc : isAlloc s.mem a = true) : s.free (a + PART) = some (s.released a) := by
  unfold Malloc.free
  rw [if_neg (by rw [PART]; omega), Nat.add_sub_cancel]
  exact if_pos halloc

lemma Listed.released (h : s.Listed parts) (ha : a ∈ parts) : (s.released a).Listed parts := by
  have hend : s.heapEnd ≠ a := by
    rintro rfl
    exact h.tiles.high_not_mem ha
  exact ⟨h.tiles.setMagic (.inr rfl), (setMagic_other _ _ hend).trans h.last, h.word⟩

/-- What `free` does with an allocated partition. -/
lemma Listed.free (h : s.Listed parts) (ha : a ∈ parts) (halloc : isAlloc s.mem a = true) :
    ∃ s', s.free (a + PART) = some s' ∧ s'.Listed parts ∧ s'.heapStart = s.heapStart ∧
      s'.heapEnd = s.heapEnd ∧ (parts.filter (isAlloc s.mem)).Perm
        (a :: parts.filter (isAlloc s'.mem)) ∧ ∀ b, b ≠ a → s'.mem b = s.mem b := by
  have hother : ∀ b, b ≠ a → (s.released a).mem b = s.mem b := fun b hb => setMagic_other _ _ hb
  refine ⟨s.released a, free_eq halloc, h.released ha, rfl, rfl, ?_, hother⟩
  apply filter_insert h.tiles.nodup ha _ halloc
  · intro b _ hb
    rw [isAlloc, isAlloc, hother b hb]
  · rw [isAlloc, released_self]
    rfl

end Malloc

/-! ## Live blocks -/

/-- The heap and the live blocks with the sizes that were asked for. -/
structure HeapUse where
  heap : Malloc
  live : List Span

/-- A call; blocks are named by their place in the list of live blocks, and a place behind the
list stands for `NULL`. -/
inductive HeapOp where
  | malloc (size : UInt32)
  | realloc (k : Nat) (size : UInt32)
  | free (k : Nat)

namespace HeapUse

open Malloc

/-- One call; none if an assertion fails. -/
def exec (h : HeapUse) : HeapOp → Option HeapUse
  | .malloc size =>
    let (heap, p) := h.heap.malloc size
    some ⟨heap, if p = 0 then h.live else h.live ++ [⟨p, size.toNat⟩]⟩
  | .realloc k size =>
    match h.live[k]? with
    | none => (h.heap.realloc 0 size).map fun (heap, p) =>
      ⟨heap, if p = 0 then h.live else h.live ++ [⟨p, size.toNat⟩]⟩
    | some b => (h.heap.realloc b.pointer size).map fun (heap, p) =>
      ⟨heap, if p ≠ 0 then h.live.eraseIdx k ++ [⟨p, size.toNat⟩]
        else if size = 0 then h.live.eraseIdx k else h.live⟩
  | .free k =>
    match h.live[k]? with
    | none => (h.heap.free 0).map fun heap => ⟨heap, h.live⟩
    | some b => (h.heap.free b.pointer).map fun heap => ⟨heap, h.live.eraseIdx k⟩

/-- A list of calls. -/
def run (h : HeapUse) : List HeapOp → Option HeapUse
  | [] => some h
  | op :: ops => (h.exec op).bind fun h' => h'.run ops

/-- The memory of a live block. -/
def memory (h : HeapUse) (b : Span) : Span := ⟨b.pointer, getSize h.heap.mem (b.pointer - PART)⟩

/-- The partitions cover the heap, the live blocks are the allocated ones, and each has at least
the size that was asked for. -/
structure Tiled (start stop : Nat) (h : HeapUse) : Prop where
  parts : ∃ parts, h.heap.Listed parts ∧
    (h.live.map Span.pointer).Perm ((parts.filter (isAlloc h.heap.mem)).map (· + PART))
  start : h.heap.heapStart = start
  stop : h.heap.heapEnd + PART ≤ stop
  large : ∀ b ∈ h.live, b.size ≤ (h.memory b).size

/-- No partition of the heap is free. -/
def Full (s : Malloc) : Prop := ∀ parts, s.Listed parts → ∀ a ∈ parts, isFree s.mem a = false

/-- The size does not wrap when it is rounded, or there is no memory to give. -/
def SoundSize (s : Malloc) (size : UInt32) : Prop := size.toNat + 3 < WORD ∨ Full s

/-- The condition on a call. -/
def Sound (h : HeapUse) : HeapOp → Prop
  | .malloc size => SoundSize h.heap size
  | .realloc _ size => SoundSize h.heap size
  | .free _ => True

/-- Every call of the list meets the condition when it is made. -/
def Meets : HeapUse → List HeapOp → Prop
  | _, [] => True
  | h, op :: ops => h.Sound op ∧ ∀ h', h.exec op = some h' → Meets h' ops

variable {start stop : Nat} {s s' : Malloc} {h : HeapUse} {live : List Span} {a p m n : Nat}
  {b : Span} {size : UInt32} {h' : HeapUse} {parts : List Nat}

/-- Where `malloc` fails the size is sound. -/
lemma soundSize_of_null (hfail : (s.malloc size).2 = 0) : SoundSize s size := by
  by_contra hsound
  obtain ⟨hwrap, hfree⟩ := not_or.mp hsound
  apply hfree
  intro parts' hlisted' a ha
  apply Bool.eq_false_iff.mpr
  intro hafree
  apply hlisted'.malloc_wrapped ha hafree _ _ hfail
  · rintro rfl
    exact hwrap (by decide)
  · have hlt := size.toNat_lt
    rw [mult, LONG]
    rw [WORD] at hwrap ⊢
    omega

/-- A sound size that `malloc` has memory for does not wrap. -/
lemma SoundSize.le_mult (hsound : SoundSize s size) (hlisted : s.Listed parts)
    (hnull : (s.malloc size).2 ≠ 0) : size.toNat ≤ mult size.toNat LONG := by
  rcases hsound with hlt | hfull
  · apply Support.le_mult (by decide)
    rw [LONG]
    omega
  · exact absurd (hlisted.malloc_full (hfull parts hlisted) size) hnull

/-- A live block is an allocated partition. -/
lemma Tiled.live_part (h : Tiled start stop h') (hb : b ∈ h'.live) :
    ∃ parts a, h'.heap.Listed parts ∧ a ∈ parts ∧ isAlloc h'.heap.mem a = true ∧
      b.pointer = a + PART := by
  obtain ⟨parts, hlisted, hperm⟩ := h.parts
  have hmem := hperm.mem_iff.mp (List.mem_map_of_mem hb)
  obtain ⟨a, ha, hptr⟩ := List.mem_map.mp hmem
  obtain ⟨hpart, halloc⟩ := List.mem_filter.mp ha
  exact ⟨parts, a, hlisted, hpart, halloc, hptr.symm⟩

/-- The memory of a live block lies in the heap. -/
lemma Tiled.inside (h : Tiled start stop h') (hb : b ∈ h'.live) :
    (h'.memory b).Inside start h'.heap.heapEnd := by
  obtain ⟨parts, a, hlisted, ha, -, hptr⟩ := h.live_part hb
  obtain ⟨hsize, hle, hhigh⟩ := hlisted.getSize_eq ha
  have hlow := (hlisted.tiles.part_inside ha).1
  rw [h.start] at hlow
  rw [Span.Inside, Span.stop, memory]
  dsimp only
  rw [hptr, Nat.add_sub_cancel, hsize]
  omega

/-- The memories of the live blocks do not overlap. -/
lemma Tiled.apart (h : Tiled start stop h') : (h'.live.map h'.memory).Pairwise Apart := by
  obtain ⟨parts, hlisted, hperm⟩ := h.parts
  have hparts : ((parts.filter (isAlloc h'.heap.mem)).map fun a =>
      (⟨a + PART, getSize h'.heap.mem a⟩ : Span)).Pairwise Apart := by
    apply List.pairwise_map.mpr
    apply (hlisted.tiles.sorted.filter _).imp_of_mem
    intro a c ha _ hle
    obtain ⟨hsize, hpart, -⟩ := hlisted.getSize_eq (List.mem_filter.mp ha).1
    left
    rw [Before, Span.stop]
    dsimp only
    omega
  have hsame : (h'.live.map h'.memory).Perm ((parts.filter (isAlloc h'.heap.mem)).map fun a =>
      (⟨a + PART, getSize h'.heap.mem a⟩ : Span)) := by
    have hmap := hperm.map fun p => (⟨p, getSize h'.heap.mem (p - PART)⟩ : Span)
    rw [List.map_map, List.map_map] at hmap
    apply hmap.trans
    rw [List.map_congr_left]
    intro a _
    rw [Function.comp_apply, Nat.add_sub_cancel]
  exact (hsame.pairwise_iff fun hab => Apart.symm hab).mpr hparts

/-- No block is nearly as large as the address space. -/
lemma Tiled.size_lt (h : Tiled start stop h')
    (hb : b ∈ h'.live) : b.size + PART ≤ h'.heap.heapEnd := by
  have hle := h.large b hb
  obtain ⟨parts, a, hlisted, ha, -, hptr⟩ := h.live_part hb
  obtain ⟨hsize, hpart, hhigh⟩ := hlisted.getSize_eq ha
  rw [memory] at hle
  dsimp only at hle
  rw [hptr, Nat.add_sub_cancel, hsize] at hle
  omega

/-- A call that gives no block keeps the live blocks. -/
lemma Tiled.grown (h : Tiled start stop ⟨s, live⟩) {parts new : List Nat}
    (hperm : (live.map Span.pointer).Perm ((parts.filter (isAlloc s.mem)).map (· + PART)))
    (hgrown : Grown s parts s' new) (more : List Span)
    (hmore : more.map Span.pointer = new.map (· + PART))
    (hlarge : ∀ b ∈ more, b.size ≤ getSize s'.mem (b.pointer - PART)) :
    Tiled start stop ⟨s', live ++ more⟩ := by
  obtain ⟨parts', hlisted', hperm'⟩ := hgrown.listed
  refine ⟨⟨parts', hlisted', ?_⟩, hgrown.start.trans h.start, ?_, fun b hb => ?_⟩
  · have hmap := hperm'.map (· + PART)
    rw [List.map_append, ← hmore] at hmap
    rw [List.map_append]
    exact (hperm.append_right _).trans (List.perm_append_comm.trans hmap.symm)
  · dsimp only
    rw [hgrown.stop]
    exact h.stop
  · rcases List.mem_append.mp hb with hb | hb
    · have hle := h.large b hb
      have hmem := hperm.mem_iff.mp (List.mem_map_of_mem hb)
      obtain ⟨a, ha, hptr⟩ := List.mem_map.mp hmem
      obtain ⟨hpart, halloc⟩ := List.mem_filter.mp ha
      rw [memory] at hle ⊢
      rw [← hptr, Nat.add_sub_cancel, getSize] at hle ⊢
      rwa [hgrown.kept a hpart halloc]
    · exact hlarge b hb

/-- What `malloc` does to a heap that is in order. -/
lemma Tiled.malloc (h : Tiled start stop ⟨s, live⟩) (size : UInt32) :
    ((s.malloc size).2 = 0 ∧ Tiled start stop ⟨(s.malloc size).1, live⟩ ∧ SoundSize s size) ∨
    ∃ n, (s.malloc size).2 ≠ 0 ∧
      Tiled start stop ⟨(s.malloc size).1, live ++ [⟨(s.malloc size).2, n⟩]⟩ ∧
      (SoundSize s size → size.toNat ≤ n) ∧ (¬SoundSize s size → WORD ≤ size.toNat + 3) := by
  obtain ⟨parts, hlisted, hperm⟩ := h.parts
  rcases hlisted.malloc size with ⟨hfail, hgrown⟩ | ⟨a, hzero, hptr, hgrown, hsize⟩
  · left
    refine ⟨hfail, ?_, soundSize_of_null hfail⟩
    have hsame := h.grown hperm hgrown [] rfl fun b hb => absurd hb List.not_mem_nil
    rwa [List.append_nil] at hsame
  · right
    have hnull : (s.malloc size).2 ≠ 0 := hptr.trans_ne (pointer_ne_zero _)
    refine ⟨mult size.toNat LONG, hnull, ?_, fun hsound => hsound.le_mult hlisted hnull,
      fun hsound => ?_⟩
    · apply h.grown hperm hgrown [⟨(s.malloc size).2, mult size.toNat LONG⟩]
      · rw [hptr]
        rfl
      · intro b hb
        rw [List.mem_singleton.mp hb, hptr]
        rwa [Nat.add_sub_cancel]
    · exact Nat.not_lt.mp (not_or.mp hsound).1

/-- A live block can be released. -/
lemma Tiled.free (h : Tiled start stop ⟨s, live⟩) {k : Nat} (hk : live[k]? = some b) :
    ∃ s', s.free b.pointer = some s' ∧ Tiled start stop ⟨s', live.eraseIdx k⟩ := by
  obtain ⟨hlt, rfl⟩ := List.getElem?_eq_some_iff.mp hk
  obtain ⟨parts, hlisted, hperm⟩ := h.parts
  have hmem := hperm.mem_iff.mp (List.mem_map_of_mem (List.getElem_mem hlt))
  obtain ⟨a, ha, hptr⟩ := List.mem_map.mp hmem
  obtain ⟨hpart, halloc⟩ := List.mem_filter.mp ha
  obtain ⟨s', hfree, hlisted', hstart, hstop, hfilter, hother⟩ := hlisted.free hpart halloc
  have hsplit := (List.getElem_cons_eraseIdx_perm hlt).map Span.pointer
  rw [List.map_cons, ← hptr] at hsplit
  have hrest : ((live.eraseIdx k).map Span.pointer).Perm
      ((parts.filter (isAlloc s'.mem)).map (· + PART)) := by
    have hall := hsplit.trans (hperm.trans (hfilter.map (· + PART)))
    exact (List.perm_cons _).mp hall
  have hptr' : live[k].pointer = a + PART := hptr.symm
  refine ⟨s', by rw [hptr']; exact hfree, ⟨parts, hlisted', hrest⟩, hstart.trans h.start, ?_,
    fun b hb => ?_⟩
  · dsimp only
    rw [hstop]
    exact h.stop
  · have hle := h.large b (List.mem_of_mem_eraseIdx hb)
    obtain ⟨c, hc, hcptr⟩ := List.mem_map.mp (hrest.mem_iff.mp (List.mem_map_of_mem hb))
    have hne : c ≠ a := by
      rintro rfl
      have hnodup := (hfilter.nodup_iff.mp (hlisted.tiles.nodup.filter _))
      exact (List.nodup_cons.mp hnodup).1 hc
    rw [memory] at hle ⊢
    rw [← hcptr, Nat.add_sub_cancel, getSize] at hle ⊢
    rwa [hother c hne]

/-- A block stays in order with another size exactly when it is large enough. -/
lemma Tiled.resize (h : Tiled start stop ⟨s, live ++ [⟨p, n⟩]⟩)
    (hsize : m ≤ getSize s.mem (p - PART)) : Tiled start stop ⟨s, live ++ [⟨p, m⟩]⟩ := by
  obtain ⟨parts, hlisted, hperm⟩ := h.parts
  refine ⟨⟨parts, hlisted, ?_⟩, h.start, h.stop, fun b hb => ?_⟩
  · rw [List.map_append] at hperm ⊢
    exact hperm
  · rcases List.mem_append.mp hb with hb | hb
    · exact h.large b (List.mem_append_left _ hb)
    · rw [List.mem_singleton.mp hb]
      exact hsize

/-- Whether the heap is in order after a call that gave a block. -/
lemma Tiled.resize_iff (h : Tiled start stop ⟨s, live ++ [⟨p, n⟩]⟩) (hstop : stop < WORD)
    {P : Prop} (hfits : P → m ≤ n) (hhuge : ¬P → WORD ≤ m + 3) :
    Tiled start stop ⟨s, live ++ [⟨p, m⟩]⟩ ↔ P := by
  have hlast : ∀ size, (⟨p, size⟩ : Span) ∈ live ++ [⟨p, size⟩] := fun size =>
    List.mem_append_right _ (List.mem_singleton_self _)
  constructor
  · intro hm
    by_contra hno
    have hle := hm.size_lt (hlast m)
    have hend := hm.stop
    have hlarge := hhuge hno
    rw [PART] at hle hend
    dsimp only at hle hend
    omega
  · intro hP
    exact h.resize ((hfits hP).trans (h.large _ (hlast n)))

/-- A call of `malloc` keeps the heap in order exactly when it meets the condition. -/
lemma Tiled.add_iff (h : Tiled start stop ⟨s, live⟩) (hstop : stop < WORD) (size : UInt32) :
    Tiled start stop ⟨(s.malloc size).1, if (s.malloc size).2 = 0 then live
      else live ++ [⟨(s.malloc size).2, size.toNat⟩]⟩ ↔ SoundSize s size := by
  rcases h.malloc size with ⟨hfail, htiled, hsound⟩ | ⟨n, hptr, htiled, hfits, hhuge⟩
  · rw [if_pos hfail]
    exact iff_of_true htiled hsound
  · rw [if_neg hptr]
    exact htiled.resize_iff hstop hfits hhuge

/-- What `realloc` of a live block does to a heap that is in order. -/
lemma Tiled.realloc (h : Tiled start stop ⟨s, live⟩) {k : Nat} (hk : live[k]? = some b)
    (size : UInt32) : ∃ s' p n, s.realloc b.pointer size = some (s', p) ∧
      Tiled start stop ⟨s', if p ≠ 0 then live.eraseIdx k ++ [⟨p, n⟩]
        else if size = 0 then live.eraseIdx k else live⟩ ∧
      (SoundSize s size → size.toNat ≤ n) ∧
      (¬SoundSize s size → p ≠ 0 ∧ WORD ≤ size.toNat + 3) := by
  obtain ⟨hlt, hget⟩ := List.getElem?_eq_some_iff.mp hk
  have hb : b ∈ live := List.mem_of_getElem? hk
  obtain ⟨parts, a, hlisted, ha, halloc, hptr⟩ := h.live_part hb
  have hnull : b.pointer ≠ 0 := hptr.trans_ne (pointer_ne_zero a)
  unfold Malloc.realloc
  rw [if_neg hnull]
  by_cases hzero : size = 0
  · rw [if_pos hzero]
    obtain ⟨s', hfree, htiled⟩ := h.free hk
    refine ⟨s', 0, size.toNat, by rw [hfree]; rfl, ?_, fun _ => le_rfl, fun hsound => ?_⟩
    · rw [if_neg (not_not.mpr rfl), if_pos hzero]
      exact htiled
    · rw [hzero] at hsound
      exact absurd (.inl (by decide)) hsound
  · have hsub : b.pointer - PART = a := by
      rw [hptr, Nat.add_sub_cancel]
    rw [if_neg hzero, hsub, halloc, if_neg (by decide)]
    by_cases hfits : size.toNat ≤ getSize s.mem a
    · rw [if_pos hfits]
      refine ⟨s, b.pointer, getSize s.mem a, rfl, ?_, fun _ => hfits,
        fun hsound => ⟨hnull, Nat.not_lt.mp (not_or.mp hsound).1⟩⟩
      rw [if_pos hnull]
      have hperm : live.Perm (live.eraseIdx k ++ [b]) := by
        rw [← hget]
        exact (List.getElem_cons_eraseIdx_perm hlt).symm.trans
          (List.perm_append_singleton _ _).symm
      have hsame : Tiled start stop ⟨s, live.eraseIdx k ++ [b]⟩ := by
        obtain ⟨parts', hlisted', hparts⟩ := h.parts
        exact ⟨⟨parts', hlisted', (hperm.map _).symm.trans hparts⟩, h.start, h.stop,
          fun c hc => h.large c (hperm.mem_iff.mpr hc)⟩
      apply hsame.resize
      rw [hsub]
    · rw [if_neg hfits]
      dsimp only
      rcases h.malloc size with ⟨hfail, htiled, hsound⟩ | ⟨n, hnew, htiled, hroom, hhuge⟩
      · rw [if_pos hfail]
        refine ⟨_, 0, size.toNat, rfl, ?_, fun _ => le_rfl, fun hno => absurd hsound hno⟩
        rw [if_neg (not_not.mpr rfl), if_neg hzero]
        exact htiled
      · rw [if_neg hnew]
        have hk' : (live ++ [⟨(s.malloc size).2, n⟩])[k]? = some b := by
          rw [List.getElem?_append_left hlt, hk]
        obtain ⟨s', hfree, hrest⟩ := htiled.free hk'
        rw [List.eraseIdx_append_of_lt_length hlt] at hrest
        refine ⟨s', (s.malloc size).2, n, by rw [hfree]; rfl, ?_, hroom,
          fun hsound => ⟨hnew, hhuge hsound⟩⟩
        rw [if_pos hnew]
        exact hrest

/-- A call of `realloc` keeps the heap in order exactly when it meets the condition. -/
lemma Tiled.realloc_iff (h : Tiled start stop ⟨s, live⟩) (hstop : stop < WORD) {k : Nat}
    (hk : live[k]? = some b) (size : UInt32) :
    ∃ s' p, s.realloc b.pointer size = some (s', p) ∧
      (Tiled start stop ⟨s', if p ≠ 0 then live.eraseIdx k ++ [⟨p, size.toNat⟩]
        else if size = 0 then live.eraseIdx k else live⟩ ↔ SoundSize s size) := by
  obtain ⟨s', p, n, hrealloc, htiled, hroom, hhuge⟩ := h.realloc hk size
  refine ⟨s', p, hrealloc, ?_⟩
  by_cases hnull : p = 0
  · rw [if_neg (not_not.mpr hnull)] at htiled ⊢
    apply iff_of_true htiled
    by_contra hsound
    exact (hhuge hsound).1 hnull
  · rw [if_pos hnull] at htiled ⊢
    exact htiled.resize_iff hstop hroom fun hsound => (hhuge hsound).2

/-- A call never fails an assertion, and it keeps the heap in order exactly when it meets the
condition. -/
theorem Tiled.exec_iff (h : Tiled start stop h') (hstop : stop < WORD) (op : HeapOp) :
    ∃ h'', h'.exec op = some h'' ∧ (Tiled start stop h'' ↔ h'.Sound op) := by
  cases op with
  | malloc size => exact ⟨_, rfl, h.add_iff hstop size⟩
  | realloc k size =>
    rw [exec]
    cases hk : h'.live[k]? with
    | none => exact ⟨_, rfl, h.add_iff hstop size⟩
    | some b =>
      obtain ⟨s', p, hrealloc, hiff⟩ := h.realloc_iff hstop hk size
      dsimp only
      rw [hrealloc]
      exact ⟨_, rfl, hiff⟩
  | free k =>
    rw [exec]
    cases hk : h'.live[k]? with
    | none => exact ⟨h', rfl, iff_of_true h trivial⟩
    | some b =>
      obtain ⟨s', hfree, htiled⟩ := h.free hk
      dsimp only
      rw [hfree]
      exact ⟨_, rfl, iff_of_true htiled trivial⟩

lemma Tiled.run (hstop : stop < WORD) (ops : List HeapOp) : ∀ {h' : HeapUse},
    Tiled start stop h' → Meets h' ops → ∃ h'', h'.run ops = some h'' ∧ Tiled start stop h'' := by
  induction ops with
  | nil => exact fun h _ => ⟨_, rfl, h⟩
  | cons op ops ih =>
    intro h' h hmeets
    obtain ⟨h₁, hexec, hiff⟩ := h.exec_iff hstop op
    obtain ⟨h'', hrun, htiled⟩ := ih (hiff.mpr hmeets.1) (hmeets.2 h₁ hexec)
    refine ⟨h'', ?_, htiled⟩
    rw [HeapUse.run, hexec]
    exact hrun

/-! ## Initialization -/

/-- The ends of an accepted heap are a number of headers apart. -/
lemma mod_eq_of_xor {x y : UInt32} (h : (x ^^^ y) &&& 7 = 0) :
    x.toNat % PART = y.toNat % PART := by
  have hbits : (x.toNat ^^^ y.toNat) % 2 ^ 3 = 0 := by
    rw [← Nat.and_two_pow_sub_one_eq_mod]
    have hnat := congrArg UInt32.toNat h
    rwa [UInt32.toNat_and, UInt32.toNat_xor] at hnat
  rw [Nat.xor_mod_two_pow] at hbits
  have hcancel := Nat.xor_xor_cancel_left (x.toNat % 2 ^ 3) (y.toNat % 2 ^ 3)
  rwa [hbits, Nat.xor_zero] at hcancel

/-- One free partition, or none. -/
lemma fresh (mem : Nat → HeapPart) (last : Nat) (hle : start ≤ last)
    (hmod : start % PART = last % PART) (hword : last < WORD) (hlast : last + PART ≤ stop)
    (hmem : s.mem = update (update mem start ⟨last, MAGIC_FREE_NUMBER⟩) last
      ⟨last, MAGIC_LAST_NUMBER⟩) (hstart : s.heapStart = start) (hend : s.heapEnd = last) :
    Tiled start stop ⟨s, []⟩ := by
  have hmarker : s.mem last = ⟨last, MAGIC_LAST_NUMBER⟩ := by
    rw [hmem, update_self]
  have hlarge : ∀ b ∈ ([] : List Span), b.size ≤ (memory ⟨s, []⟩ b).size :=
    fun b hb => absurd hb List.not_mem_nil
  rw [PART] at hmod
  by_cases hempty : start = last
  · refine ⟨⟨[], ⟨?_, ?_, ?_⟩, List.Perm.nil⟩, hstart, ?_, hlarge⟩
    · rw [hstart, hend]
      exact hempty
    · rw [hend]
      exact hmarker
    · rwa [hend]
    · rwa [hend]
  · have hfirst : s.mem start = ⟨last, MAGIC_FREE_NUMBER⟩ := by
      rw [hmem, update_of_ne hempty, update_self]
    refine ⟨⟨[start], ⟨?_, ?_, ?_⟩, ?_⟩, hstart, ?_, hlarge⟩
    · rw [hstart, hend]
      refine ⟨rfl, ⟨?_, .inr ?_⟩, ?_⟩
      · rw [hfirst, PART]
        dsimp only
        omega
      · rw [isFree, hfirst]
        rfl
      · rw [hfirst]
        rfl
    · rw [hend]
      exact hmarker
    · rwa [hend]
    · dsimp only
      rw [List.filter_cons_of_neg]
      · exact List.Perm.nil
      · rw [isAlloc, hfirst]
        exact Bool.false_ne_true
    · rwa [hend]

/-- What an accepted heap looks like. -/
lemma init_eq {mem : Nat → HeapPart} {heapstart heapend : UInt32}
    (hinit : Malloc.init mem heapstart heapend = (some s, .EOK)) :
    heapstart.toNat ≤ heapend.toNat ∧ heapstart.toNat % PART = heapend.toNat % PART ∧
      s = {
        mem := update (update mem heapstart.toNat
          ⟨sub heapend.toNat (PART * PART), MAGIC_FREE_NUMBER⟩) (sub heapend.toNat (PART * PART))
          ⟨sub heapend.toNat (PART * PART), MAGIC_LAST_NUMBER⟩
        heapStart := heapstart.toNat
        heapEnd := sub heapend.toNat (PART * PART)
        freebytes := sub (sub (sub heapend.toNat (PART * PART)) heapstart.toNat) (2 * PART)
        allocbytes := 2 * PART } := by
  unfold Malloc.init at hinit
  by_cases horder : heapend < heapstart
  · rw [if_pos horder] at hinit
    exact absurd (congrArg Prod.fst hinit) (by simp)
  rw [if_neg horder] at hinit
  by_cases hmod : (heapstart ^^^ heapend) &&& 7 ≠ 0
  · rw [if_pos hmod] at hinit
    exact absurd (congrArg Prod.fst hinit) (by simp)
  rw [if_neg hmod] at hinit
  exact ⟨UInt32.le_iff_toNat_le.mp (UInt32.not_lt.mp horder), mod_eq_of_xor (not_not.mp hmod),
    (Option.some.inj (congrArg Prod.fst hinit)).symm⟩

/-- A heap is in order at the beginning exactly when the end is behind the last marker's place. -/
lemma init_iff {mem : Nat → HeapPart} {heapstart heapend : UInt32}
    (hinit : Malloc.init mem heapstart heapend = (some s, .EOK)) :
    Tiled heapstart.toNat heapend.toNat ⟨s, []⟩ ↔
      heapstart.toNat + PART * PART ≤ heapend.toNat := by
  have hlt := heapend.toNat_lt
  obtain ⟨hle, halign, rfl⟩ := init_eq hinit
  constructor
  · intro h
    obtain ⟨parts, hlisted, -⟩ := h.parts
    have hstop := h.stop
    have hlow := hlisted.tiles.le
    dsimp only at hstop hlow
    rw [PART, sub, WORD] at hstop hlow
    rw [PART]
    omega
  · intro hroom
    have hsub : sub heapend.toNat (PART * PART) = heapend.toNat - PART * PART :=
      sub_eq (by omega) (by rw [WORD]; omega)
    rw [hsub]
    rw [PART] at hroom halign
    apply fresh mem (heapend.toNat - PART * PART)
    · rw [PART]
      omega
    · rw [PART]
      omega
    · rw [WORD]
      omega
    · rw [PART]
      omega
    · rfl
    · rfl
    · rfl

end HeapUse

/-- After the initialization the heap is in order exactly when there is a place for the last
marker.  Then no assertion fails in a run of calls that meet the condition, the partitions
cover the heap, and the memories of the live blocks lie in it and do not overlap; a further call
keeps this exactly when it meets the condition too. -/
theorem heap_stays_tiled {mem : Nat → HeapPart} {heapstart heapend : UInt32} {s : Malloc}
    (hinit : Malloc.init mem heapstart heapend = (some s, .EOK)) :
    (HeapUse.Tiled heapstart.toNat heapend.toNat ⟨s, []⟩ ↔
      heapstart.toNat + PART * PART ≤ heapend.toNat) ∧
    (heapstart.toNat + PART * PART ≤ heapend.toNat → ∀ ops, HeapUse.Meets ⟨s, []⟩ ops →
      ∃ h, (⟨s, []⟩ : HeapUse).run ops = some h ∧ h.Tiled heapstart.toNat heapend.toNat ∧
        (h.live.map h.memory).Pairwise Apart ∧
        (∀ b ∈ h.live, (h.memory b).Inside heapstart.toNat h.heap.heapEnd) ∧
        ∀ op, ∃ h', h.exec op = some h' ∧
          (h'.Tiled heapstart.toNat heapend.toNat ↔ h.Sound op)) := by
  have hiff := HeapUse.init_iff hinit
  have hword : heapend.toNat < WORD := heapend.toNat_lt
  refine ⟨hiff, fun hroom ops hmeets => ?_⟩
  obtain ⟨h, hrun, htiled⟩ := HeapUse.Tiled.run hword ops (hiff.mpr hroom) hmeets
  exact ⟨h, hrun, htiled, htiled.apart, fun b hb => htiled.inside hb, htiled.exec_iff hword⟩

/-- The heap of 128 bytes at 4096. -/
def smallHeap : Malloc :=
  { mem := Function.update (Function.update (fun _ => ⟨0, 0⟩) 4096 ⟨4160, MAGIC_FREE_NUMBER⟩) 4160
      ⟨4160, MAGIC_LAST_NUMBER⟩
    heapStart := 4096
    heapEnd := 4160
    allocbytes := 16
    freebytes := 48 }

lemma smallHeap_init : Malloc.init (fun _ => ⟨0, 0⟩) 4096 4224 = (some smallHeap, .EOK) := rfl

/-- Two blocks, the first one is released and the second one grows. -/
theorem heap_stays_tiled_three :
    ∃ h, (⟨smallHeap, []⟩ : HeapUse).run [.malloc 10, .malloc 7, .free 0, .realloc 0 12] = some h ∧
      (h.live.map h.memory).Pairwise Apart := by
  have hmeets : HeapUse.Meets ⟨smallHeap, []⟩ [.malloc 10, .malloc 7, .free 0, .realloc 0 12] := by
    exact ⟨Or.inl (by decide), fun _ _ => ⟨Or.inl (by decide), fun _ _ => ⟨trivial,
      fun _ _ => ⟨Or.inl (by decide), fun _ _ => trivial⟩⟩⟩⟩
  obtain ⟨h, hrun, -, hapart, -, -⟩ := (heap_stays_tiled smallHeap_init).2 (by decide) _ hmeets
  exact ⟨h, hrun, hapart⟩

/-- A heap without any memory is accepted, and its first block lies behind its end.  In a good
heap a size that wraps to 0 gets a block of no bytes. -/
theorem malloc_init_too_small :
    (∃ s, Malloc.init (fun _ => ⟨0, 0⟩) 4096 4096 = (some s, .EOK) ∧ (s.malloc 100).2 = 4104 ∧
      s.heapEnd < s.heapStart) ∧
    ((⟨smallHeap, []⟩ : HeapUse).exec (.malloc 0xFFFFFFFF)).map
      (fun h => (h.live, h.live.map h.memory)) = some ([⟨4104, 0xFFFFFFFF⟩], [⟨4104, 0⟩]) := by
  refine ⟨⟨_, rfl, ?_, ?_⟩, ?_⟩
  · decide
  · decide
  · decide

end DiegOS.Support
