import DiegOS.Lib.ByteMemory
import DiegOS.Support.HeapSearch

/-!
# The contents of the heap

The headers of the heap and its blocks lie in the same bytes.  `malloc` and `free` store
the headers they change, and `realloc` copies a block between the two.

Main results:

- Theorem `HeapMemory.stored_of_clear`: what `malloc` stores is not in a live block.
- Theorem `realloc_preserves_iff`: `realloc` keeps the contents of the blocks exactly if
  the size does not wrap when it is rounded or no partition is free.
- Theorem `realloc_wraps`: a size that wraps gives a block that is too small.
-/

namespace DiegOS.Support

open Lib Malloc HeapUse

/-! ## The code -/

/-- A byte of a header: the link and the magic number, the low bytes first. -/
def HeapPart.byte (h : HeapPart) (k : Nat) : UInt8 :=
  if k < 4 then UInt8.ofNat (h.next / 256 ^ k) else UInt8.ofNat (h.magic / 256 ^ (k - 4))

/-- The bytes once the headers that have changed are stored. -/
def stored (mem mem' : Nat → HeapPart) (bytes : Bytes) : Bytes := fun i =>
  match (List.range PART).find? fun k => k ≤ i ∧ mem' (i - k) ≠ mem (i - k) with
  | none => bytes i
  | some k => (mem' (i - k)).byte k

/-- The heap with all its bytes. -/
structure HeapMemory where
  heap : Malloc
  bytes : Bytes

namespace HeapMemory

def malloc (h : HeapMemory) (size : UInt32) : HeapMemory × Nat :=
  (⟨(h.heap.malloc size).1, stored h.heap.mem (h.heap.malloc size).1.mem h.bytes⟩,
    (h.heap.malloc size).2)

/-- `free`; none if the assertion fails. -/
def free (h : HeapMemory) (p : Nat) : Option HeapMemory :=
  (h.heap.free p).map fun s => ⟨s, stored h.heap.mem s.mem h.bytes⟩

/-- `realloc`; none if the assertion of `free` fails. -/
def realloc (h : HeapMemory) (p : Nat) (size : UInt32) : Option (HeapMemory × Nat) :=
  if p = 0 then some (h.malloc size)
  else if size = 0 then (h.free p).map fun h => (h, 0)
  else if !isAlloc h.heap.mem (p - PART) then some (h, 0)
  else
    let oldsize := getSize h.heap.mem (p - PART)
    if size.toNat ≤ oldsize then some (h, p)
    else
      let (h, temp) := h.malloc size
      if temp ≠ 0 then
        ({ h with bytes := memcpy h.bytes temp h.bytes p oldsize }.free p).map fun h => (h, temp)
      else some (h, temp)

end HeapMemory

/-! ## What is stored -/

/-- Away from the headers that have changed the bytes stay. -/
lemma stored_of_forall {mem mem' : Nat → HeapPart} {bytes : Bytes} {i : Nat}
    (h : ∀ p, mem' p ≠ mem p → p + PART ≤ i ∨ i < p) : stored mem mem' bytes i = bytes i := by
  have hnone : ((List.range PART).find? fun k => k ≤ i ∧ mem' (i - k) ≠ mem (i - k)) = none := by
    apply List.find?_eq_none.mpr
    intro k hk hwritten
    have hlt := List.mem_range.mp hk
    obtain ⟨hle, hne⟩ := of_decide_eq_true hwritten
    have hfar := h (i - k) hne
    omega
  rw [stored, hnone]

namespace HeapMemory

variable {s s' : Malloc} {parts : List Nat} {a c i : Nat} {size : UInt32} {h : HeapMemory}

/-- What `malloc` stores is not in a live block. -/
theorem stored_of_clear (hclear : Clear s parts s') (ha : a ∈ parts)
    (halloc : isAlloc s.mem a = true)
    (hlow : a + PART ≤ i) (hhigh : i < (s.mem a).next) (bytes : Bytes) :
    stored s.mem s'.mem bytes i = bytes i := by
  apply stored_of_forall
  intro p hp
  have hout := hclear a ha halloc p hp
  omega

end HeapMemory

/-! ## Live blocks -/

/-- The list of partitions is the only one. -/
lemma Malloc.Tiles.unique {mem : Nat → HeapPart} {low high : Nat} {l l' : List Nat}
    (h : Tiles mem low l high) (h' : Tiles mem low l' high) : l = l' := by
  induction l generalizing low l' with
  | nil =>
    cases l' with
    | nil => rfl
    | cons a l' =>
      have hlength := h'.length_le
      rw [List.length_cons, PART, show low = high from h] at hlength
      omega
  | cons a l ih =>
    cases l' with
    | nil =>
      have hlength := h.length_le
      rw [List.length_cons, PART, show low = high from h'] at hlength
      omega
    | cons b l' =>
      obtain ⟨rfl, -, hl⟩ := h
      obtain ⟨rfl, -, hl'⟩ := h'
      rw [ih hl hl']

/-- The header of a live block of a heap whose partitions cover it. -/
def Live (s : Malloc) (a : Nat) : Prop :=
  ∃ parts, s.Listed parts ∧ a ∈ parts ∧ isAlloc s.mem a = true

/-- A block is still live, with its size and its contents. -/
structure Unchanged (h h' : HeapMemory) (c : Nat) : Prop where
  live : Live h'.heap c
  size : getSize h'.heap.mem c = getSize h.heap.mem c
  bytes : ∀ i < getSize h.heap.mem c, h'.bytes (c + PART + i) = h.bytes (c + PART + i)

/-- `realloc` of the block `a` returned `NULL`, and every live block is unchanged; or
it returned a live block `b` of that size or more, with the bytes of `a` at its start,
`a` is released unless it is `b`, and every other live block is unchanged. -/
def Preserves (h : HeapMemory) (a : Nat) (size : UInt32) (r : HeapMemory × Nat) : Prop :=
  (r.2 = 0 ∧ ∀ c, Live h.heap c → Unchanged h r.1 c) ∨
    ∃ b, r.2 = b + PART ∧ Live r.1.heap b ∧ size.toNat ≤ getSize r.1.heap.mem b ∧
      (∀ i < min (getSize h.heap.mem a) size.toNat,
        r.1.bytes (b + PART + i) = h.bytes (a + PART + i)) ∧
      (Live r.1.heap a ↔ b = a) ∧ (b = a ∨ ¬Live h.heap b) ∧
      ∀ c, Live h.heap c → c ≠ a → Unchanged h r.1 c

section Preservation

variable {s s' : Malloc} {parts parts' : List Nat} {a b c i : Nat} {size : UInt32}
  {h : HeapMemory}

lemma Live.mem (hlive : Live s a) (hparts : s.Listed parts) :
    a ∈ parts ∧ isAlloc s.mem a = true := by
  obtain ⟨parts', hparts', ha, halloc⟩ := hlive
  rw [hparts.tiles.unique hparts'.tiles]
  exact ⟨ha, halloc⟩

/-- A live block is smaller than the heap. -/
lemma Live.size_lt (hlive : Live s a) : getSize s.mem a + PART < WORD := by
  obtain ⟨parts, hparts, ha, -⟩ := hlive
  obtain ⟨hsize, hle, hhigh⟩ := hparts.getSize_eq ha
  have hword := hparts.word
  omega

lemma Unchanged.refl (hlive : Live h.heap c) : Unchanged h h c := ⟨hlive, rfl, fun _ _ => rfl⟩

/-- `malloc` leaves the live blocks unchanged. -/
lemma unchanged_malloc (hparts : h.heap.Listed parts) (hlive : Live h.heap c) (size : UInt32) :
    Unchanged h (h.malloc size).1 c := by
  obtain ⟨hc, halloc⟩ := hlive.mem hparts
  obtain ⟨⟨parts', hparts', hstill⟩, hkept, hclear⟩ := hparts.malloc_spared size
  obtain ⟨hc', halloc'⟩ := hstill c hc halloc
  obtain ⟨hsize, hle, -⟩ := hparts.getSize_eq hc
  refine ⟨⟨parts', hparts', hc', halloc'⟩, ?_, fun i hi => ?_⟩
  · rw [HeapMemory.malloc, getSize, getSize, hkept c hc halloc]
  · exact HeapMemory.stored_of_clear hclear hc halloc (Nat.le_add_right _ _) (by omega) h.bytes

/-- A block that is not released keeps its bytes. -/
lemma stored_released (hparts : s.Listed parts) (ha : a ∈ parts) (hc : c ∈ parts) (hne : c ≠ a)
    (hi : i < getSize s.mem c) (bytes : Bytes) :
    stored s.mem (s.released a).mem bytes (c + PART + i) = bytes (c + PART + i) := by
  obtain ⟨hsize, hle, -⟩ := hparts.getSize_eq hc
  have hpart := (hparts.getSize_eq ha).2.1
  apply stored_of_forall
  intro p hp
  have hself : p = a := by
    by_contra hother
    exact hp (setMagic_other _ _ hother)
  rcases hparts.apart hc ha hne with hapart | hapart
  · omega
  · omega

/-- The bytes copied into one block are not in another one. -/
lemma memcpy_apart (hparts : s.Listed parts) (hb : b ∈ parts) (hc : c ∈ parts) (hne : c ≠ b)
    (hi : i < getSize s.mem c) {n : Nat} (hn : n ≤ getSize s.mem b) (bytes src : Bytes) (p : Nat) :
    memcpy bytes (b + PART) src p n (c + PART + i) = bytes (c + PART + i) := by
  obtain ⟨hsize, hle, -⟩ := hparts.getSize_eq hc
  obtain ⟨hsize', hle', -⟩ := hparts.getSize_eq hb
  apply memcpy_apply_not_mem
  rcases hparts.apart hc hb hne with hapart | hapart
  · omega
  · omega

/-- What `realloc` does with a live block that is too small. -/
lemma realloc_moves (hlive : Live h.heap a) (hzero : size ≠ 0)
    (hsmall : getSize h.heap.mem a < size.toNat) : h.realloc (a + PART) size =
      if (h.malloc size).2 ≠ 0 then
        ({ (h.malloc size).1 with
          bytes := memcpy (h.malloc size).1.bytes (h.malloc size).2 (h.malloc size).1.bytes
            (a + PART) (getSize h.heap.mem a) }.free (a + PART)).map
          fun h' => (h', (h.malloc size).2)
      else some (h.malloc size) := by
  obtain ⟨parts, hparts, ha, halloc⟩ := hlive
  have hnot : ¬(!isAlloc h.heap.mem a) = true := by
    rw [halloc]
    exact Bool.false_ne_true
  rw [HeapMemory.realloc, if_neg (pointer_ne_zero a), if_neg hzero, Nat.add_sub_cancel, if_neg hnot]
  rw [if_neg (Nat.not_le.mpr hsmall)]

lemma realloc_stays (hlive : Live h.heap a) (hzero : size ≠ 0)
    (hfits : size.toNat ≤ getSize h.heap.mem a) :
    h.realloc (a + PART) size = some (h, a + PART) := by
  obtain ⟨parts, hparts, ha, halloc⟩ := hlive
  have hnot : ¬(!isAlloc h.heap.mem a) = true := by
    rw [halloc]
    exact Bool.false_ne_true
  rw [HeapMemory.realloc, if_neg (pointer_ne_zero a), if_neg hzero, Nat.add_sub_cancel, if_neg hnot]
  exact if_pos hfits

/-- A block that `malloc` gave is live and was not so before. -/
lemma Live.of_grown (hparts : s.Listed parts) (hgrown : Grown s parts s' [b]) :
    Live s' b ∧ ¬Live s b := by
  obtain ⟨parts', hparts', hperm⟩ := hgrown.listed
  have hmem : b ∈ parts'.filter (isAlloc s'.mem) :=
    hperm.mem_iff.mpr (List.mem_append_left _ (List.mem_singleton_self b))
  have hnodup := hperm.nodup_iff.mp (hparts'.tiles.nodup.filter _)
  refine ⟨⟨parts', hparts', (List.mem_filter.mp hmem).1, (List.mem_filter.mp hmem).2⟩, ?_⟩
  intro hlive
  exact (List.nodup_cons.mp hnodup).1 (List.mem_filter.mpr (hlive.mem hparts))

/-- A block that moves: it is copied to the new one and then released. -/
lemma moved_preserves (hlive : Live h.heap a) (hsmall : getSize h.heap.mem a < size.toNat)
    (hb : (h.malloc size).2 = b + PART) (hnew : Live (h.malloc size).1.heap b)
    (hfresh : ¬Live h.heap b) (hlarge : size.toNat ≤ getSize (h.malloc size).1.heap.mem b) :
    ∃ r, (({ (h.malloc size).1 with
      bytes := memcpy (h.malloc size).1.bytes (h.malloc size).2 (h.malloc size).1.bytes
        (a + PART) (getSize h.heap.mem a) } : HeapMemory).free (a + PART)).map
      (fun h' => (h', (h.malloc size).2)) = some r ∧ Preserves h a size r := by
  obtain ⟨parts, hparts, -⟩ := id hlive
  have hkept : ∀ c, Live h.heap c → Unchanged h (h.malloc size).1 c :=
    fun c hc => unchanged_malloc hparts hc size
  revert hb hnew hlarge hkept
  generalize (h.malloc size).2 = temp
  generalize (h.malloc size).1 = h'
  rintro rfl hnew hlarge hkept
  obtain ⟨parts', hparts', hbmem, -⟩ := id hnew
  obtain ⟨ha', haalloc⟩ := (hkept a hlive).live.mem hparts'
  have hne : b ≠ a := by
    rintro rfl
    exact hfresh hlive
  have hsize := (hkept a hlive).size
  -- the other blocks, and the new one, once `a` is released
  have hother : ∀ c, c ≠ a → Live h'.heap c → Live (h'.heap.released a) c ∧
      getSize (h'.heap.released a).mem c = getSize h'.heap.mem c := by
    intro c hc hclive
    obtain ⟨hcmem, hcalloc⟩ := hclive.mem hparts'
    have hheader : (h'.heap.released a).mem c = h'.heap.mem c := setMagic_other _ _ hc
    refine ⟨⟨parts', hparts'.released ha', hcmem, ?_⟩, ?_⟩
    · rw [isAlloc, hheader]
      exact hcalloc
    · rw [getSize, getSize, hheader]
  have hfree : ∀ bytes, (HeapMemory.mk h'.heap bytes).free (a + PART) =
      some ⟨h'.heap.released a, stored h'.heap.mem (h'.heap.released a).mem bytes⟩ := by
    intro bytes
    rw [HeapMemory.free, free_eq haalloc]
    rfl
  rw [hfree]
  refine ⟨_, rfl, .inr ⟨b, rfl, (hother b hne hnew).1, ?_, ?_, ?_,
    .inr hfresh, ?_⟩⟩
  · rw [(hother b hne hnew).2]
    exact hlarge
  · intro i hi
    dsimp only
    rw [stored_released hparts' ha' hbmem hne (by omega), memcpy_apply_mem (by omega) (by omega),
      show a + PART + (b + PART + i - (b + PART)) = a + PART + i by omega]
    exact (hkept a hlive).bytes i (by omega)
  · constructor
    · rintro ⟨-, -, -, halloc⟩
      have hfreed : isFree (h'.heap.released a).mem a = true := by
        rw [isFree, released_self]
        rfl
      rw [not_isAlloc_of_isFree hfreed] at halloc
      cases halloc
    · exact fun heq => absurd heq hne
  · intro c hc hca
    obtain ⟨hclive, hcsize, hcbytes⟩ := hkept c hc
    have hcb : c ≠ b := by
      rintro rfl
      exact hfresh hc
    refine ⟨(hother c hca hclive).1, (hother c hca hclive).2.trans hcsize, fun i hi => ?_⟩
    have hcmem := (hclive.mem hparts').1
    dsimp only
    rw [stored_released hparts' ha' hcmem hca (by omega),
      memcpy_apart hparts' hbmem hcmem hcb (by omega) (by omega)]
    exact hcbytes i hi

end Preservation

/-- For every heap whose partitions cover it, every live block and every size, `realloc` never
fails its assertion, and it keeps the contents exactly if the size does not wrap when it is rounded
or no partition is free. -/
theorem realloc_preserves_iff {h : HeapMemory} {a : Nat} {size : UInt32} (hlive : Live h.heap a)
    (hzero : size ≠ 0) : ∃ r, h.realloc (a + PART) size = some r ∧
      (Preserves h a size r ↔ SoundSize h.heap size) := by
  obtain ⟨parts, hparts, -⟩ := id hlive
  by_cases hfits : size.toNat ≤ getSize h.heap.mem a
  · -- the block stays where it is
    refine ⟨_, realloc_stays hlive hzero hfits, iff_of_true (Or.inr ⟨a, rfl, hlive, hfits,
      fun _ _ => rfl, iff_of_true hlive rfl, Or.inl rfl, fun c hc _ => Unchanged.refl hc⟩) ?_⟩
    have hlt := hlive.size_lt
    rw [PART] at hlt
    exact Or.inl (by omega)
  have hsmall := Nat.not_le.mp hfits
  rw [realloc_moves hlive hzero hsmall]
  rcases hparts.malloc size with ⟨hnull, -⟩ | ⟨b, -, hb, hgrown, hlarge⟩
  · -- there is no memory
    have hnull' : (h.malloc size).2 = 0 := hnull
    rw [if_neg (not_not.mpr hnull')]
    exact ⟨_, rfl, iff_of_true (Or.inl ⟨hnull', fun c hc => unchanged_malloc hparts hc size⟩)
      (soundSize_of_null hnull)⟩
  · have hb' : (h.malloc size).2 = b + PART := hb
    have hnull := hb'.trans_ne (pointer_ne_zero b)
    obtain ⟨hnew, hfresh⟩ := Live.of_grown hparts hgrown
    rw [if_pos hnull]
    by_cases hsound : SoundSize h.heap size
    · have hle := hsound.le_mult hparts hnull
      obtain ⟨r, hr, hpreserves⟩ :=
        moved_preserves hlive hsmall hb' hnew hfresh (hle.trans hlarge)
      exact ⟨r, hr, iff_of_true hpreserves hsound⟩
    · -- the block would have to be larger than the heap
      obtain ⟨-, -, -, haalloc⟩ := (unchanged_malloc hparts hlive size).live
      refine ⟨_, by rw [HeapMemory.free, free_eq haalloc]; rfl, iff_of_false ?_ hsound⟩
      rintro (⟨hzero', -⟩ | ⟨b', -, hlive', hlarge', -⟩)
      · exact hnull hzero'
      · have hlt := hlive'.size_lt
        have hhuge := Nat.not_lt.mp (not_or.mp hsound).1
        have hsize : PART = 8 := rfl
        omega

/-- A heap with a block of 8 bytes. -/
def blockHeap : HeapMemory := ⟨(smallHeap.malloc 8).1, fun _ => 0⟩

lemma blockHeap_live : Live blockHeap.heap 4096 := by
  refine ⟨[4096, 4112], ⟨⟨rfl, ⟨?_, .inl ?_⟩, rfl, ⟨?_, .inr ?_⟩, rfl⟩, rfl, ?_⟩, ?_, ?_⟩
  all_goals decide

/-- The block grows to 16 bytes. -/
theorem realloc_preserves_block : ∃ r, blockHeap.realloc (4096 + PART) 16 = some r ∧
    Preserves blockHeap 4096 16 r := by
  obtain ⟨r, hr, hiff⟩ := realloc_preserves_iff blockHeap_live (show (16 : UInt32) ≠ 0 by decide)
  exact ⟨r, hr, hiff.mpr (Or.inl (by decide))⟩

/-- A size that wraps gives a block that is too small. -/
theorem realloc_wraps : ¬∀ (h : HeapMemory) (a : Nat) (size : UInt32), Live h.heap a → size ≠ 0 →
    ∃ r, h.realloc (a + PART) size = some r ∧ Preserves h a size r := by
  intro hclaim
  obtain ⟨r, hr, hpreserves⟩ := hclaim blockHeap 4096 0xFFFFFFFF blockHeap_live (by decide)
  rcases hpreserves with ⟨hnull, -⟩ | ⟨b, -, hlive, hlarge, -⟩
  · have hptr : (blockHeap.realloc (4096 + PART) 0xFFFFFFFF).map Prod.snd = some 4120 := by decide
    rw [hr, Option.map_some, hnull] at hptr
    exact absurd hptr (by decide)
  · have hlt := hlive.size_lt
    have hsize : (0xFFFFFFFF : UInt32).toNat = 4294967295 := rfl
    rw [hsize] at hlarge
    rw [PART, WORD] at hlt
    omega

end DiegOS.Support
