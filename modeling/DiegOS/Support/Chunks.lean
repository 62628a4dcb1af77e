import DiegOS.Lib.Lists
import DiegOS.Lib.Spans
import DiegOS.Support.Bitmaps

/-!
# Chunk pools

`chunks.c`: chunks of one size out of a list of pools.  A pool is added in front of the list
when all are full and removed when all its chunks are free; the last one, made with the list,
stays.

Main results:

- Theorem `ChunksUse.Placed.malloc`, `ChunksUse.Placed.free`: what a call keeps.
- Theorem `chunks_stay_in_pools`: what holds after every run of such calls.
- Theorem `chunk_leaves_pool`: a pool whose buffer is too small.
-/

namespace DiegOS.Support

open Lib Span

/-! ## The code -/

/-- `struct pool_array` -/
structure PoolArray where
  buffer : Nat
  bufstart : Nat
  numitems : Nat
  free : Nat
  bitmap : List Long
deriving DecidableEq

/-- `struct chunks_pool` with the list of pools from its head on. -/
structure ChunksPool where
  aln : Nat
  size : Nat
  delta : Nat
  pools : List PoolArray
deriving DecidableEq

/-- What `malloc` returns for the parts of a pool; `NULL` is 0. -/
structure PoolBlocks where
  array : Nat
  buffer : Nat
  bitmap : Nat

/-- There is no block of 0 bytes. -/
def given (size block : Nat) : Nat := if size = 0 then 0 else block

namespace ChunksPool

/-- The size of the buffer of a pool. -/
def total (ptr : ChunksPool) (numitems : Nat) : Nat := (ptr.size * numitems + ptr.aln) % WORD

def createPool (ptr : ChunksPool) (numitems : Nat) (m : PoolBlocks) : ChunksPool × Status :=
  if m.array = 0 then (ptr, .ENOMEM)
  else if given (ptr.total numitems) m.buffer = 0 then (ptr, .ENOMEM)
  else if given (BITMAPBYTES numitems) m.bitmap = 0 then (ptr, .ENOMEM)
  else
    ({ ptr with
        pools :=
          { buffer := m.buffer
            bufstart := mult m.buffer ptr.aln
            numitems
            free := numitems
            bitmap := List.replicate (BITMAPLEN numitems) 0 } :: ptr.pools }, .EOK)

/-- The default of `chunks_pool_create`. -/
def alignment (aln : UInt32) : Nat := if aln = 0 then LONG else aln.toNat

/-- `chunks_pool_create`; `ptr` is the block of the structure itself. -/
def create (aln size numitems delta : UInt32) (ptr : Nat) (m : PoolBlocks) : Option ChunksPool :=
  if size = 0 ∨ numitems = 0 then none
  else
    let aln := alignment aln
    if ptr = 0 then none
    else
      let pool : ChunksPool :=
        { aln, size := mult size.toNat aln, delta := delta.toNat, pools := [] }
      let (pool, retcode) := pool.createPool numitems.toNat m
      if retcode ≠ .EOK then none else some pool

/-- The loop of `chunks_pool_malloc`. -/
def mallocFrom (size : Nat) : List PoolArray → Option (List PoolArray × Nat)
  | [] => none
  | ptr :: next =>
    let pos := Bitmap.firstIsClear ptr.bitmap (BITMAPLEN ptr.numitems)
    if ptr.free ≠ 0 ∧ pos < ptr.numitems then
      some ({ ptr with free := sub ptr.free 1, bitmap := Bitmap.set ptr.bitmap pos } :: next,
        (ptr.bufstart + pos * size) % WORD)
    else (mallocFrom size next).map fun (next, chunk) => (ptr :: next, chunk)

/-- `chunks_pool_malloc` -/
def malloc (pool : ChunksPool) (m : PoolBlocks) : ChunksPool × Nat :=
  match mallocFrom pool.size pool.pools with
  | some (pools, chunk) => ({ pool with pools }, chunk)
  | none =>
    let (pool, retcode) :=
      if pool.delta ≠ 0 then pool.createPool pool.delta m else (pool, .ENOMEM)
    if retcode ≠ .EOK then (pool, 0)
    else
      match pool.pools with
      | [] => (pool, 0)
      | ptr :: next =>
        ({ pool with
            pools := { ptr with free := sub ptr.free 1, bitmap := Bitmap.set ptr.bitmap 0 } ::
              next },
          ptr.bufstart)

/-- `delete_pool` of a pool with the pools behind it; the tail stays. -/
def deletePool (dlt : PoolArray) (next : List PoolArray) : List PoolArray :=
  if next.isEmpty then [dlt] else next

/-- The loop of `chunks_pool_free`. -/
def freeFrom (size ptr : Nat) : List PoolArray → List PoolArray
  | [] => []
  | cur :: next =>
    if cur.bufstart ≤ ptr ∧ ptr ≤ (cur.bufstart + size * (cur.numitems - 1)) % WORD then
      let val := (ptr - cur.bufstart) / size
      if !Bitmap.isSet cur.bitmap val then cur :: next
      else
        let cur := { cur with bitmap := Bitmap.clear cur.bitmap val, free := (cur.free + 1) % WORD }
        if cur.free = cur.numitems then deletePool cur next else cur :: next
    else cur :: freeFrom size ptr next

/-- `chunks_pool_free` -/
def free (pool : ChunksPool) (ptr : Nat) : ChunksPool :=
  if ptr = 0 then pool else { pool with pools := freeFrom pool.size ptr pool.pools }

end ChunksPool

/-! ## One pool -/

namespace PoolArray

/-- The address of a chunk. -/
def slot (size : Nat) (a : PoolArray) (pos : Nat) : Nat := a.bufstart + pos * size

/-- The positions that are given away. -/
def taken (a : PoolArray) : List Nat := (List.range a.numitems).filter (Bitmap.isSet a.bitmap)

/-- The chunks that are given away. -/
def chunks (size : Nat) (a : PoolArray) : List Nat := a.taken.map (a.slot size)

/-- The number of clear bits among the items. -/
def clearBits (a : PoolArray) : Nat :=
  (List.range a.numitems).countP fun pos => !Bitmap.isSet a.bitmap pos

/-- A pool is well formed: its items fit in its buffer and its bitmap, and the counter is right. -/
structure Good (aln size : Nat) (a : PoolArray) : Prop where
  items : 0 < a.numitems
  room : size * a.numitems + aln < WORD
  memory : 0 < a.buffer ∧ a.buffer + (size * a.numitems + aln) ≤ WORD
  start : a.bufstart = mult a.buffer aln
  bits : a.numitems ≤ BITMAPLEN a.numitems * BINL
  length : a.bitmap.length = BITMAPLEN a.numitems
  counter : a.free = a.clearBits

/-- The buffer of a pool. -/
def block (aln size : Nat) (a : PoolArray) : Span := ⟨a.buffer, size * a.numitems + aln⟩

variable {aln size pos : Nat} {a : PoolArray}

@[simp] lemma block_bits (aln size : Nat) (a : PoolArray) (free : Nat) (bitmap : List Long) :
    ({ a with free, bitmap } : PoolArray).block aln size = a.block aln size := rfl

lemma taken_length (a : PoolArray) : a.clearBits + a.taken.length = a.numitems := by
  rw [clearBits, taken, countP_not_add_length, List.length_range]

lemma mem_taken : pos ∈ a.taken ↔ pos < a.numitems ∧ Bitmap.isSet a.bitmap pos = true := by
  rw [taken, List.mem_filter, List.mem_range]

/-- A chunk lies in the buffer of its pool. -/
lemma Good.slot_inside (h : a.Good aln size) (haln : 0 < aln) (hpos : pos < a.numitems) :
    (⟨a.slot size pos, size⟩ : Span).Inside a.buffer (a.block aln size).stop ∧
      (a.slot size pos + size ≤ a.bufstart + size * a.numitems) := by
  obtain ⟨hlow, hhigh⟩ := h.memory
  have hroom := h.room
  have hmul : size * (pos + 1) ≤ size * a.numitems := Nat.mul_le_mul_left size hpos
  have hle : a.buffer ≤ mult a.buffer aln := le_mult haln (by omega)
  have hlt : mult a.buffer aln < a.buffer + aln := mult_lt haln (by omega)
  rw [Nat.mul_succ, Nat.mul_comm size pos] at hmul
  rw [Inside, Span.stop, Span.stop, block, slot, h.start]
  dsimp only
  omega

/-- Chunks are aligned. -/
lemma Good.slot_aligned (h : a.Good aln size) (hsize : aln ∣ size) (pos : Nat) :
    aln ∣ a.slot size pos := by
  rw [slot, h.start]
  exact Nat.dvd_add (dvd_mult _ _) (hsize.mul_left pos)

/-- Different positions have chunks that do not overlap. -/
lemma slot_apart (size : Nat) (a : PoolArray) {pos pos' : Nat} (hne : pos ≠ pos') :
    (⟨a.slot size pos, size⟩ : Span).Apart ⟨a.slot size pos', size⟩ := by
  rw [Apart, Before, Before, Span.stop, Span.stop, slot, slot]
  dsimp only
  rcases Nat.lt_or_gt_of_ne hne with hlt | hlt
  · left
    have hmul : (pos + 1) * size ≤ pos' * size := Nat.mul_le_mul_right size hlt
    rw [Nat.succ_mul] at hmul
    omega
  · right
    have hmul : (pos' + 1) * size ≤ pos * size := Nat.mul_le_mul_right size hlt
    rw [Nat.succ_mul] at hmul
    omega

lemma chunks_apart (size : Nat) (a : PoolArray) :
    (a.chunks size).Pairwise fun p q => (⟨p, size⟩ : Span).Apart ⟨q, size⟩ := by
  apply List.pairwise_map.mpr
  apply (List.nodup_range.filter _).imp
  exact fun hne => slot_apart size a hne

section

variable (h : a.Good aln size)
include h

/-- The test of `chunks_pool_free` does not wrap. -/
lemma Good.last_lt (haln : 0 < aln) (hsize : 0 < size) :
    (a.bufstart + size * (a.numitems - 1)) % WORD = a.bufstart + size * (a.numitems - 1) := by
  have hitems := h.items
  obtain ⟨⟨-, hstop⟩, -⟩ := h.slot_inside haln (Nat.sub_lt hitems Nat.one_pos)
  have hmemory := h.memory.2
  rw [Span.stop, Span.stop, block, slot, Nat.mul_comm] at hstop
  dsimp only at hstop
  exact Nat.mod_eq_of_lt (by omega)

/-- An address that passes the test of `chunks_pool_free` lies in a chunk of the pool. -/
lemma Good.of_range (haln : 0 < aln) (hsize : 0 < size) {p : Nat}
    (hlow : a.bufstart ≤ p) (hhigh : p ≤ (a.bufstart + size * (a.numitems - 1)) % WORD) :
    (p - a.bufstart) / size < a.numitems ∧ a.slot size ((p - a.bufstart) / size) ≤ p ∧
      p < a.slot size ((p - a.bufstart) / size) + size := by
  have hitems := h.items
  rw [h.last_lt haln hsize] at hhigh
  have hdiv := Nat.div_add_mod (p - a.bufstart) size
  have hmod := Nat.mod_lt (p - a.bufstart) hsize
  have hval : (p - a.bufstart) / size ≤ a.numitems - 1 := by
    apply Nat.le_of_mul_le_mul_left _ hsize
    omega
  rw [slot, Nat.mul_comm _ size]
  omega

/-- The address of a chunk passes the test, and the division finds its position. -/
lemma Good.range_slot (haln : 0 < aln) (hsize : 0 < size)
    (hpos : pos < a.numitems) :
    a.bufstart ≤ a.slot size pos ∧
      a.slot size pos ≤ (a.bufstart + size * (a.numitems - 1)) % WORD ∧
      (a.slot size pos - a.bufstart) / size = pos := by
  have hmul : pos * size ≤ (a.numitems - 1) * size := Nat.mul_le_mul_right size (by omega)
  rw [h.last_lt haln hsize, slot, Nat.add_sub_cancel_left, Nat.mul_div_cancel _ hsize,
    Nat.mul_comm size]
  omega

/-- Setting a bit gives one more position away. -/
lemma Good.taken_set (hpos : pos < a.numitems)
    (hclear : Bitmap.isSet a.bitmap pos = false) (free : Nat) :
    ({ a with free, bitmap := Bitmap.set a.bitmap pos } : PoolArray).taken.Perm
      (pos :: a.taken) := by
  have hlong : pos / BINL < a.bitmap.length := by
    rw [h.length]
    apply Nat.div_lt_of_lt_mul
    rw [Nat.mul_comm]
    exact Nat.lt_of_lt_of_le hpos h.bits
  apply filter_insert List.nodup_range (List.mem_range.mpr hpos) hclear
  · rw [Bitmap.isSet_set hlong, decide_eq_true rfl]
    rfl
  · intro q _ hne
    rw [Bitmap.isSet_set hlong, decide_eq_false hne]
    rfl

end

/-- Clearing a bit takes one position back. -/
lemma taken_clear (hpos : pos ∈ a.taken) (free : Nat) :
    a.taken.Perm (pos ::
      ({ a with free, bitmap := Bitmap.clear a.bitmap pos } : PoolArray).taken) := by
  obtain ⟨hlt, hset⟩ := mem_taken.mp hpos
  apply filter_insert List.nodup_range (List.mem_range.mpr hlt) _ hset
  · intro q _ hne
    rw [Bitmap.isSet_clear, decide_eq_false hne]
    rfl
  · dsimp only
    rw [Bitmap.isSet_clear, decide_eq_true rfl]
    rfl

lemma Good.chunks_set (h : a.Good aln size) (hpos : pos < a.numitems)
    (hclear : Bitmap.isSet a.bitmap pos = false) (free : Nat) :
    (({ a with free, bitmap := Bitmap.set a.bitmap pos } : PoolArray).chunks size).Perm
      (a.slot size pos :: a.chunks size) := (h.taken_set hpos hclear free).map (a.slot size)

section

variable (h : a.Good aln size)
include h

lemma Good.free_lt (hsize : 0 < size) : a.free ≤ a.numitems ∧
    a.numitems < WORD := by
  have hlength := a.taken_length
  have hitems : a.numitems ≤ size * a.numitems := Nat.le_mul_of_pos_left _ hsize
  have hroom := h.room
  rw [h.counter]
  omega

/-- A pool with a clear bit less. -/
lemma Good.set (hsize : 0 < size) (hpos : pos < a.numitems)
    (hclear : Bitmap.isSet a.bitmap pos = false) :
    ({ a with free := sub a.free 1, bitmap := Bitmap.set a.bitmap pos } : PoolArray).Good
      aln size := by
  have htaken := (h.taken_set hpos hclear (sub a.free 1)).length_eq
  have hlength := a.taken_length
  have hlength' := taken_length
    ({ a with free := sub a.free 1, bitmap := Bitmap.set a.bitmap pos } : PoolArray)
  have hcounter := h.counter
  obtain ⟨hle, hlt⟩ := h.free_lt hsize
  refine ⟨h.items, h.room, h.memory, h.start, h.bits, ?_, ?_⟩
  · exact (Bitmap.length_set ..).trans h.length
  · rw [List.length_cons] at htaken
    change _ = a.numitems at hlength'
    have hsub : sub a.free 1 = a.free - 1 := sub_eq (by omega) (by omega)
    rw [hsub] at htaken hlength' ⊢
    dsimp only at hlength' ⊢
    omega

/-- A pool with a clear bit more. -/
lemma Good.clear (hsize : 0 < size) (hpos : pos ∈ a.taken) :
    ({ a with bitmap := Bitmap.clear a.bitmap pos, free := (a.free + 1) % WORD } : PoolArray).Good
      aln size := by
  have htaken := (taken_clear hpos ((a.free + 1) % WORD)).length_eq
  have hlength := a.taken_length
  have hlength' := taken_length
    ({ a with bitmap := Bitmap.clear a.bitmap pos, free := (a.free + 1) % WORD } : PoolArray)
  have hcounter := h.counter
  obtain ⟨hle, hlt⟩ := h.free_lt hsize
  refine ⟨h.items, h.room, h.memory, h.start, h.bits, ?_, ?_⟩
  · exact (Bitmap.length_clear ..).trans h.length
  · rw [List.length_cons] at htaken
    have hadd : (a.free + 1) % WORD = a.free + 1 := Nat.mod_eq_of_lt (by omega)
    rw [hadd] at htaken hlength' ⊢
    dsimp only at htaken hlength' ⊢
    omega

/-- A pool whose counter is not 0 has a position to give. -/
lemma Good.firstIsClear (hfree : a.free ≠ 0) :
    Bitmap.firstIsClear a.bitmap (BITMAPLEN a.numitems) < a.numitems ∧
      Bitmap.isSet a.bitmap (Bitmap.firstIsClear a.bitmap (BITMAPLEN a.numitems)) = false := by
  obtain ⟨hall, -, hclear⟩ := Bitmap.firstIsClear_spec a.bitmap (BITMAPLEN a.numitems)
  have hbits := h.bits
  have hlt : Bitmap.firstIsClear a.bitmap (BITMAPLEN a.numitems) < a.numitems := by
    by_contra hle
    apply hfree
    rw [h.counter]
    apply List.countP_eq_zero.mpr
    intro pos hpos
    have hlow := List.mem_range.mp hpos
    rw [hall pos (by omega)]
    exact Bool.false_ne_true
  exact ⟨hlt, hclear (by omega)⟩

end

/-- A new pool. -/
lemma Good.fresh {buffer numitems : Nat} (hitems : 0 < numitems)
    (hroom : size * numitems + aln < WORD) (hbuffer : 0 < buffer)
    (hmemory : buffer + (size * numitems + aln) ≤ WORD)
    (hbits : numitems ≤ BITMAPLEN numitems * BINL) :
    Good aln size ⟨buffer, mult buffer aln, numitems, numitems,
      List.replicate (BITMAPLEN numitems) 0⟩ := by
  refine ⟨hitems, hroom, ⟨hbuffer, hmemory⟩, rfl, hbits, List.length_replicate .., ?_⟩
  rw [clearBits]
  have hall : ∀ pos ∈ List.range numitems,
      (!Bitmap.isSet (List.replicate (BITMAPLEN numitems) 0) pos) = true := by
    intro pos _
    rw [Bitmap.isSet_replicate]
    rfl
  rw [List.countP_eq_length.mpr hall, List.length_range]

lemma taken_fresh (buffer bufstart numitems free : Nat) :
    (⟨buffer, bufstart, numitems, free, List.replicate (BITMAPLEN numitems) 0⟩ :
      PoolArray).taken = [] := by
  apply List.filter_eq_nil_iff.mpr
  intro pos _
  rw [Bitmap.isSet_replicate]
  exact Bool.false_ne_true

end PoolArray

/-! ## Calls -/

namespace ChunksPool

variable {aln size p chunk : Nat} {pools pools' : List PoolArray}

/-- What the loop of `chunks_pool_malloc` does: all pools are full, or one of them gives its
first position that is clear. -/
lemma mallocFrom_spec (hgood : ∀ a ∈ pools, a.Good aln size) :
    (mallocFrom size pools = none ∧ ∀ a ∈ pools, a.free = 0) ∨
    ∃ pre a suf pos, pools = pre ++ a :: suf ∧ pos < a.numitems ∧
      Bitmap.isSet a.bitmap pos = false ∧
      mallocFrom size pools = some (pre ++
        { a with free := sub a.free 1, bitmap := Bitmap.set a.bitmap pos } :: suf,
        (a.slot size pos) % WORD) := by
  induction pools with
  | nil => exact .inl ⟨rfl, fun a ha => absurd ha List.not_mem_nil⟩
  | cons a pools ih =>
    have hga := hgood a (.head _)
    rw [mallocFrom]
    by_cases hfree : a.free = 0
    · rw [if_neg fun h => h.1 hfree]
      rcases ih fun b hb => hgood b (List.mem_cons_of_mem a hb) with
        ⟨hnone, hall⟩ | ⟨pre, b, suf, pos, rfl, hpos, hclear, hsome⟩
      · left
        rw [hnone]
        refine ⟨rfl, fun b hb => ?_⟩
        rcases List.mem_cons.mp hb with rfl | hb
        · exact hfree
        · exact hall b hb
      · right
        rw [hsome]
        exact ⟨a :: pre, b, suf, pos, rfl, hpos, hclear, rfl⟩
    · obtain ⟨hlt, hclear⟩ := hga.firstIsClear hfree
      right
      rw [if_pos ⟨hfree, hlt⟩]
      exact ⟨[], a, pools, _, rfl, hlt, hclear, rfl⟩

/-- What the loop of `chunks_pool_free` does: nothing, or it clears the bit of the chunk that
holds the address, and the pool goes if it is not the last one and all is free. -/
lemma freeFrom_spec (haln : 0 < aln) (hsize : 0 < size) (hgood : ∀ a ∈ pools, a.Good aln size)
    (hapart : (pools.map (PoolArray.block aln size)).Pairwise Apart) :
    (freeFrom size p pools = pools ∧ ∀ a ∈ pools, p ∉ a.chunks size) ∨
    ∃ pre a suf pos, pools = pre ++ a :: suf ∧ pos ∈ a.taken ∧ a.slot size pos ≤ p ∧
      p < a.slot size pos + size ∧
      (freeFrom size p pools = pre ++ { a with
          bitmap := Bitmap.clear a.bitmap pos, free := (a.free + 1) % WORD } :: suf ∨
        (suf ≠ [] ∧ (a.free + 1) % WORD = a.numitems ∧ freeFrom size p pools = pre ++ suf)) := by
  induction pools with
  | nil => exact .inl ⟨rfl, fun a ha => absurd ha List.not_mem_nil⟩
  | cons a pools ih =>
    have hga := hgood a (.head _)
    rw [List.map_cons] at hapart
    obtain ⟨hfirst, hrest⟩ := List.pairwise_cons.mp hapart
    rw [freeFrom]
    by_cases hrange : a.bufstart ≤ p ∧ p ≤ (a.bufstart + size * (a.numitems - 1)) % WORD
    · rw [if_pos hrange]
      obtain ⟨hval, hlow, hhigh⟩ := hga.of_range haln hsize hrange.1 hrange.2
      dsimp only
      by_cases hset : Bitmap.isSet a.bitmap ((p - a.bufstart) / size) = true
      · right
        rw [hset, if_neg (by decide)]
        refine ⟨[], a, pools, _, rfl, PoolArray.mem_taken.mpr ⟨hval, hset⟩, hlow, hhigh, ?_⟩
        by_cases hempty : (a.free + 1) % WORD = a.numitems
        · rw [if_pos hempty, deletePool]
          cases pools with
          | nil => exact .inl rfl
          | cons b pools => exact .inr ⟨List.cons_ne_nil b pools, hempty, rfl⟩
        · rw [if_neg hempty]
          exact .inl rfl
      · left
        rw [Bool.eq_false_of_not_eq_true hset]
        refine ⟨rfl, fun b hb hchunk => ?_⟩
        obtain ⟨pos, hpos, hslot⟩ := List.mem_map.mp hchunk
        obtain ⟨hlt, hbit⟩ := PoolArray.mem_taken.mp hpos
        rcases List.mem_cons.mp hb with rfl | hb
        · obtain ⟨-, -, hdiv⟩ := hga.range_slot haln hsize hlt
          rw [hslot] at hdiv
          rw [hdiv] at hset
          exact hset hbit
        · obtain ⟨⟨hblow, hbhigh⟩, -⟩ :=
            (hgood b (List.mem_cons_of_mem a hb)).slot_inside haln hlt
          obtain ⟨⟨halow, hahigh⟩, -⟩ := hga.slot_inside haln hval
          have hcases := hfirst _ (List.mem_map_of_mem hb)
          rw [Apart, Before, Before] at hcases
          rw [Span.stop] at hbhigh hahigh
          rw [PoolArray.block, PoolArray.block] at hcases
          rw [PoolArray.block] at hbhigh hahigh
          dsimp only at hblow hbhigh halow hahigh hcases
          omega
    · rw [if_neg hrange]
      rcases ih (fun b hb => hgood b (List.mem_cons_of_mem a hb)) hrest with
        ⟨hsame, hno⟩ | ⟨pre, b, suf, pos, rfl, hpos, hlow, hhigh, hfree⟩
      · left
        rw [hsame]
        refine ⟨rfl, fun b hb hchunk => ?_⟩
        rcases List.mem_cons.mp hb with rfl | hb
        · obtain ⟨pos, hpos, rfl⟩ := List.mem_map.mp hchunk
          obtain ⟨hlow, hhigh, -⟩ := hga.range_slot haln hsize (PoolArray.mem_taken.mp hpos).1
          exact hrange ⟨hlow, hhigh⟩
        · exact hno b hb hchunk
      · right
        refine ⟨a :: pre, b, suf, pos, rfl, hpos, hlow, hhigh, ?_⟩
        rcases hfree with hfree | ⟨hsuf, hempty, hfree⟩
        · left
          rw [hfree]
          rfl
        · right
          rw [hfree]
          exact ⟨hsuf, hempty, rfl⟩

/-- A bitmap that is not empty has a bit for every item. -/
lemma le_bitmap {numitems : Nat} (hlt : numitems < WORD) (hbytes : BITMAPBYTES numitems ≠ 0) :
    numitems ≤ BITMAPLEN numitems * BINL := by
  have hlen : BITMAPLEN numitems ≠ 0 := fun hzero => hbytes (by rw [BITMAPBYTES, hzero]; rfl)
  rw [BITMAPLEN, BINL, WORD] at hlen ⊢
  rw [WORD] at hlt
  omega

/-- What `create_pool` does: it fails, or it adds a pool. -/
lemma createPool_spec (ptr : ChunksPool) (numitems : Nat) (m : PoolBlocks) :
    (ptr.createPool numitems m = (ptr, .ENOMEM)) ∨
    (m.buffer ≠ 0 ∧ BITMAPBYTES numitems ≠ 0 ∧ ptr.createPool numitems m =
      ({ ptr with pools := ⟨m.buffer, mult m.buffer ptr.aln, numitems, numitems,
          List.replicate (BITMAPLEN numitems) 0⟩ :: ptr.pools }, .EOK)) := by
  unfold createPool
  by_cases harray : m.array = 0
  · exact .inl (if_pos harray)
  · rw [if_neg harray]
    by_cases hbuffer : given (ptr.total numitems) m.buffer = 0
    · exact .inl (if_pos hbuffer)
    · rw [if_neg hbuffer]
      by_cases hbitmap : given (BITMAPBYTES numitems) m.bitmap = 0
      · exact .inl (if_pos hbitmap)
      · right
        rw [if_neg hbitmap]
        refine ⟨fun hzero => hbuffer ?_, fun hzero => hbitmap (if_pos hzero), rfl⟩
        rw [given, hzero, ite_self]

end ChunksPool

/-! ## The use of a list of pools -/

/-- The pools and the chunks that are outstanding. -/
structure ChunksUse where
  pool : ChunksPool
  live : List Nat
deriving DecidableEq

/-- A call; `malloc` comes with what the heap returns if a pool is added. -/
inductive ChunkOp where
  | malloc (m : PoolBlocks)
  | free (ptr : Nat)

namespace ChunksUse

/-- One call. -/
def exec (h : ChunksUse) : ChunkOp → ChunksUse
  | .malloc m =>
    let (pool, chunk) := h.pool.malloc m
    ⟨pool, if chunk = 0 then h.live else h.live ++ [chunk]⟩
  | .free ptr => ⟨h.pool.free ptr, h.live.erase ptr⟩

/-- A list of calls. -/
def run (h : ChunksUse) (ops : List ChunkOp) : ChunksUse := ops.foldl exec h

/-- The memory of a chunk. -/
def chunk (h : ChunksUse) (p : Nat) : Span := ⟨p, h.pool.size⟩

/-- The block that holds the chunks of a pool. -/
def block (h : ChunksUse) (a : PoolArray) : Span := ⟨a.buffer, h.pool.total a.numitems⟩

/-- All pools are full. -/
def Full (h : ChunksUse) : Prop := ∀ a ∈ h.pool.pools, a.clearBits = 0

/-- The outstanding chunks and the pools are in order; `main` is the block of the original
pool. -/
structure Sane (main : Span) (h : ChunksUse) : Prop where
  distinct : h.live.Nodup
  aligned : ∀ p ∈ h.live, h.pool.aln ∣ p
  apart : (h.live.map h.chunk).Pairwise Apart
  inside : ∀ p ∈ h.live, ∃ a ∈ h.pool.pools,
    (h.chunk p).Inside (h.block a).pointer (h.block a).stop
  counter : ∀ a ∈ h.pool.pools, a.free = a.clearBits
  original : (h.pool.pools.map h.block).getLast? = some main

/-- What `malloc` is assumed to do: a block lies in the memory, and it does not overlap the
blocks that are in use. -/
def Honest (h : ChunksUse) : ChunkOp → Prop
  | .malloc m => h.Full → m.buffer + h.pool.total h.pool.delta ≤ WORD ∧
      ∀ a ∈ h.pool.pools, (⟨m.buffer, h.pool.total h.pool.delta⟩ : Span).Apart (h.block a)
  | .free _ => True

/-- The condition on a call: the size of a new pool does not wrap, and an address that is freed is
not in the middle of an outstanding chunk. -/
def Sound (h : ChunksUse) : ChunkOp → Prop
  | .malloc _ => h.Full → h.pool.size * h.pool.delta + h.pool.aln < WORD
  | .free ptr => ∀ p ∈ h.live, p < ptr → p + h.pool.size ≤ ptr

/-- Every call of the list meets the condition when it is made. -/
def Meets : ChunksUse → List ChunkOp → Prop
  | _, [] => True
  | h, op :: ops => (h.Honest op ∧ h.Sound op) ∧ Meets (h.exec op) ops

/-- The invariant: the chunks that are outstanding are those whose bits are set. -/
structure Placed (aln size : Nat) (main : Span) (h : ChunksUse) : Prop where
  sizes : h.pool.aln = aln ∧ h.pool.size = size
  good : ∀ a ∈ h.pool.pools, a.Good aln size
  apart : (h.pool.pools.map (PoolArray.block aln size)).Pairwise Apart
  live : h.live.Perm (h.pool.pools.flatMap (PoolArray.chunks size))
  original : (h.pool.pools.map (PoolArray.block aln size)).getLast? = some main

variable {aln size : Nat} {main : Span} {h : ChunksUse} {p : Nat} {a : PoolArray}

section

variable (hp : h.Placed aln size main)
include hp

lemma Placed.block_eq (ha : a ∈ h.pool.pools) :
    h.block a = a.block aln size := by
  rw [block, PoolArray.block, ChunksPool.total, hp.sizes.1, hp.sizes.2,
    Nat.mod_eq_of_lt (hp.good a ha).room]

lemma Placed.mem_live :
    p ∈ h.live ↔ ∃ a ∈ h.pool.pools, ∃ pos ∈ a.taken, a.slot size pos = p := by
  rw [hp.live.mem_iff, List.mem_flatMap]
  exact exists_congr fun a => and_congr_right fun _ => List.mem_map

/-- What the invariant says about the chunks. -/
lemma Placed.sane (haln : 0 < aln) (hsize : 0 < size)
    (hdvd : aln ∣ size) : h.Sane main := by
  have hpairs : h.live.Pairwise fun p q => (⟨p, size⟩ : Span).Apart ⟨q, size⟩ := by
    apply (hp.live.pairwise_iff fun hab => Apart.symm hab).mpr
    apply List.pairwise_flatMap.mpr
    refine ⟨fun a _ => a.chunks_apart size, ?_⟩
    apply (List.pairwise_map.mp hp.apart).imp_of_mem
    intro a b ha hb hab p hpa q hqb
    obtain ⟨pos, hpos, rfl⟩ := List.mem_map.mp hpa
    obtain ⟨pos', hpos', rfl⟩ := List.mem_map.mp hqb
    obtain ⟨⟨hlow, hhigh⟩, -⟩ :=
      (hp.good a ha).slot_inside haln (PoolArray.mem_taken.mp hpos).1
    obtain ⟨⟨hlow', hhigh'⟩, -⟩ :=
      (hp.good b hb).slot_inside haln (PoolArray.mem_taken.mp hpos').1
    exact hab.imp (fun hbefore => Nat.le_trans hhigh (Nat.le_trans hbefore hlow'))
      fun hbefore => Nat.le_trans hhigh' (Nat.le_trans hbefore hlow)
  constructor
  · apply hpairs.imp
    rintro p q hapart rfl
    rw [Apart, Before, Span.stop] at hapart
    dsimp only at hapart
    omega
  · intro p hlive
    obtain ⟨a, ha, pos, -, rfl⟩ := hp.mem_live.mp hlive
    rw [hp.sizes.1]
    exact (hp.good a ha).slot_aligned hdvd pos
  · apply List.pairwise_map.mpr
    apply hpairs.imp
    intro p q hapart
    rwa [chunk, chunk, hp.sizes.2]
  · intro p hlive
    obtain ⟨a, ha, pos, hpos, rfl⟩ := hp.mem_live.mp hlive
    refine ⟨a, ha, ?_⟩
    rw [hp.block_eq ha, chunk, hp.sizes.2]
    exact ((hp.good a ha).slot_inside haln (PoolArray.mem_taken.mp hpos).1).1
  · exact fun a ha => (hp.good a ha).counter
  · rw [List.map_congr_left fun a ha => hp.block_eq ha]
    exact hp.original

/-- A pool changes its bits. -/
lemma Placed.replace {pre suf : List PoolArray} {a' : PoolArray}
    (hpools : h.pool.pools = pre ++ a :: suf) (hgood : a'.Good aln size)
    (hblock : a'.block aln size = a.block aln size) {live : List Nat}
    (hlive : live.Perm (a'.chunks size ++ (pre ++ suf).flatMap (PoolArray.chunks size))) :
    Placed aln size main ⟨{ h.pool with pools := pre ++ a' :: suf }, live⟩ := by
  have hmap : (pre ++ a' :: suf).map (PoolArray.block aln size) =
      h.pool.pools.map (PoolArray.block aln size) := by
    rw [hpools, List.map_append, List.map_append, List.map_cons, List.map_cons, hblock]
  refine ⟨hp.sizes, fun b hb => ?_, ?_, hlive.trans (flatMap_middle _ pre suf a').symm, ?_⟩
  · have hmem : b ∈ pre ∨ b = a' ∨ b ∈ suf := by simpa using hb
    rcases hmem with hb | rfl | hb
    · exact hp.good b (by rw [hpools]; exact List.mem_append_left _ hb)
    · exact hgood
    · exact hp.good b (by rw [hpools]; exact List.mem_append_right _ (List.mem_cons_of_mem a hb))
  · exact hmap ▸ hp.apart
  · exact hmap ▸ hp.original

/-- A pool without outstanding chunks goes. -/
lemma Placed.delete {pre suf : List PoolArray}
    (hpools : h.pool.pools = pre ++ a :: suf) (hsuf : suf ≠ []) (hempty : a.taken = []) :
    Placed aln size main ⟨{ h.pool with pools := pre ++ suf }, h.live⟩ := by
  have hsub : (pre ++ suf).Sublist h.pool.pools := by
    rw [hpools]
    exact (List.sublist_cons_self a suf).append_left pre
  refine ⟨hp.sizes, fun b hb => hp.good b (hsub.subset hb), hp.apart.sublist (hsub.map _), ?_, ?_⟩
  · have hlive := hp.live
    rw [hpools] at hlive
    have hmiddle := hlive.trans (flatMap_middle _ pre suf a)
    rwa [PoolArray.chunks, hempty, List.map_nil, List.nil_append] at hmiddle
  · have hlast := hp.original
    rw [hpools, List.map_append, List.map_cons] at hlast
    rw [List.map_append]
    cases suf with
    | nil => contradiction
    | cons b suf =>
      rw [List.map_cons] at hlast ⊢
      rw [List.getLast?_append, List.getLast?_cons_cons] at hlast
      rwa [List.getLast?_append]

/-- One chunk more. -/
lemma Placed.give (haln : 0 < aln) (hsize : 0 < size)
    {pre suf : List PoolArray} (hpools : h.pool.pools = pre ++ a :: suf) {pos : Nat}
    (hpos : pos < a.numitems) (hclear : Bitmap.isSet a.bitmap pos = false) :
    a.slot size pos % WORD = a.slot size pos ∧ a.slot size pos ≠ 0 ∧
      Placed aln size main ⟨{ h.pool with
          pools := pre ++ { a with free := sub a.free 1, bitmap := Bitmap.set a.bitmap pos } ::
            suf },
        h.live ++ [a.slot size pos]⟩ := by
  have ha : a ∈ h.pool.pools := by
    rw [hpools]
    exact List.mem_append_right _ (.head _)
  have hga := hp.good a ha
  obtain ⟨⟨hlow, hhigh⟩, -⟩ := hga.slot_inside haln hpos
  obtain ⟨hbuffer, hmemory⟩ := hga.memory
  rw [Span.stop, Span.stop, PoolArray.block] at hhigh
  dsimp only at hlow hhigh
  refine ⟨Nat.mod_eq_of_lt (by omega), by omega, ?_⟩
  apply hp.replace hpools (hga.set hsize hpos hclear) (PoolArray.block_bits ..)
  have hchunks := hga.chunks_set hpos hclear (sub a.free 1)
  have hlive := hp.live
  rw [hpools] at hlive
  have hmiddle := hlive.trans (flatMap_middle _ pre suf a)
  have hall := hchunks.append_right ((pre ++ suf).flatMap (PoolArray.chunks size))
  rw [List.cons_append] at hall
  apply (List.perm_append_singleton _ _).trans
  exact (hmiddle.cons _).trans hall.symm

/-- A new pool. -/
lemma Placed.grow {numitems buffer : Nat}
    (hgood : PoolArray.Good aln size ⟨buffer, mult buffer aln, numitems, numitems,
      List.replicate (BITMAPLEN numitems) 0⟩)
    (hapart : ∀ b ∈ h.pool.pools,
      (⟨buffer, size * numitems + aln⟩ : Span).Apart (b.block aln size)) :
    Placed aln size main ⟨{ h.pool with pools := ⟨buffer, mult buffer aln, numitems, numitems,
      List.replicate (BITMAPLEN numitems) 0⟩ :: h.pool.pools }, h.live⟩ := by
  have hlast := hp.original
  refine ⟨hp.sizes, fun b hb => ?_, ?_, ?_, ?_⟩
  · rcases List.mem_cons.mp hb with rfl | hb
    · exact hgood
    · exact hp.good b hb
  · dsimp only
    rw [List.map_cons]
    apply List.pairwise_cons.mpr
    refine ⟨fun b hb => ?_, hp.apart⟩
    obtain ⟨c, hc, rfl⟩ := List.mem_map.mp hb
    exact hapart c hc
  · dsimp only
    rw [List.flatMap_cons, PoolArray.chunks, PoolArray.taken_fresh]
    exact hp.live
  · dsimp only
    cases hpools : h.pool.pools with
    | nil =>
      rw [hpools] at hlast
      contradiction
    | cons b pools =>
      rw [hpools] at hlast
      rw [List.map_cons, List.map_cons, List.getLast?_cons_cons]
      exact hlast

/-- The counters are 0 exactly when all pools are full. -/
lemma Placed.full_iff :
    h.Full ↔ ∀ a ∈ h.pool.pools, a.free = 0 :=
  forall₂_congr fun a ha => by rw [(hp.good a ha).counter]

/-- What `chunks_pool_malloc` does: it gives a chunk, or all pools are full and no pool can
be added. -/
theorem Placed.malloc (haln : 0 < aln) (hsize : 0 < size)
    {m : PoolBlocks} (hhonest : h.Honest (.malloc m)) (hsound : h.Sound (.malloc m)) :
    (h.exec (.malloc m)).Placed aln size main ∧
      ((h.pool.malloc m).2 = 0 → h.Full ∧
        (h.pool.delta = 0 ∨ (h.pool.createPool h.pool.delta m).2 ≠ .EOK)) := by
  obtain ⟨rfl, rfl⟩ := hp.sizes
  rw [exec, ChunksPool.malloc]
  rcases ChunksPool.mallocFrom_spec hp.good with
    ⟨hnone, hfull⟩ | ⟨pre, a, suf, pos, hpools, hpos, hclear, hsome⟩
  · rw [hnone]
    have hall := hp.full_iff.mpr hfull
    by_cases hdelta : h.pool.delta = 0
    · rw [if_neg (not_not.mpr hdelta)]
      exact ⟨hp, fun _ => ⟨hall, .inl hdelta⟩⟩
    · rw [if_pos hdelta]
      rcases h.pool.createPool_spec h.pool.delta m with hfail | ⟨hbuffer, hbytes, hcreate⟩
      · rw [hfail]
        exact ⟨hp, fun _ => ⟨hall, .inr Status.noConfusion⟩⟩
      · have hroom := hsound hall
        obtain ⟨hmemory, hapart⟩ := hhonest hall
        rw [ChunksPool.total, Nat.mod_eq_of_lt hroom] at hmemory hapart
        have hlt : h.pool.delta < WORD := by
          have hmul : h.pool.delta ≤ h.pool.size * h.pool.delta :=
            Nat.le_mul_of_pos_left _ hsize
          omega
        have hgood := PoolArray.Good.fresh (Nat.pos_of_ne_zero hdelta) hroom
          (Nat.pos_of_ne_zero hbuffer)
          hmemory (ChunksPool.le_bitmap hlt hbytes)
        have hgrown := hp.grow hgood fun b hb => by
          rw [← hp.block_eq hb]
          exact hapart b hb
        have hclear : Bitmap.isSet (List.replicate (BITMAPLEN h.pool.delta) 0) 0 = false :=
          Bitmap.isSet_replicate _ _
        obtain ⟨-, hnull, hgive⟩ := hgrown.give haln hsize (List.nil_append _).symm
          (Nat.pos_of_ne_zero hdelta) hclear
        rw [PoolArray.slot, Nat.zero_mul, Nat.add_zero] at hnull hgive
        rw [hcreate]
        dsimp only
        rw [if_neg (not_not.mpr rfl)]
        rw [if_neg hnull]
        exact ⟨hgive, fun hzero => absurd hzero hnull⟩
  · rw [hsome]
    obtain ⟨hmod, hnull, hgive⟩ := hp.give haln hsize hpools hpos hclear
    dsimp only
    rw [hmod, if_neg hnull]
    exact ⟨hgive, fun hzero => absurd hzero hnull⟩

/-- What `chunks_pool_free` does: an outstanding chunk is released, and nothing happens with
any other address. -/
theorem Placed.free (haln : 0 < aln) (hsize : 0 < size)
    (hsound : h.Sound (.free p)) :
    (h.exec (.free p)).Placed aln size main ∧ (p ∉ h.live → h.exec (.free p) = h) := by
  obtain ⟨rfl, rfl⟩ := hp.sizes
  have hzero : 0 ∉ h.live := by
    intro hlive
    obtain ⟨a, ha, pos, hpos, hslot⟩ := hp.mem_live.mp hlive
    obtain ⟨⟨hlow, -⟩, -⟩ := (hp.good a ha).slot_inside haln (PoolArray.mem_taken.mp hpos).1
    have hmemory := (hp.good a ha).memory.1
    dsimp only at hlow
    omega
  rw [exec, ChunksPool.free]
  by_cases hnull : p = 0
  · rw [if_pos hnull, hnull, List.erase_of_not_mem hzero]
    exact ⟨hp, fun _ => rfl⟩
  · rw [if_neg hnull]
    rcases ChunksPool.freeFrom_spec haln hsize hp.good hp.apart with
      ⟨hsame, hno⟩ | ⟨pre, a, suf, pos, hpools, hpos, hlow, hhigh, hfree⟩
    · have hnotin : p ∉ h.live := by
        intro hlive
        obtain ⟨a, ha, hchunk⟩ := List.mem_flatMap.mp (hp.live.mem_iff.mp hlive)
        exact hno a ha hchunk
      rw [hsame, List.erase_of_not_mem hnotin]
      exact ⟨hp, fun _ => rfl⟩
    · have ha : a ∈ h.pool.pools := by
        rw [hpools]
        exact List.mem_append_right _ (.head _)
      have hlive : a.slot h.pool.size pos ∈ h.live := hp.mem_live.mpr ⟨a, ha, pos, hpos, rfl⟩
      have hslot : a.slot h.pool.size pos = p := by
        by_contra hne
        have hle := hsound _ hlive (Nat.lt_of_le_of_ne hlow hne)
        omega
      rw [hslot] at hlive
      refine ⟨?_, fun hnotin => absurd hlive hnotin⟩
      have hgood := (hp.good a ha).clear hsize hpos
      have hchunks := (PoolArray.taken_clear hpos ((a.free + 1) % WORD)).map (a.slot h.pool.size)
      rw [List.map_cons, hslot] at hchunks
      have hrest : (h.live.erase p).Perm
          (({ a with
              bitmap := Bitmap.clear a.bitmap pos
              free := (a.free + 1) % WORD } : PoolArray).chunks h.pool.size ++
            (pre ++ suf).flatMap (PoolArray.chunks h.pool.size)) := by
        have hall := hp.live
        rw [hpools] at hall
        have hmiddle := (hall.trans (flatMap_middle _ pre suf a)).trans (hchunks.append_right _)
        have herase := hmiddle.erase p
        rwa [List.cons_append, List.erase_cons_head] at herase
      have hcleared := hp.replace hpools hgood (PoolArray.block_bits ..) hrest
      rcases hfree with hfree | ⟨hsuf, hempty, hfree⟩
      · rw [hfree]
        exact hcleared
      · rw [hfree]
        apply hcleared.delete rfl hsuf
        have hlength := PoolArray.taken_length
          ({ a with
              bitmap := Bitmap.clear a.bitmap pos
              free := (a.free + 1) % WORD } : PoolArray)
        rw [← hgood.counter] at hlength
        dsimp only at hlength
        apply List.length_eq_zero_iff.mp
        omega

end

/-- Runs keep the invariant. -/
lemma Placed.run (haln : 0 < aln) (hsize : 0 < size) (ops : List ChunkOp) :
    ∀ {h : ChunksUse}, h.Placed aln size main → Meets h ops → (h.run ops).Placed aln size main := by
  induction ops with
  | nil => exact fun hp _ => hp
  | cons op ops ih =>
    intro h hp hmeets
    obtain ⟨⟨hhonest, hsound⟩, hrest⟩ := hmeets
    apply ih _ hrest
    cases op with
    | malloc m => exact (hp.malloc haln hsize hhonest hsound).1
    | free ptr => exact (hp.free haln hsize hsound).1

end ChunksUse

/-! ## A new list of pools -/

/-- The condition on a new list of pools: the size of the buffer with the sizes of the chunks
rounded up to their alignment does not wrap. -/
def ChunksPool.Fits (aln size numitems : UInt32) : Prop :=
  (size.toNat + alignment aln - 1) / alignment aln * alignment aln * numitems.toNat +
    alignment aln < WORD

instance (aln size numitems : UInt32) : Decidable (ChunksPool.Fits aln size numitems) :=
  inferInstanceAs (Decidable (_ < _))

lemma ChunksPool.alignment_pos (aln : UInt32) : 0 < alignment aln := by
  unfold alignment
  by_cases hzero : aln = 0
  · rw [if_pos hzero]
    decide
  · rw [if_neg hzero]
    apply Nat.pos_of_ne_zero
    intro hnat
    exact hzero (UInt32.toNat_inj.mp hnat)

/-- The rounded size of a chunk. -/
lemma ChunksPool.Fits.mult_eq {aln size numitems : UInt32} (h : Fits aln size numitems)
    (hitems : 0 < numitems.toNat) :
    size.toNat ≤ mult size.toNat (alignment aln) ∧
      mult size.toNat (alignment aln) * numitems.toNat + alignment aln < WORD := by
  have haln := alignment_pos aln
  rw [Fits] at h
  have hlow := Nat.lt_div_mul_add (a := size.toNat + alignment aln - 1) haln
  have hmul := Nat.le_mul_of_pos_right
    ((size.toNat + alignment aln - 1) / alignment aln * alignment aln) hitems
  have hsum : size.toNat + alignment aln - 1 < WORD := by omega
  rw [Support.mult_eq hsum]
  exact ⟨by omega, h⟩

/-- What `chunks_pool_create` returns. -/
lemma create_placed {aln size numitems delta : UInt32} {ptr : Nat} {m : PoolBlocks}
    {pool : ChunksPool} (hcreate : ChunksPool.create aln size numitems delta ptr m = some pool)
    (hfits : ChunksPool.Fits aln size numitems)
    (hblock : m.buffer + pool.total numitems.toNat ≤ WORD) :
    pool.aln = ChunksPool.alignment aln ∧ size.toNat ≤ pool.size ∧ 0 < pool.size ∧
      pool.aln ∣ pool.size ∧
      ChunksUse.Placed pool.aln pool.size ⟨m.buffer, pool.total numitems.toNat⟩ ⟨pool, []⟩ := by
  unfold ChunksPool.create at hcreate
  by_cases hzero : size = 0 ∨ numitems = 0
  · rw [if_pos hzero] at hcreate
    contradiction
  rw [if_neg hzero] at hcreate
  by_cases hptr : ptr = 0
  · rw [if_pos hptr] at hcreate
    contradiction
  rw [if_neg hptr] at hcreate
  have hpos : ∀ x : UInt32, x ≠ 0 → 0 < x.toNat := by
    intro x hx
    apply Nat.pos_of_ne_zero
    intro hnat
    exact hx (UInt32.toNat_inj.mp hnat)
  have hsize := hpos size fun h => hzero (.inl h)
  have hitems := hpos numitems fun h => hzero (.inr h)
  obtain ⟨hle, hroom⟩ := hfits.mult_eq hitems
  dsimp only at hcreate
  rcases ChunksPool.createPool_spec ⟨ChunksPool.alignment aln,
      mult size.toNat (ChunksPool.alignment aln), delta.toNat, []⟩ numitems.toNat m with
    hfail | ⟨hbuffer, hbytes, hok⟩
  · rw [hfail] at hcreate
    contradiction
  · rw [hok] at hcreate
    cases hcreate
    rw [ChunksPool.total] at hblock ⊢
    dsimp only at hblock ⊢
    rw [Nat.mod_eq_of_lt hroom] at hblock ⊢
    have hgood := PoolArray.Good.fresh hitems hroom (Nat.pos_of_ne_zero hbuffer) hblock
      (ChunksPool.le_bitmap numitems.toNat_lt hbytes)
    refine ⟨rfl, hle, by omega, dvd_mult _ _, ⟨rfl, rfl⟩, fun a ha => ?_, ?_, ?_, rfl⟩
    · rw [List.mem_singleton.mp ha]
      exact hgood
    · exact List.pairwise_singleton ..
    · dsimp only
      rw [List.flatMap_cons, PoolArray.chunks, PoolArray.taken_fresh]
      exact List.Perm.nil

namespace ChunksUse

instance (h : ChunksUse) : Decidable h.Full :=
  inferInstanceAs (Decidable (∀ a ∈ h.pool.pools, a.clearBits = 0))

instance (h : ChunksUse) (op : ChunkOp) : Decidable (h.Honest op ∧ h.Sound op) :=
  match op with
  | .malloc _ => inferInstanceAs (Decidable ((_ → _) ∧ (_ → _)))
  | .free ptr => inferInstanceAs (Decidable (True ∧ ∀ p ∈ h.live, p < ptr → _ ≤ ptr))

instance decideMeets : ∀ (h : ChunksUse) (ops : List ChunkOp), Decidable (Meets h ops)
  | _, [] => inferInstanceAs (Decidable True)
  | h, op :: ops =>
    match decideMeets (h.exec op) ops with
    | isTrue hrest =>
      if hop : h.Honest op ∧ h.Sound op then isTrue ⟨hop, hrest⟩ else isFalse fun h => hop h.1
    | isFalse hrest => isFalse fun h => hrest h.2

end ChunksUse

/-- After every run of calls that meet the condition the chunks that are outstanding are
distinct, aligned, large enough, apart and inside the blocks of the pools, the counters are right
and the original pool is there; an allocation fails only if all pools are full and none can be
added, and an address that is not outstanding can be freed without effect. -/
theorem chunks_stay_in_pools {aln size numitems delta : UInt32} {ptr : Nat} {m : PoolBlocks}
    {pool : ChunksPool} (hcreate : ChunksPool.create aln size numitems delta ptr m = some pool)
    (hfits : ChunksPool.Fits aln size numitems)
    (hblock : m.buffer + pool.total numitems.toNat ≤ WORD) {ops : List ChunkOp}
    (hmeets : ChunksUse.Meets ⟨pool, []⟩ ops) {h : ChunksUse}
    (hrun : (⟨pool, []⟩ : ChunksUse).run ops = h) :
    h.Sane ⟨m.buffer, pool.total numitems.toNat⟩ ∧
      h.pool.aln = ChunksPool.alignment aln ∧ size.toNat ≤ h.pool.size ∧
      (∀ m, h.Honest (.malloc m) → h.Sound (.malloc m) → (h.pool.malloc m).2 = 0 →
        h.Full ∧ (h.pool.delta = 0 ∨ (h.pool.createPool h.pool.delta m).2 ≠ .EOK)) ∧
      ∀ p, p ∉ h.live → h.Sound (.free p) → h.exec (.free p) = h := by
  obtain ⟨haln, hle, hsize, hdvd, hplaced⟩ := create_placed hcreate hfits hblock
  have hpos : 0 < pool.aln := by
    rw [haln]
    exact ChunksPool.alignment_pos aln
  have hp := ChunksUse.Placed.run hpos hsize ops hplaced hmeets
  rw [hrun] at hp
  refine ⟨hp.sane hpos hsize hdvd, hp.sizes.1.trans haln, hle.trans hp.sizes.2.ge,
    fun m hhonest hsound => (hp.malloc hpos hsize hhonest hsound).2,
    fun p hnotin hsound => (hp.free hpos hsize hsound).2 hnotin⟩

/-- Two chunks of 16 bytes, and one more from a second pool; the first chunk is freed twice and an
address behind the pools once. -/
theorem chunks_stay_in_pools_three :
    ∃ pool, ChunksPool.create 8 12 2 4 4096 ⟨5000, 8200, 6000⟩ = some pool ∧
      ((⟨pool, []⟩ : ChunksUse).run [.malloc ⟨0, 0, 0⟩, .malloc ⟨0, 0, 0⟩,
        .malloc ⟨7000, 9001, 7100⟩, .free 8200, .free 8200, .free 65536]).Sane ⟨8200, 40⟩ := by
  obtain ⟨hsane, -⟩ := chunks_stay_in_pools (m := ⟨5000, 8200, 6000⟩) (h := _)
    (show ChunksPool.create 8 12 2 4 4096 ⟨5000, 8200, 6000⟩ = some _ from rfl) (by decide)
    (by decide) (by decide : ChunksUse.Meets _ [.malloc ⟨0, 0, 0⟩, .malloc ⟨0, 0, 0⟩,
      .malloc ⟨7000, 9001, 7100⟩, .free 8200, .free 8200, .free 65536]) rfl
  exact ⟨_, rfl, hsane⟩

/-- 256 chunks of one byte that are aligned to 16 MiB: the size of the buffer wraps to 16 MiB, and
the second chunk lies behind it. -/
theorem chunk_leaves_pool :
    ∃ pool, ChunksPool.create 0x1000000 1 256 0 4096 ⟨5000, 0x1000000, 6000⟩ = some pool ∧
      ((⟨pool, []⟩ : ChunksUse).run [.malloc ⟨0, 0, 0⟩, .malloc ⟨0, 0, 0⟩]).live =
        [0x1000000, 0x2000000] ∧
      pool.total 256 = 0x1000000 := by
  exact ⟨_, rfl, by decide, by decide⟩

end DiegOS.Support
