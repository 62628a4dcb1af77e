import DiegOS.Support.HeapSearch
import Mathlib.Data.Nat.ModEq

/-!
# The counters of the heap

`freebytes` and `allocbytes` change in four places of `malloc.c`, each time with
the memory of the free partitions.  The difference that `malloc_init` leaves between
`freebytes` and that memory therefore stays.

Main results:

- Lemma `HeapUse.Linked.exec`: no call changes the difference or the sum of the counters.
- Theorem `freebytes_wrong`: `freebytes` is wrong after every run.
-/

namespace DiegOS.Support

open Lib Function

namespace Malloc

/-- The sizes of the free partitions on the links from one on. -/
def freeSizes (mem : Nat → HeapPart) : Nat → Nat → Nat
  | 0, _ => 0
  | n + 1, this =>
    if isLast mem this then 0
    else (if isFree mem this then getSize mem this else 0) + freeSizes mem n (mem this).next

/-- The sum of the sizes of the free partitions. -/
def freeSum (s : Malloc) : Nat := freeSizes s.mem s.rounds s.heapStart

variable {s s' s'' : Malloc} {parts parts' new : List Nat} {mem mem' : Nat → HeapPart}
  {low high a newsize n : Nat} {l : List Nat}

lemma Tiles.freeSizes_eq (h : Tiles mem low l high) (hlast : isLast mem high = true)
    (hn : l.length < n) : freeSizes mem n low = Cell.freeSum (cells mem l) := by
  induction l generalizing low n with
  | nil =>
    rcases Nat.exists_eq_succ_of_ne_zero (Nat.ne_of_gt hn) with ⟨n, rfl⟩
    obtain rfl : low = high := h
    rw [freeSizes, if_pos hlast]
    rfl
  | cons a l ih =>
    rcases Nat.exists_eq_succ_of_ne_zero (Nat.ne_of_gt (Nat.zero_lt_of_lt hn)) with ⟨n, rfl⟩
    rcases h with ⟨rfl, ⟨-, hmagic⟩, hl⟩
    rw [freeSizes, not_isLast hmagic, if_neg Bool.false_ne_true,
      ih hl (Nat.lt_of_succ_lt_succ hn)]
    rfl

/-- The sum is that of the free cells of the list. -/
lemma Listed.freeSum_eq (h : s.Listed parts) : s.freeSum = Cell.freeSum (cells s.mem parts) :=
  h.tiles.freeSizes_eq h.isLast h.length_lt

/-- One header that changes moves the sum by the free memory of its partition. -/
lemma freeSum_update (mem' : Nat → HeapPart) (hnodup : l.Nodup) (ha : a ∈ l)
    (hother : ∀ b ∈ l, b ≠ a → mem' b = mem b) :
    Cell.freeSum (cells mem' l) + Cell.freeSum [cell mem a] =
      Cell.freeSum (cells mem l) + Cell.freeSum [cell mem' a] := by
  rcases List.append_of_mem ha with ⟨pre, suf, rfl⟩
  have hnotin : a ∉ pre ++ suf := (List.nodup_cons.mp (List.perm_middle.nodup_iff.mp hnodup)).1
  have hpre : cells mem' pre = cells mem pre := cells_congr fun b hb =>
    hother b (List.mem_append_left _ hb) fun heq => hnotin (heq ▸ List.mem_append_left _ hb)
  have hsuf : cells mem' suf = cells mem suf := cells_congr fun b hb =>
    hother b (List.mem_append_right _ (List.mem_cons_of_mem a hb))
      fun heq => hnotin (heq ▸ List.mem_append_right _ hb)
  rw [cells_append, cells_append, cells_cons, cells_cons, hpre, hsuf, Cell.freeSum_middle,
    Cell.freeSum_middle]
  omega

/-! ## The counters -/

/-- The counter `freebytes` is below the memory of the free partitions, modulo a word. -/
def Below (g : Nat) (s : Malloc) : Prop := s.freebytes + g ≡ s.freeSum [MOD WORD]

/-- A counter that is below the memory is not equal to it. -/
lemma Below.ne {g : Nat} (h : Below g s) (hpos : 0 < g) (hlt : g < WORD) :
    s.freebytes ≠ s.freeSum := by
  intro heq
  rw [Below, heq] at h
  have hzero : g ≡ 0 [MOD WORD] := Nat.ModEq.add_left_cancel' s.freeSum h
  rw [Nat.ModEq, Nat.mod_eq_of_lt hlt, Nat.zero_mod] at hzero
  omega

/-- A call has changed both counters by what it has changed of the free memory. -/
structure Accounts (s s' : Malloc) : Prop where
  below : ∀ g, Below g s → Below g s'
  counted : s'.freebytes + s'.allocbytes ≡ s.freebytes + s.allocbytes [MOD WORD]

lemma Accounts.refl (s : Malloc) : Accounts s s := ⟨fun _ h => h, Nat.ModEq.refl _⟩

lemma Accounts.trans (h : Accounts s s') (h' : Accounts s' s'') : Accounts s s'' :=
  ⟨fun g hg => h'.below g (h.below g hg), h'.counted.trans h.counted⟩

/-- A difference of words and what was taken away. -/
lemma sub_add_modEq {x m : Nat} (hm : m ≤ x + WORD) : sub x m + m ≡ x [MOD WORD] := by
  have hmod : sub x m ≡ x + WORD - m [MOD WORD] := Nat.mod_modEq _ _
  apply (hmod.add_right m).trans
  rw [Nat.sub_add_cancel hm]
  exact Nat.add_mod_right x WORD

/-- Free memory is given away. -/
lemma Accounts.give {m : Nat} (hsum : s'.freeSum + m = s.freeSum) (hm : m < WORD)
    (hfree : s'.freebytes = sub s.freebytes m)
    (halloc : s'.allocbytes = (s.allocbytes + m) % WORD) :
    Accounts s s' := by
  have hsub : sub s.freebytes m + m ≡ s.freebytes [MOD WORD] := sub_add_modEq (by omega)
  rw [← hfree] at hsub
  constructor
  · intro g hg
    apply Nat.ModEq.add_right_cancel' m
    rw [hsum, Nat.add_right_comm]
    exact (hsub.add_right g).trans hg
  · rw [halloc]
    apply ((Nat.mod_modEq (s.allocbytes + m) WORD).add_left s'.freebytes).trans
    rw [Nat.add_comm s.allocbytes, ← Nat.add_assoc]
    exact hsub.add_right s.allocbytes

/-- Memory becomes free. -/
lemma Accounts.take {m : Nat} (hsum : s'.freeSum = s.freeSum + m) (hm : m < WORD)
    (hfree : s'.freebytes = (s.freebytes + m) % WORD)
    (halloc : s'.allocbytes = sub s.allocbytes m) :
    Accounts s s' := by
  have hadd : s'.freebytes ≡ s.freebytes + m [MOD WORD] := by
    rw [hfree]
    exact Nat.mod_modEq _ _
  constructor
  · intro g hg
    rw [Below, hsum]
    apply (hadd.add_right g).trans
    rw [Nat.add_right_comm]
    exact hg.add_right m
  · rw [halloc]
    apply (hadd.add_right _).trans
    rw [Nat.add_assoc, Nat.add_comm m]
    exact (sub_add_modEq (by omega)).add_left s.freebytes

/-! ## The calls -/

lemma getSize_lt (mem : Nat → HeapPart) (a : Nat) : getSize mem a < WORD :=
  Nat.mod_lt _ (by decide)

lemma freeSum_free (h : isFree mem a = true) : Cell.freeSum [cell mem a] = getSize mem a := by
  rw [Cell.freeSum_free h, Cell.freeSum_nil, Nat.add_zero, cell_size]

lemma freeSum_live (h : isFree mem a = false) : Cell.freeSum [cell mem a] = 0 := by
  rw [Cell.freeSum_live h, Cell.freeSum_nil]

variable (h : s.Listed parts)
include h

lemma Listed.whole_accounts (ha : a ∈ parts) (hfree : isFree s.mem a = true) :
    Accounts s (s.whole a) := by
  have hlive : isFree (s.whole a).mem a = false := by
    rw [isFree, whole_self]
    rfl
  have hsum := freeSum_update (s.whole a).mem h.tiles.nodup ha
    fun b _ hb => setMagic_other _ _ hb
  rw [freeSum_free hfree, freeSum_live hlive, Nat.add_zero] at hsum
  apply Accounts.give (m := getSize s.mem a)
  · rw [(h.whole_listed ha).freeSum_eq, h.freeSum_eq]
    exact hsum
  · exact getSize_lt _ _
  · rfl
  · rfl

lemma Listed.released_accounts (ha : a ∈ parts)
    (halloc : isAlloc s.mem a = true) : Accounts s (s.released a) := by
  have hlive : isFree s.mem a = false := by
    cases hfree : isFree s.mem a with
    | false => rfl
    | true =>
      rw [not_isAlloc_of_isFree hfree] at halloc
      contradiction
  have hfree : isFree (s.released a).mem a = true := by
    rw [isFree, released_self]
    rfl
  have hsize : getSize (s.released a).mem a = getSize s.mem a := by
    rw [getSize, getSize, released_self]
  have hsum := freeSum_update (s.released a).mem h.tiles.nodup ha
    fun b _ hb => setMagic_other _ _ hb
  rw [freeSum_free hfree, freeSum_live hlive, Nat.add_zero, hsize] at hsum
  apply Accounts.take (m := getSize s.mem a)
  · rw [(h.released ha).freeSum_eq, h.freeSum_eq]
    exact hsum
  · exact getSize_lt _ _
  · rfl
  · rfl

lemma Listed.cut_accounts (ha : a ∈ parts) (hfree : isFree s.mem a = true)
    (hfits : newsize + PART ≤ getSize s.mem a) : Accounts s (s.cut a newsize) := by
  rcases h.getSize_eq ha with ⟨hsize, hle, hhigh⟩
  have hword := h.word
  have hlive : isFree (s.cut a newsize).mem a = false := by
    rw [isFree, cut_self]
    rfl
  have hmiddle : isFree (s.cut a newsize).mem (a + PART + newsize) = true := by
    rw [isFree, cut_middle]
    rfl
  have hrest : getSize (s.cut a newsize).mem (a + PART + newsize) + (newsize + PART) =
      getSize s.mem a := by
    rw [getSize, cut_middle]
    dsimp only
    rw [sub_eq (by omega) (by omega)]
    omega
  have hsum := freeSum_update _ h.tiles.nodup ha (h.cut_kept ha hfits).1
  rw [freeSum_free hfree, freeSum_live hlive, Nat.add_zero] at hsum
  apply Accounts.give (m := newsize + PART)
  · rcases List.append_of_mem ha with ⟨pre, suf, rfl⟩
    have hnew : cells (s.cut a newsize).mem (pre ++ a :: (a + PART + newsize) :: suf) =
        cells (s.cut a newsize).mem (pre ++ [a]) ++
          cell (s.cut a newsize).mem (a + PART + newsize) :: cells (s.cut a newsize).mem suf := by
      simp
    have hold : cells (s.cut a newsize).mem (pre ++ [a]) ++ cells (s.cut a newsize).mem suf =
        cells (s.cut a newsize).mem (pre ++ a :: suf) := by
      simp
    rw [(h.cut_listed hfits).freeSum_eq, h.freeSum_eq, hnew, Cell.freeSum_middle, hold,
      freeSum_free hmiddle, ← hsum, ← hrest]
    omega
  · exact Nat.lt_of_le_of_lt hfits (getSize_lt _ _)
  · rfl
  · rw [← Nat.add_assoc]
    rfl

/-- The headers that disappear become free memory. -/
lemma Listed.defrag_accounts : Accounts s s.defrag := by
  rcases h.defrag_cells with ⟨parts', hlisted, hcells, hbytes, -⟩
  have hmerge := Cell.freeSum_merge PART (cells s.mem parts)
  rw [← hcells, ← hlisted.freeSum_eq, ← h.freeSum_eq, cells, cells, List.length_map,
    List.length_map] at hmerge
  have hlen := h.tiles.length_le
  have hword := h.word
  apply Accounts.take (m := (defragFrom s.rounds s.mem s.heapStart 0).2)
  · omega
  · omega
  · rfl
  · rfl

lemma Listed.mallocInternal_accounts (newsize : Nat) :
    Accounts s (s.mallocInternal newsize).1 := by
  rcases h.mallocInternal_cases newsize with
    ⟨heq, -⟩ | ⟨a, ha, hfree, -, ⟨-, heq⟩ | ⟨hfits, heq⟩⟩
  · rw [heq]
    exact Accounts.refl s
  · rw [heq]
    exact h.whole_accounts ha hfree
  · rw [heq]
    exact h.cut_accounts ha hfree hfits

lemma Listed.malloc_accounts (size : UInt32) :
    Accounts s (s.malloc size).1 := by
  unfold Malloc.malloc
  split
  · exact Accounts.refl s
  · have hfirst := h.mallocInternal_accounts (mult size.toNat LONG)
    dsimp only
    split
    · exact hfirst
    · next hnull =>
        rcases h.defrag_cells with ⟨parts', hlisted, -⟩
        rw [h.mallocInternal_null (not_not.mp hnull)]
        exact h.defrag_accounts.trans (hlisted.mallocInternal_accounts _)

lemma Listed.free_accounts (ha : a ∈ parts)
    (halloc : isAlloc s.mem a = true) (hfree : s.free (a + PART) = some s') : Accounts s s' := by
  rw [free_eq halloc] at hfree
  rcases Option.some.inj hfree with rfl
  exact h.released_accounts ha halloc

/-- A block is moved: a new one is given away before the old one is released. -/
lemma Listed.realloc_accounts (ha : a ∈ parts)
    (halloc : isAlloc s.mem a = true) {size : UInt32} {p : Nat}
    (hrealloc : s.realloc (a + PART) size = some (s', p)) : Accounts s s' := by
  unfold Malloc.realloc at hrealloc
  rw [if_neg (pointer_ne_zero a), Nat.add_sub_cancel, halloc] at hrealloc
  by_cases hzero : size = 0
  · rw [if_pos hzero] at hrealloc
    rcases Option.map_eq_some_iff.mp hrealloc with ⟨s₁, hfree, heq⟩
    cases heq
    exact h.free_accounts ha halloc hfree
  · rw [if_neg hzero, if_neg (by decide)] at hrealloc
    by_cases hfits : size.toNat ≤ getSize s.mem a
    · rw [if_pos hfits] at hrealloc
      cases hrealloc
      exact Accounts.refl s
    · rw [if_neg hfits] at hrealloc
      dsimp only at hrealloc
      have hnew := h.malloc_accounts size
      by_cases hfail : (s.malloc size).2 = 0
      · rw [if_pos hfail] at hrealloc
        cases hrealloc
        exact hnew
      · rw [if_neg hfail] at hrealloc
        rcases Option.map_eq_some_iff.mp hrealloc with ⟨s₁, hfree, heq⟩
        cases heq
        rcases (h.malloc_spared size).listed with ⟨parts', hlisted, hstill⟩
        exact hnew.trans (hlisted.free_accounts (hstill a ha halloc).1 (hstill a ha halloc).2 hfree)

end Malloc

/-! ## Runs -/

namespace HeapUse

open Malloc

variable {start stop : Nat} {h h' : HeapUse}

/-- The live blocks are the allocated partitions, whatever their sizes. -/
def Linked (start stop : Nat) (h : HeapUse) : Prop :=
  ∃ live, live.map Span.pointer = h.live.map Span.pointer ∧ Tiled start stop ⟨h.heap, live⟩

theorem Linked.malloc (h : Linked start stop h') (size : UInt32) :
    Linked start stop ⟨(h'.heap.malloc size).1, if (h'.heap.malloc size).2 = 0 then h'.live
      else h'.live ++ [⟨(h'.heap.malloc size).2, size.toNat⟩]⟩ ∧
      Accounts h'.heap (h'.heap.malloc size).1 := by
  rcases h with ⟨live, hlive, htiled⟩
  constructor
  · rcases htiled.malloc size with ⟨hfail, htiled', -⟩ | ⟨n, hptr, htiled', -⟩
    · rw [if_pos hfail]
      exact ⟨live, hlive, htiled'⟩
    · rw [if_neg hptr]
      refine ⟨_, ?_, htiled'⟩
      rw [List.map_append, List.map_append, hlive]
      rfl
  · rcases htiled.parts with ⟨parts, hlisted, -⟩
    exact hlisted.malloc_accounts size

/-- A block of the list, with the size that it has for the invariant. -/
lemma Linked.live {live : List Span} (hlive : live.map Span.pointer = h'.live.map Span.pointer)
    {k : Nat} {b : Span} (hk : h'.live[k]? = some b) :
    ∃ c, live[k]? = some c ∧ c.pointer = b.pointer := by
  have hmap := congrArg (fun l => l[k]?) hlive
  rw [List.getElem?_map, List.getElem?_map, hk] at hmap
  exact Option.map_eq_some_iff.mp hmap

lemma Linked.erase {live : List Span} (hlive : live.map Span.pointer = h'.live.map Span.pointer)
    (k : Nat) : (live.eraseIdx k).map Span.pointer = (h'.live.eraseIdx k).map Span.pointer := by
  rw [← List.eraseIdx_map, hlive, List.eraseIdx_map]

/-- No call fails an assertion, and each keeps the accounts. -/
lemma Linked.exec (h : Linked start stop h') (op : HeapOp) :
    ∃ h'', h'.exec op = some h'' ∧ Linked start stop h'' ∧ Accounts h'.heap h''.heap := by
  cases op with
  | malloc size => exact ⟨_, rfl, h.malloc size⟩
  | realloc k size =>
    rw [HeapUse.exec]
    cases hk : h'.live[k]? with
    | none => exact ⟨_, rfl, h.malloc size⟩
    | some b =>
      rcases h with ⟨live, hlive, htiled⟩
      rcases Linked.live hlive hk with ⟨c, hc, hptr⟩
      rcases htiled.realloc hc size with ⟨s', p, n, hrealloc, htiled', -⟩
      rcases htiled.live_part (List.mem_of_getElem? hc) with
        ⟨parts, a, hlisted, ha, halloc, hpart⟩
      have haccounts := hrealloc
      rw [hpart] at haccounts
      rw [hptr] at hrealloc
      dsimp only
      rw [hrealloc]
      refine ⟨_, rfl, ⟨_, ?_, htiled'⟩, hlisted.realloc_accounts ha halloc haccounts⟩
      dsimp only
      split
      · rw [List.map_append, List.map_append, Linked.erase hlive]
        rfl
      · split
        · exact Linked.erase hlive k
        · exact hlive
  | free k =>
    rw [HeapUse.exec]
    cases hk : h'.live[k]? with
    | none => exact ⟨h', rfl, h, Accounts.refl _⟩
    | some b =>
      rcases h with ⟨live, hlive, htiled⟩
      rcases Linked.live hlive hk with ⟨c, hc, hptr⟩
      rcases htiled.free hc with ⟨s', hfree, htiled'⟩
      rcases htiled.live_part (List.mem_of_getElem? hc) with
        ⟨parts, a, hlisted, ha, halloc, hpart⟩
      have haccounts := hfree
      rw [hpart] at haccounts
      rw [hptr] at hfree
      dsimp only
      rw [hfree]
      exact ⟨_, rfl, ⟨_, Linked.erase hlive k, htiled'⟩,
        hlisted.free_accounts ha halloc haccounts⟩

lemma Linked.run (ops : List HeapOp) : ∀ {h' : HeapUse}, Linked start stop h' →
    ∃ h'', h'.run ops = some h'' ∧ Linked start stop h'' ∧ Accounts h'.heap h''.heap := by
  induction ops with
  | nil => exact fun {h'} h => ⟨h', rfl, h, Accounts.refl _⟩
  | cons op ops ih =>
    intro h' h
    rcases h.exec op with ⟨h₁, hexec, hlinked, haccounts⟩
    rcases ih hlinked with ⟨h₂, hrun, hlinked', haccounts'⟩
    refine ⟨h₂, ?_, hlinked', haccounts.trans haccounts'⟩
    rw [HeapUse.run, hexec]
    exact hrun

/-! ## Initialization -/

variable {s : Malloc} {mem : Nat → HeapPart} {heapstart heapend : UInt32}

/-- What `malloc_init` takes off too much: the space ends in front of the last marker, so
there is at most one header in it, not two. -/
def leftOut (s : Malloc) : Nat := if s.heapStart = s.heapEnd then 2 * PART else PART

/-- The free memory of a new heap: one partition, or none. -/
lemma init_freeSum (hinit : Malloc.init mem heapstart heapend = (some s, .EOK)) :
    s.freeSum = if s.heapStart = s.heapEnd then 0 else sub s.heapEnd (s.heapStart + PART) := by
  rcases init_eq hinit with ⟨-, -, rfl⟩
  unfold freeSum rounds
  dsimp only
  generalize sub heapend.toNat (PART * PART) = last
  generalize (last - heapstart.toNat) / PART = n
  have hlast : ∀ mem : Nat → HeapPart, isLast (update mem last
      ⟨last, MAGIC_LAST_NUMBER⟩) last = true := by
    intro mem
    rw [isLast, update_self]
    rfl
  rw [freeSizes]
  by_cases hempty : heapstart.toNat = last
  · rw [if_pos hempty, hempty, hlast]
    rfl
  · have hfirst : update (update mem heapstart.toNat ⟨last, MAGIC_FREE_NUMBER⟩)
        last ⟨last, MAGIC_LAST_NUMBER⟩ heapstart.toNat = ⟨last, MAGIC_FREE_NUMBER⟩ := by
      rw [update_of_ne hempty, update_self]
    have hrest : ∀ mem : Nat → HeapPart, freeSizes (update mem last
        ⟨last, MAGIC_LAST_NUMBER⟩) n last = 0 := by
      intro mem
      cases n with
      | zero => rfl
      | succ n => rw [freeSizes, hlast, if_pos rfl]
    have hfree : isFree (update (update mem heapstart.toNat
        ⟨last, MAGIC_FREE_NUMBER⟩) last ⟨last, MAGIC_LAST_NUMBER⟩) heapstart.toNat = true := by
      rw [isFree, hfirst]
      rfl
    rw [if_neg hempty, not_isLast (.inr hfree), if_neg Bool.false_ne_true, hfree, if_pos rfl,
      getSize, hfirst, hrest, Nat.add_zero]

/-- The end of a heap is not so far below its start that a difference wraps twice. -/
lemma start_le (hle : heapstart.toNat ≤ heapend.toNat) :
    heapstart.toNat + PART ≤ sub heapend.toNat (PART * PART) + WORD := by
  have hlt : heapend.toNat < WORD := heapend.toNat_lt
  have hpart : PART = 8 := rfl
  have hword : WORD = 4294967296 := rfl
  by_cases hroom : PART * PART ≤ heapend.toNat
  · rw [sub_eq hroom hlt, hpart]
    omega
  · rw [hpart] at hroom ⊢
    omega

lemma init_below (hinit : Malloc.init mem heapstart heapend = (some s, .EOK)) :
    Below (leftOut s) s := by
  rw [Below, init_freeSum hinit, leftOut]
  rcases init_eq hinit with ⟨hle, -, rfl⟩
  have hstart := start_le hle
  have hpart : PART = 8 := rfl
  generalize sub heapend.toNat (PART * PART) = last at hstart ⊢
  generalize heapstart.toNat = start at hstart ⊢
  have hheaders : sub (sub last start) (2 * PART) + 2 * PART ≡ sub last start [MOD WORD] :=
    sub_add_modEq (by rw [hpart, WORD]; omega)
  have hspace : sub last start + start ≡ last [MOD WORD] := sub_add_modEq (by omega)
  by_cases hempty : start = last
  · rw [if_pos hempty, if_pos hempty]
    apply hheaders.trans
    apply Nat.ModEq.add_right_cancel' start
    rw [Nat.zero_add]
    exact hspace.trans (by rw [hempty])
  · rw [if_neg hempty, if_neg hempty]
    apply Nat.ModEq.add_right_cancel' (start + PART)
    apply Nat.ModEq.trans _ (sub_add_modEq hstart).symm
    have hsum : sub (sub last start) (2 * PART) + PART + (start + PART) =
        sub (sub last start) (2 * PART) + 2 * PART + start := by
      omega
    rw [hsum]
    exact (hheaders.add_right start).trans hspace

lemma leftOut_pos (s : Malloc) : 0 < leftOut s ∧ leftOut s < WORD := by
  unfold leftOut
  split
  · decide
  · decide

end HeapUse

open Malloc HeapUse

/-- In every heap that `malloc_init` accepts `freebytes` is wrong from the beginning.
If there is a place for the last marker, then after every run of calls it is below the sum of the
sizes of the free partitions, modulo a word, by what was left out, while both counters together
stay the same. -/
theorem freebytes_wrong {mem : Nat → HeapPart} {heapstart heapend : UInt32} {s : Malloc}
    (hinit : Malloc.init mem heapstart heapend = (some s, .EOK)) :
    s.freebytes ≠ s.freeSum ∧ (heapstart.toNat + PART * PART ≤ heapend.toNat →
      ∀ ops, ∃ h, (⟨s, []⟩ : HeapUse).run ops = some h ∧ h.heap.freebytes ≠ h.heap.freeSum ∧
        h.heap.freebytes + leftOut s ≡ h.heap.freeSum [MOD WORD] ∧
        h.heap.freebytes + h.heap.allocbytes ≡ s.freebytes + s.allocbytes [MOD WORD]) := by
  have hbelow := init_below hinit
  rcases leftOut_pos s with ⟨hpos, hlt⟩
  refine ⟨hbelow.ne hpos hlt, fun hroom ops => ?_⟩
  have hlinked : Linked heapstart.toNat heapend.toNat ⟨s, []⟩ :=
    ⟨[], rfl, (init_iff hinit).mpr hroom⟩
  rcases hlinked.run ops with ⟨h, hrun, -, haccounts⟩
  have hbelow' := haccounts.below _ hbelow
  exact ⟨h, hrun, hbelow'.ne hpos hlt, hbelow', haccounts.counted⟩

/-- A block is given away and released again. -/
theorem freebytes_wrong_two : ∃ h, (⟨smallHeap, []⟩ : HeapUse).run [.malloc 10, .free 0] = some h ∧
    h.heap.freebytes ≠ h.heap.freeSum := by
  rcases (freebytes_wrong smallHeap_init).2 (by decide) [.malloc 10, .free 0] with
    ⟨h, hrun, hne, -⟩
  exact ⟨h, hrun, hne⟩

/-- A new heap has a free partition of 56 bytes and counts 48; when all of them are given away,
the counter wraps. -/
theorem freebytes_wraps : smallHeap.freebytes = 48 ∧ smallHeap.freeSum = 56 ∧
    ((⟨smallHeap, []⟩ : HeapUse).run [.malloc 56]).map
      (fun h => (h.heap.freebytes, h.heap.freeSum)) =
      some (WORD - 8, 0) := by
  refine ⟨rfl, ?_, ?_⟩
  · decide
  · decide

end DiegOS.Support
