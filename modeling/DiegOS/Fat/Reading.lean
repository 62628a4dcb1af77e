import DiegOS.Fat.Transfer
import DiegOS.Fat.Flat

/-!
# What a read returns

`FAT_read` on a well-formed volume.  The content of a file is the
concatenation of its clusters.  The loop over whole clusters and the tail copy
the right bytes; the pointer behind the head does not always point there.

Main results:

- Theorem `readLoop_eq`: the loop copies a range of the content.
- Theorem `fatRead_eq`: what a read leaves in its buffer.
- Theorem `fatRead_content_iff`: a read returns the bytes of the file
  exactly when the head is empty, is all that is read, or is at most half of
  what is read.
-/

namespace DiegOS.Fat

open Lib

/-- The concatenation of clusters. -/
def Store.content (s : Store) (l : List Nat) : Bytes :=
  fun p => s.byte (l.getD (p / s.bpc) 0) (p % s.bpc)

namespace Store

variable {s s' : Store} {l : List Nat}

lemma content_cluster {q j c : Nat} (hc : l[q]? = some c) (hj : j < s.bpc) :
    s.content l (q * s.bpc + j) = s.byte c j := by
  have hdiv : (q * s.bpc + j) / s.bpc = q := by
    rw [Nat.mul_comm, Nat.mul_add_div (by omega), Nat.div_eq_of_lt hj, Nat.add_zero]
  have hmod : (q * s.bpc + j) % s.bpc = j := by
    rw [Nat.mul_comm, Nat.mul_add_mod, Nat.mod_eq_of_lt hj]
  rw [content, hdiv, hmod, List.getD_eq_getElem?_getD, hc, Option.getD_some]

/-- The content depends on the bytes of its own clusters only. -/
lemma content_congr (hbpc : s'.bpc = s.bpc) (h : ∀ c ∈ l, s'.byte c = s.byte c) {p : Nat}
    (hp : p < l.length * s.bpc) : s'.content l p = s.content l p := by
  have hq : p / s.bpc < l.length := Nat.div_lt_of_lt_mul (by rwa [Nat.mul_comm])
  have hmem : l.getD (p / s.bpc) 0 ∈ l := by
    rw [List.getD_eq_getElem?_getD, List.getElem?_eq_getElem hq, Option.getD_some]
    exact List.getElem_mem hq
  rw [content, content, hbpc, h _ hmem]

end Store

section Read

variable {vol : FATVolume} {c d : Nat} {l : List Nat}

/-- The bytes a cluster read delivers are content. -/
lemma buffer_eq_content (hl : ∀ x ∈ l, vol.view.Node x) {q j : Nat} (hc : l[q]? = some c)
    (hj : j < vol.bytesPerCluster) :
    vol.buffer c j = vol.view.content l (q * vol.bytesPerCluster + j) := by
  rw [FATVolume.Mounted.buffer_apply (hl c (List.mem_of_getElem? hc)) hj]
  exact (Store.content_cluster (s := vol.view) hc hj).symm

variable (hm : vol.Mounted)
include hm

/-! ## Following the chain -/

/-- `FAT_lookup_FAT_table` returns the cluster at an index, or an end-of-chain value
right behind the chain. -/
lemma lookupLoop_chain (h : vol.view.Chain c l) (n : Nat) :
    (n < l.length → l[n]? = some (lookupLoop vol n c)) ∧
      (n = l.length → Store.Stop (lookupLoop vol n c)) := by
  induction n generalizing c l with
  | zero => exact ⟨fun _ => h.getElem_zero, fun hlen => absurd hlen.symm h.length_pos.ne'⟩
  | succ n ih =>
    cases h with
    | last hnode hstop =>
      have hstop' : Store.Stop (fatGetClusterFromTable vol c) := hstop
      have hread : ¬fatClusterIsReadable (fatGetClusterFromTable vol c) = true := by
        rw [fatClusterIsReadable_iff]
        unfold Store.Stop FAT_EOC at hstop'
        omega
      rw [lookupLoop, if_neg hread]
      exact ⟨fun hlt => by simp at hlt, fun _ => hstop⟩
    | cons hnode hrest =>
      have hread := isReadable hm.fatSize_le hrest.node_head
      have hread' : fatClusterIsReadable (fatGetClusterFromTable vol c) = true := hread
      rw [lookupLoop, if_pos hread']
      obtain ⟨hin, hend⟩ := ih hrest
      exact ⟨fun hlt => hin (by simpa using hlt), fun hlen => hend (by simpa using hlen)⟩

/-- The cluster that holds an offset inside the chain. -/
lemma fatLookupFATTable_eq {e : DirEntry} (h : vol.view.Chain e.clus l) (offset : Nat)
    (hoff : offset < l.length * vol.bytesPerCluster) :
    l[offset / vol.bytesPerCluster]? = some (fatLookupFATTable vol e offset) :=
  (lookupLoop_chain hm h _).1 (Nat.div_lt_of_lt_mul (by rwa [Nat.mul_comm]))

variable (hr : vol.ctx.Serves .read)
include hr

/-! ## The parts of a read -/

/-- The tail copies the start of one cluster. -/
lemma readTail_eq (hl : ∀ x ∈ l, vol.view.Node x) {q buflen bufpos readlen : Nat}
    {buffer : Bytes} (hc : buflen ≠ 0 → l[q]? = some c) (hlen : buflen < vol.bytesPerCluster) :
    readTail vol c buffer bufpos buflen readlen =
      ⟨vol, 0, readlen + buflen,
        memcpy buffer bufpos (vol.view.content l) (q * vol.bytesPerCluster) buflen⟩ := by
  unfold readTail
  split <;> rename_i hzero
  · subst hzero
    rw [memcpy_zero, Nat.add_zero]
  · have hnode := hl c (List.mem_of_getElem? (hc hzero))
    rw [isReadable hm.fatSize_le hnode, hm.readC_eq hr hnode]
    simp only [Bool.not_true, Bool.false_eq_true, if_false, ReadOut.mk.injEq, true_and]
    refine memcpy_congr fun j hj => ?_
    rw [Nat.zero_add]
    exact buffer_eq_content hl (hc hzero) (by omega)

/-- The loop over whole clusters and the tail copy the range of the content that starts
at cluster index `q`. -/
theorem readLoop_eq (hchain : vol.view.Chain d l) {fuel q buflen bufpos readlen : Nat}
    {buffer : Bytes} (hc : buflen ≠ 0 → l[q]? = some c) (hfuel : buflen ≤ fuel)
    (hin : q * vol.bytesPerCluster + buflen ≤ l.length * vol.bytesPerCluster) :
    readLoop vol fuel c buffer bufpos buflen readlen =
      ⟨vol, 0, readlen + buflen,
        memcpy buffer bufpos (vol.view.content l) (q * vol.bytesPerCluster) buflen⟩ := by
  have hl := hchain.node_of_mem
  have hpos := hm.cluster_pos
  induction fuel generalizing c q buflen bufpos readlen buffer with
  | zero => exact readTail_eq hm hr hl hc (by omega)
  | succ fuel ih =>
    unfold readLoop
    split <;> rename_i hlt
    · exact readTail_eq hm hr hl hc hlt
    · have hc' := hc (by omega)
      have hnode := hl c (List.mem_of_getElem? hc')
      rw [isReadable hm.fatSize_le hnode, hm.readC_eq hr hnode]
      simp only [Bool.not_true, Bool.false_eq_true, if_false]
      have hmul : (q + 1) * vol.bytesPerCluster = q * vol.bytesPerCluster + vol.bytesPerCluster :=
        Nat.succ_mul _ _
      have hnext : buflen - vol.bytesPerCluster ≠ 0 →
          l[q + 1]? = some (fatGetClusterFromTable vol c) := by
        intro hrest
        have hq : q + 1 < l.length := by
          by_contra hge
          have hle : l.length * vol.bytesPerCluster ≤ (q + 1) * vol.bytesPerCluster :=
            Nat.mul_le_mul_right _ (by omega)
          omega
        have hget : l[q + 1]? = some l[q + 1] := List.getElem?_eq_getElem hq
        rw [hget, ← hchain.next_getElem hc' hget]
        rfl
      rw [ih hnext (by omega) (by omega), hmul]
      have hbuf : memcpy buffer bufpos (vol.buffer c) 0 vol.bytesPerCluster =
          memcpy buffer bufpos (vol.view.content l) (q * vol.bytesPerCluster)
            vol.bytesPerCluster := by
        refine memcpy_congr fun j hj => ?_
        rw [Nat.zero_add]
        exact buffer_eq_content hl hc' hj
      rw [hbuf, memcpy_append]
      have hsum : vol.bytesPerCluster + (buflen - vol.bytesPerCluster) = buflen := by omega
      rw [hsum, Nat.add_assoc readlen, hsum]

end Read

/-! ## The head and the pointer behind it -/

/-- The buffer after a read of `len` bytes: behind the head the pointer advances by the
smaller of the head and the rest. -/
def readImage (bpc : Nat) (content buffer : Bytes) (offset len : Nat) : Bytes :=
  let head := bpc - offset % bpc
  if offset % bpc = 0 ∨ len ≤ head then memcpy buffer 0 content offset len
  else
    memcpy (memcpy buffer 0 content offset head) (min (len - head) head) content (offset + head)
      (len - head)

/-- The pointer behind the head is right when there is no rest, or the rest is at least as
long as the head. -/
def HeadFits (bpc offset len : Nat) : Prop :=
  offset % bpc = 0 ∨ len ≤ bpc - offset % bpc ∨ 2 * (bpc - offset % bpc) ≤ len

instance (bpc offset len : Nat) : Decidable (HeadFits bpc offset len) :=
  inferInstanceAs (Decidable (_ ∨ _ ∨ _))

lemma readImage_of_headFits {bpc offset len : Nat} {content buffer : Bytes}
    (h : HeadFits bpc offset len) :
    readImage bpc content buffer offset len = memcpy buffer 0 content offset len := by
  unfold readImage
  dsimp only
  split <;> rename_i hshort
  · rfl
  · rw [not_or] at hshort
    have htwice : 2 * (bpc - offset % bpc) ≤ len := by
      rcases h with h | h | h
      · exact absurd h hshort.1
      · exact absurd h hshort.2
      · exact h
    have hmin : min (len - (bpc - offset % bpc)) (bpc - offset % bpc) =
        0 + (bpc - offset % bpc) := by omega
    have hsum : bpc - offset % bpc + (len - (bpc - offset % bpc)) = len := by omega
    rw [hmin, memcpy_append, hsum]

/-- Otherwise the last byte of the buffer is never written. -/
lemma readImage_last {bpc offset len : Nat} {content buffer : Bytes}
    (h : ¬HeadFits bpc offset len) :
    readImage bpc content buffer offset len (len - 1) = buffer (len - 1) := by
  unfold HeadFits at h
  unfold readImage
  rw [if_neg (by omega), memcpy_apply_not_mem (by omega), memcpy_apply_not_mem (by omega)]

/-- The image holds the content in every buffer exactly when the pointer is right. -/
lemma readImage_iff {bpc offset len : Nat} (content : Bytes) :
    (∀ buffer : Bytes, ∀ j < len, readImage bpc content buffer offset len j =
      content (offset + j)) ↔ HeadFits bpc offset len := by
  constructor
  · intro hall
    by_contra hnot
    have hlen : 0 < len := by
      unfold HeadFits at hnot
      omega
    -- A buffer that differs from the content in its last byte shows the gap.
    have hlast := hall (fun _ => content (offset + (len - 1)) + 1) (len - 1) (by omega)
    rw [readImage_last hnot] at hlast
    simp at hlast
  · intro hfit buffer j hj
    rw [readImage_of_headFits hfit, memcpy_apply_mem (Nat.zero_le j) (by omega), Nat.sub_zero]

/-! ## The whole read -/

section Whole

variable {vol : FATVolume} (hm : vol.Mounted) (hr : vol.ctx.Serves .read)
include hm hr

lemma readClusters_eq {c d offset buflen : Nat} {l : List Nat} {buffer : Bytes}
    (hchain : vol.view.Chain d l) (hc : l[offset / vol.bytesPerCluster]? = some c)
    (hin : offset + buflen ≤ l.length * vol.bytesPerCluster) :
    readClusters vol c offset buffer buflen =
      ⟨vol, 0, buflen,
        readImage vol.bytesPerCluster (vol.view.content l) buffer offset buflen⟩ := by
  have hpos := hm.cluster_pos
  have hdiv : offset / vol.bytesPerCluster * vol.bytesPerCluster + offset % vol.bytesPerCluster =
      offset := Nat.div_add_mod' offset vol.bytesPerCluster
  have hmod := Nat.mod_lt offset hpos
  have hl := hchain.node_of_mem
  unfold readClusters
  split <;> rename_i hhead
  · have hnode := hl c (List.mem_of_getElem? hc)
    have hcopy : ∀ n ≤ vol.bytesPerCluster - offset % vol.bytesPerCluster,
        memcpy buffer 0 (vol.buffer c) (offset % vol.bytesPerCluster) n =
          memcpy buffer 0 (vol.view.content l) offset n := by
      intro n hn
      refine memcpy_congr fun j hj => ?_
      rw [buffer_eq_content hl hc (by omega), ← Nat.add_assoc, hdiv]
    rw [hm.readC_eq hr hnode]
    dsimp only
    split <;> rename_i hrest
    · have hmin : min buflen (vol.bytesPerCluster - offset % vol.bytesPerCluster) = buflen := by
        omega
      rw [hmin, hcopy buflen (by omega), readImage, if_pos (by omega)]
    · have hmin : min buflen (vol.bytesPerCluster - offset % vol.bytesPerCluster) =
          vol.bytesPerCluster - offset % vol.bytesPerCluster := by omega
      have hmul : (offset / vol.bytesPerCluster + 1) * vol.bytesPerCluster =
          offset + (vol.bytesPerCluster - offset % vol.bytesPerCluster) := by
        rw [Nat.succ_mul]
        omega
      rw [hmin] at hrest ⊢
      have hq : offset / vol.bytesPerCluster + 1 < l.length := by
        by_contra hge
        have hle : l.length * vol.bytesPerCluster ≤
            (offset / vol.bytesPerCluster + 1) * vol.bytesPerCluster :=
          Nat.mul_le_mul_right _ (by omega)
        omega
      have hget : l[offset / vol.bytesPerCluster + 1]? =
          some l[offset / vol.bytesPerCluster + 1] := List.getElem?_eq_getElem hq
      have hnext : l[offset / vol.bytesPerCluster + 1]? =
          some (fatGetClusterFromTable vol c) := by
        rw [hget, ← hchain.next_getElem hc hget]
        rfl
      rw [readLoop_eq hm hr hchain (fun _ => hnext) le_rfl (by omega), hmul, hcopy _ le_rfl,
        readImage, if_neg (by omega)]
      congr 1
      omega
  · rw [not_not] at hhead
    have hoff : offset / vol.bytesPerCluster * vol.bytesPerCluster = offset := by omega
    rw [readLoop_eq hm hr hchain (fun _ => hc) le_rfl (by omega), hoff, Nat.zero_add, readImage,
      if_pos (.inl hhead)]

end Whole

/-- A sound store in which every entry, links included, has clusters for all its bytes. -/
structure Store.WellFormed (s : Store) : Prop where
  sound : s.Sound
  long_enough : ∀ k i l, s.Item k i → s.Clusters (s.entry k i) l →
    (s.entry k i).size ≤ l.length * s.bpc

/-- The cluster of a slot is not among the clusters of its entry. -/
lemma Store.Sound.slot_not_own {s : Store} (hs : s.Sound) {k i : Nat} {l : List Nat}
    (hitem : s.Item k i) (hl : s.Clusters (s.entry k i) l) : k ∉ l := by
  obtain ⟨d, hd, hin⟩ := hitem.1
  exact hs.slot_not_mem hd hin (o := some (k, i)) ⟨hitem, hl⟩ (hs.not_dirOwner_self hd k i hin)

/-- `FAT_read` reports the number of bytes between the offset and the end of the file,
at most the buffer length, and fills the buffer with them, whatever the buffer and the
counter held before. -/
def ReadsContent (vol : FATVolume) (path : List UInt8) (offset buflen : Nat) (now : Tm)
    (junk : SearchResult) (size : Nat) (content : Bytes) : Prop :=
  ∀ (buffer : Bytes) (readlen : Nat),
    (fatRead vol path offset buffer buflen readlen now junk).readlen =
      min buflen (size - offset) ∧
    ∀ j < (fatRead vol path offset buffer buflen readlen now junk).readlen,
      (fatRead vol path offset buffer buflen readlen now junk).buffer j = content (offset + j)

section Result

variable {vol : FATVolume} (hm : vol.Mounted) (hr : vol.ctx.Serves .read)
  (hs : vol.view.WellFormed) {path : List UInt8} {junk : SearchResult} {k i : Nat}
  (hlead : Leads vol path junk k i)
  (hfile : (vol.view.entry k i).hasAttr (ATTR_DIRECTORY ||| ATTR_VOLUME_ID) = false)
  {l : List Nat} (hl : vol.view.Clusters (vol.view.entry k i) l) {offset buflen : Nat} {now : Tm}
include hm hr hs hlead hfile hl

/-- What a read inside the file does. -/
theorem fatRead_eq (now : Tm) (hbuf : buflen ≠ 0) (hoff : offset < (vol.view.entry k i).size)
    (hw : vol.ctx.fault .write (vol.slotSector k i) 1 = false) (buffer : Bytes) (readlen : Nat) :
    ∃ vol', fatRead vol path offset buffer buflen readlen now junk =
      ⟨vol', 0, min buflen ((vol.view.entry k i).size - offset),
        readImage vol.bytesPerCluster (vol.view.content l) buffer offset
          (min buflen ((vol.view.entry k i).size - offset))⟩ := by
  obtain ⟨r, hsearch, hfound⟩ := hlead
  have hlong := hs.long_enough k i l hfound.item hl
  have hk := hs.sound.slot_not_own hfound.item hl
  have hchain : vol.view.Chain (vol.view.entry k i).clus l := by
    rcases hl with ⟨-, rfl⟩ | hl
    · simp at hlong
      omega
    · exact hl
  have hbpc : vol.view.bpc = vol.bytesPerCluster := rfl
  rw [hbpc] at hlong
  -- The time stamp changes neither the chain nor the content.
  obtain ⟨e, he⟩ : ∃ e, e = fatUpdateTimestamps (vol.view.entry k i) .read now := ⟨_, rfl⟩
  have hview := FATVolume.view_putEntry hm hfound.node hfound.lt_items e
  have hsame : vol.Same (vol.putEntry k i e) := .putEntry k i e
  have hchain' : (vol.putEntry k i e).view.Chain (vol.view.entry k i).clus l := by
    rw [hview]
    exact hchain
  have hc := fatLookupFATTable_eq hm hchain offset (by omega)
  have hnode := hchain.node_of_mem _ (List.mem_of_getElem? hc)
  have hlen : (if (vol.view.entry k i).size - offset < buflen then
      (vol.view.entry k i).size - offset else buflen) =
      min buflen ((vol.view.entry k i).size - offset) := by
    split <;> omega
  have hcontent : ∀ n, offset + n ≤ l.length * vol.bytesPerCluster →
      readImage vol.bytesPerCluster ((vol.putEntry k i e).view.content l) buffer offset n =
        readImage vol.bytesPerCluster (vol.view.content l) buffer offset n := by
    intro n hn
    have hsame : ∀ p < l.length * vol.bytesPerCluster,
        (vol.putEntry k i e).view.content l p = vol.view.content l p := by
      intro p hp
      rw [hview]
      exact @Store.content_congr vol.view (vol.view.putEntry k i e) _ rfl (fun c hcl =>
        Store.byte_putEntry_ne i e fun heq => hk (heq ▸ hcl)) _ hp
    unfold readImage
    dsimp only
    split <;> rename_i hshort
    · exact memcpy_congr fun j hj => hsame _ (by omega)
    · rw [memcpy_congr fun j hj => hsame _ (by omega)]
      congr 1
      exact memcpy_congr fun j hj => hsame _ (by omega)
  refine ⟨vol.putEntry k i e, ?_⟩
  rw [fatRead, if_neg hbuf, hsearch]
  dsimp only
  rw [hfound.entry_eq, hfile, if_neg (by simp), if_neg (by omega), hlen,
    isReadable hm.fatSize_le hnode, ← he, hm.writeDIREntry_eq hr hw hfound.node hfound.lt_items
      (show vol.At { r with entry := e } k i from hfound.place)]
  rw [if_neg (by simp), if_neg (by simp),
    readClusters_eq (hm.putEntry k i e) (hsame.serves hr) hchain' hc
      (show offset + _ ≤ l.length * vol.bytesPerCluster by omega)]
  congr 1
  exact hcontent _ (by omega)

/-- A read returns the bytes of the file exactly when it asks for some, and, inside the
file, the time stamp can be written and the head of the request is empty, is all of it, or
is at most half of it. -/
theorem fatRead_content_iff :
    ReadsContent vol path offset buflen now junk (vol.view.entry k i).size (vol.view.content l) ↔
      buflen ≠ 0 ∧ ((vol.view.entry k i).size ≤ offset ∨
        (vol.ctx.fault .write (vol.slotSector k i) 1 = false ∧
          HeadFits vol.bytesPerCluster offset
            (min buflen ((vol.view.entry k i).size - offset)))) := by
  obtain ⟨r, hsearch, hfound⟩ := id hlead
  by_cases hbuf : buflen = 0
  · -- The counter keeps whatever it held.
    refine ⟨fun h => ?_, fun h => absurd hbuf h.1⟩
    have hone := (h (fun _ => 0) 1).1
    simp [fatRead, hbuf] at hone
  by_cases hoff : (vol.view.entry k i).size ≤ offset
  · refine ⟨fun _ => ⟨hbuf, .inl hoff⟩, fun _ buffer readlen => ?_⟩
    have hread : fatRead vol path offset buffer buflen readlen now junk = ⟨vol, 0, 0, buffer⟩ := by
      rw [fatRead, if_neg hbuf, hsearch]
      dsimp only
      rw [hfound.entry_eq, hfile, if_neg (by simp), if_pos hoff]
    rw [hread]
    exact ⟨by dsimp only; omega, fun j hj => absurd hj (by simp)⟩
  by_cases hw : vol.ctx.fault .write (vol.slotSector k i) 1 = true
  · refine ⟨fun h => ?_, fun h => ?_⟩
    · -- The failing stamp ends the call before anything is read.
      have hzero : (fatRead vol path offset (fun _ => 0) buflen 0 now junk).readlen = 0 := by
        rw [fatRead, if_neg hbuf, hsearch]
        dsimp only
        rw [hfound.entry_eq, hfile, if_neg (by simp), if_neg hoff]
        split
        · rfl
        · rw [hm.writeDIREntry_fault hr hw hfound.node hfound.lt_items (show vol.At
            { r with entry := fatUpdateTimestamps (vol.view.entry k i) .read now } k i
            from hfound.place)]
          rfl
      have hlen := (h (fun _ => 0) 0).1
      omega
    · rcases h.2 with hle | ⟨hfault, -⟩
      · exact absurd hle hoff
      · rw [hw] at hfault
        contradiction
  · rw [Bool.not_eq_true] at hw
    have hread := fatRead_eq hm hr hs hlead hfile hl now hbuf (Nat.lt_of_not_le hoff) hw
    rw [← readImage_iff (vol.view.content l)]
    constructor
    · intro h
      refine ⟨hbuf, .inr ⟨hw, fun buffer j hj => ?_⟩⟩
      obtain ⟨vol', heq⟩ := hread buffer 0
      have hfill := (h buffer 0).2 j
      rw [heq] at hfill
      exact hfill hj
    · rintro ⟨-, hle | ⟨-, hfits⟩⟩
      · exact absurd hle hoff
      · intro buffer readlen
        obtain ⟨vol', heq⟩ := hread buffer readlen
        rw [heq]
        exact ⟨rfl, fun j hj => hfits buffer j hj⟩

end Result

lemma small_wellFormed : small.view.WellFormed := by
  refine ⟨small_ready.sound, fun k i l hitem hl => ?_⟩
  obtain ⟨m, hm, -, hsize⟩ := small_ready.sound.item_chain k i hitem
  obtain rfl := small_ready.sound.clusters_unique hl hm
  obtain ⟨rfl, hi, hlive⟩ := (small_flat.item_iff small_mounted.fatSize_le).mp hitem
  have hi2 : i < 2 := by rwa [small_view] at hi
  interval_cases i
  · refine hsize ?_
    rw [show small.view.root = 2 from rfl, small_entry_zero]
    decide
  · exact absurd hlive small_not_live_one

/-- On the small volume a read of 28 bytes from offset 100 stays in one cluster and returns
them. -/
theorem fatRead_content_small :
    ReadsContent small smallPath 100 28 ⟨0, 0, 0, 1, 0, 100⟩ ⟨smallFile, 0, 0, 0⟩
      (small.view.entry 2 0).size (small.view.content [3, 4]) := by
  refine (fatRead_content_iff small_mounted small_ready.reads small_wellFormed (small_leads _)
    (by rw [small_entry_zero]; decide) small_clusters).mpr ⟨by decide, .inr ⟨rfl, ?_⟩⟩
  rw [small_entry_zero]
  decide

/-- A read of 40 bytes from offset 100 crosses into the second cluster: the 12 bytes behind
the head of 28 are stored at position 12, and the last byte of the buffer is not written. -/
theorem fatRead_head_overwritten :
    small.Mounted ∧ small.ctx.Faultless ∧ small.view.WellFormed ∧
      Leads small smallPath ⟨smallFile, 0, 0, 0⟩ 2 0 ∧
      (small.view.entry 2 0).hasAttr (ATTR_DIRECTORY ||| ATTR_VOLUME_ID) = false ∧
      small.view.Clusters (small.view.entry 2 0) [3, 4] ∧
      ¬ReadsContent small smallPath 100 40 ⟨0, 0, 0, 1, 0, 100⟩ ⟨smallFile, 0, 0, 0⟩
        (small.view.entry 2 0).size (small.view.content [3, 4]) := by
  have hfile : (small.view.entry 2 0).hasAttr (ATTR_DIRECTORY ||| ATTR_VOLUME_ID) = false := by
    rw [small_entry_zero]
    decide
  have hsize : (small.view.entry 2 0).size = 200 := by
    rw [small_entry_zero]
    rfl
  refine ⟨small_mounted, small_ready.faultless, small_wellFormed, small_leads _, hfile,
    small_clusters, fun hall => ?_⟩
  have hread := fatRead_eq small_mounted small_ready.reads small_wellFormed
    (small_leads ⟨smallFile, 0, 0, 0⟩) hfile small_clusters ⟨0, 0, 0, 1, 0, 100⟩
    (show 40 ≠ 0 by decide) (show 100 < _ by rw [hsize]; decide) rfl
  rw [hsize] at hread hall
  have hfits : HeadFits small.bytesPerCluster 100 40 := by
    refine (readImage_iff (small.view.content [3, 4])).mp fun buffer j hj => ?_
    obtain ⟨vol', heq⟩ := hread buffer 0
    have hfill := (hall buffer 0).2 j
    rw [heq] at hfill
    exact hfill hj
  exact absurd hfits (by decide)

end DiegOS.Fat
