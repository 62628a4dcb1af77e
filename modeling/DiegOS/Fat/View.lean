import DiegOS.Fat.Store

/-!
# The store of a mounted volume

How a mounted volume lays its store out on the media: the tables behind the
reserved sectors, then the data clusters.  The primitive accesses of
`fat.c` (a cluster, one directory entry, one table word, the flush of the
table) are stated once, as equations between volumes and as changes of the
store.

Main results:

- Theorem `FATVolume.view_putCluster` and its companions: every primitive
  changes the store in one place.
- Theorem `FATVolume.Mounted.writeDIREntry_eq`: rewriting an entry at its
  place is one such change.
- Theorem `FATVolume.mirrored_flush`: a flush brings every copy of
  the table in step with the memory.
-/

namespace DiegOS.Fat

open Lib Function

/-! ## Primitive changes of a store -/

namespace Store

/-- Replace the bytes of a cluster. -/
def putCluster (s : Store) (c : Nat) (buf : Bytes) : Store :=
  { s with byte := Function.update s.byte c fun j => if j < s.bpc then buf j else 0 }

/-- Replace one directory entry. -/
def putEntry (s : Store) (k i : Nat) (e : DirEntry) : Store :=
  { s with byte :=
      Function.update s.byte k (memcpy (s.byte k) (entrySize * i) e.encode 0 entrySize) }

/-- Replace one link. -/
def setNext (s : Store) (c v : Nat) : Store := { s with next := Function.update s.next c v }

variable {s : Store}

lemma byte_putEntry_self (k i : Nat) (e : DirEntry) :
    (s.putEntry k i e).byte k = memcpy (s.byte k) (entrySize * i) e.encode 0 entrySize :=
  update_self _ _ _

lemma entry_putEntry_self (k i : Nat) (e : DirEntry) : (s.putEntry k i e).entry k i = e := by
  rw [entry, entryOf, byte_putEntry_self]
  calc
    _ = DirEntry.decode e.encode := by
        refine DirEntry.decode_congr fun j hj => ?_
        rw [shift_apply, memcpy_apply_mem (by omega) (by omega)]
        congr 1
        omega
    _ = e := DirEntry.decode_encode e

lemma byte_putEntry_ne {k k' : Nat} (i : Nat) (e : DirEntry) (h : k' ≠ k) :
    (s.putEntry k i e).byte k' = s.byte k' :=
  update_of_ne h _ _

lemma entry_putEntry_ne {k i k' i' : Nat} (e : DirEntry) (h : (k', i') ≠ (k, i)) :
    (s.putEntry k i e).entry k' i' = s.entry k' i' := by
  by_cases hk : k' = k
  · subst hk
    have hi : i' ≠ i := fun hi => h (by rw [hi])
    refine DirEntry.decode_congr fun j hj => ?_
    rw [byte_putEntry_self, shift_apply, shift_apply, memcpy_apply_not_mem]
    unfold entrySize at *
    omega
  · rw [entry, entry, byte_putEntry_ne i e hk]

lemma byte_putCluster_self {c j : Nat} (buf : Bytes) (hj : j < s.bpc) :
    (s.putCluster c buf).byte c j = buf j := by
  simp [putCluster, hj]

lemma byte_putCluster_ne {c c' : Nat} (buf : Bytes) (h : c' ≠ c) :
    (s.putCluster c buf).byte c' = s.byte c' :=
  update_of_ne h _ _

lemma next_setNext_self (c v : Nat) : (s.setNext c v).next c = v := by
  simp [setNext]

lemma next_setNext_ne {c c' : Nat} (v : Nat) (h : c' ≠ c) :
    (s.setNext c v).next c' = s.next c' :=
  update_of_ne h _ _

end Store

/-! ## Layout of a mounted volume -/

namespace FATVolume

/-- Media address of a data cluster. -/
def clusterAddr (vol : FATVolume) (c : Nat) : Nat :=
  (vol.firstSector + vol.firstDataSector) * vol.ctx.bytesPerSector + (c - 2) * vol.bytesPerCluster

/-- Media address of a copy of the cluster table. -/
def tableAddr (vol : FATVolume) (copy : Nat) : Nat :=
  (vol.firstSector + vol.pb.resvdSecCnt.toNat + copy * vol.pb.fatSz16.toNat) *
    vol.ctx.bytesPerSector

/-- What a read of a data cluster returns. -/
def buffer (vol : FATVolume) (c : Nat) : Bytes := shift vol.ctx.data (vol.clusterAddr c)

/-- Bytes in one copy of the cluster table. -/
def tableBytes (vol : FATVolume) : Nat := vol.pb.fatSz16.toNat * vol.ctx.bytesPerSector

/-- What the volume stores. -/
def view (vol : FATVolume) : Store where
  fatSize := vol.fatSize
  root := vol.pb.rootClus.toNat
  slots := vol.items
  bpc := vol.bytesPerCluster
  next := fatGetClusterFromTable vol
  byte := fun c j =>
    if 2 ≤ c ∧ c < vol.fatSize ∧ j < vol.bytesPerCluster then vol.ctx.data (vol.clusterAddr c + j)
    else 0

/-- The fields of a mounted volume fit together, and the volume lies on its media. -/
structure Mounted (vol : FATVolume) : Prop where
  sector_eq : vol.ctx.bytesPerSector = entrySize * vol.fatEntriesPerSec
  entries_pos : 0 < vol.fatEntriesPerSec
  secPerClus_pos : 0 < vol.pb.secPerClus.toNat
  cluster_eq : vol.bytesPerCluster = vol.ctx.bytesPerSector * vol.pb.secPerClus.toNat
  cluster_lt : vol.bytesPerCluster < 2 ^ 16
  firstData_eq : vol.firstDataSector =
    vol.pb.resvdSecCnt.toNat + vol.pb.numFATs.toNat * vol.pb.fatSz16.toNat
  table_pos : 0 < vol.pb.fatSz16.toNat
  table_fits : 2 * vol.fatSize ≤ vol.tableBytes
  fatSize_le : vol.fatSize ≤ FAT_BAD
  inside : vol.firstSector + vol.firstDataSector + (vol.fatSize - 2) * vol.pb.secPerClus.toNat ≤
    vol.ctx.numOfSectors
  media_lt : vol.ctx.numOfSectors < 2 ^ 32
  hint_lo : 2 ≤ vol.lastFreeFATEntry
  hint_hi : vol.lastFreeFATEntry < vol.fatSize

/-- Every copy of the table on the media equals the table in memory. -/
def Mirrored (vol : FATVolume) : Prop :=
  ∀ copy < vol.pb.numFATs.toNat, ∀ j < vol.tableBytes,
    vol.ctx.data (vol.tableAddr copy + j) = vol.fatBytes j

/-- Replace the bytes of the media. -/
def withData (vol : FATVolume) (data : Bytes) : FATVolume :=
  { vol with ctx := { vol.ctx with data := data } }

/-- Replace the bytes of a cluster. -/
def putCluster (vol : FATVolume) (c : Nat) (buf : Bytes) : FATVolume :=
  vol.withData (memcpy vol.ctx.data (vol.clusterAddr c) buf 0 vol.bytesPerCluster)

/-- Replace one directory entry. -/
def putEntry (vol : FATVolume) (k i : Nat) (e : DirEntry) : FATVolume :=
  vol.withData (memcpy vol.ctx.data (vol.clusterAddr k + entrySize * i) e.encode 0 entrySize)

/-- Replace one word of the table in memory. -/
def setFat (vol : FATVolume) (N val : Nat) : FATVolume :=
  { vol with fat := Function.update vol.fat N (UInt16.ofNat val) }

/-- Move the hint of the free-cluster search. -/
def setHint (vol : FATVolume) (N : Nat) : FATVolume := { vol with lastFreeFATEntry := N }

/-- Flush the table to the first copies. -/
def flushTo (vol : FATVolume) : Nat → FATVolume
  | 0 => vol
  | n + 1 => (vol.flushTo n).withData
      (memcpy (vol.flushTo n).ctx.data (vol.tableAddr n) vol.fatBytes 0 vol.tableBytes)

/-- Flush the table to every copy. -/
def flush (vol : FATVolume) : FATVolume := vol.flushTo vol.pb.numFATs.toNat

/-! ## What stays the same -/

/-- The same volume up to the media bytes, the table and the hint. -/
structure Same (vol vol' : FATVolume) : Prop where
  pb : vol'.pb = vol.pb
  firstSector : vol'.firstSector = vol.firstSector
  firstDataSector : vol'.firstDataSector = vol.firstDataSector
  bytesPerCluster : vol'.bytesPerCluster = vol.bytesPerCluster
  fatSize : vol'.fatSize = vol.fatSize
  fatEntriesPerSec : vol'.fatEntriesPerSec = vol.fatEntriesPerSec
  bytesPerSector : vol'.ctx.bytesPerSector = vol.ctx.bytesPerSector
  numOfSectors : vol'.ctx.numOfSectors = vol.ctx.numOfSectors
  fault : vol'.ctx.fault = vol.ctx.fault

variable {vol vol' vol'' : FATVolume}

namespace Same

lemma refl (vol : FATVolume) : Same vol vol := ⟨rfl, rfl, rfl, rfl, rfl, rfl, rfl, rfl, rfl⟩

lemma trans (h : Same vol vol') (h' : Same vol' vol'') : Same vol vol'' where
  pb := h'.pb.trans h.pb
  firstSector := h'.firstSector.trans h.firstSector
  firstDataSector := h'.firstDataSector.trans h.firstDataSector
  bytesPerCluster := h'.bytesPerCluster.trans h.bytesPerCluster
  fatSize := h'.fatSize.trans h.fatSize
  fatEntriesPerSec := h'.fatEntriesPerSec.trans h.fatEntriesPerSec
  bytesPerSector := h'.bytesPerSector.trans h.bytesPerSector
  numOfSectors := h'.numOfSectors.trans h.numOfSectors
  fault := h'.fault.trans h.fault

lemma putCluster (c : Nat) (buf : Bytes) : Same vol (vol.putCluster c buf) :=
  ⟨rfl, rfl, rfl, rfl, rfl, rfl, rfl, rfl, rfl⟩

lemma putEntry (k i : Nat) (e : DirEntry) : Same vol (vol.putEntry k i e) :=
  ⟨rfl, rfl, rfl, rfl, rfl, rfl, rfl, rfl, rfl⟩

lemma setFat (N val : Nat) : Same vol (vol.setFat N val) :=
  ⟨rfl, rfl, rfl, rfl, rfl, rfl, rfl, rfl, rfl⟩

lemma setHint (N : Nat) : Same vol (vol.setHint N) :=
  ⟨rfl, rfl, rfl, rfl, rfl, rfl, rfl, rfl, rfl⟩

lemma flushTo (vol : FATVolume) (n : Nat) : Same vol (vol.flushTo n) := by
  induction n with
  | zero => exact refl vol
  | succ n ih => exact ih.trans ⟨rfl, rfl, rfl, rfl, rfl, rfl, rfl, rfl, rfl⟩

lemma flush (vol : FATVolume) : Same vol vol.flush := flushTo vol _

variable (h : Same vol vol')
include h

lemma clusterAddr (c : Nat) : vol'.clusterAddr c = vol.clusterAddr c := by
  simp only [FATVolume.clusterAddr, h.firstSector, h.firstDataSector, h.bytesPerSector,
    h.bytesPerCluster]

lemma tableBytes : vol'.tableBytes = vol.tableBytes := by
  simp only [FATVolume.tableBytes, h.pb, h.bytesPerSector]

lemma tableAddr (n : Nat) : vol'.tableAddr n = vol.tableAddr n := by
  simp only [FATVolume.tableAddr, h.pb, h.firstSector, h.bytesPerSector]

lemma serves {op : DiskOp} (hf : vol.ctx.Serves op) :
    vol'.ctx.Serves op := by
  intro sec numsec
  rw [h.fault]
  exact hf sec numsec

lemma faultless (hf : vol.ctx.Faultless) : vol'.ctx.Faultless :=
  fun op => h.serves (hf op)

lemma node {c : Nat} (hc : vol.view.Node c) : vol'.view.Node c := by
  have hsize : vol'.view.fatSize = vol.view.fatSize := h.fatSize
  rw [Store.Node, hsize]
  exact hc

lemma items : vol'.items = vol.items := by
  simp only [FATVolume.items, h.fatEntriesPerSec, h.pb]

lemma mounted (hm : vol.Mounted) (hlo : 2 ≤ vol'.lastFreeFATEntry)
    (hhi : vol'.lastFreeFATEntry < vol.fatSize) : vol'.Mounted where
  sector_eq := by rw [h.bytesPerSector, h.fatEntriesPerSec, hm.sector_eq]
  entries_pos := by rw [h.fatEntriesPerSec]; exact hm.entries_pos
  secPerClus_pos := by rw [h.pb]; exact hm.secPerClus_pos
  cluster_eq := by rw [h.bytesPerCluster, h.bytesPerSector, h.pb, hm.cluster_eq]
  cluster_lt := by rw [h.bytesPerCluster]; exact hm.cluster_lt
  firstData_eq := by rw [h.firstDataSector, h.pb, hm.firstData_eq]
  table_pos := by rw [h.pb]; exact hm.table_pos
  table_fits := by rw [h.fatSize, h.tableBytes]; exact hm.table_fits
  fatSize_le := by rw [h.fatSize]; exact hm.fatSize_le
  inside := by
    rw [h.firstSector, h.firstDataSector, h.fatSize, h.pb, h.numOfSectors]
    exact hm.inside
  media_lt := by rw [h.numOfSectors]; exact hm.media_lt
  hint_lo := hlo
  hint_hi := by rw [h.fatSize]; exact hhi

end Same

namespace Mounted

section

variable (hm : vol.Mounted)
include hm

lemma putCluster (c : Nat) (buf : Bytes) : (vol.putCluster c buf).Mounted :=
  (Same.putCluster c buf).mounted hm hm.hint_lo hm.hint_hi

lemma putEntry (k i : Nat) (e : DirEntry) : (vol.putEntry k i e).Mounted :=
  (Same.putEntry k i e).mounted hm hm.hint_lo hm.hint_hi

lemma setFat (N val : Nat) : (vol.setFat N val).Mounted :=
  (Same.setFat N val).mounted hm hm.hint_lo hm.hint_hi

lemma setHint {N : Nat} (hN : vol.view.Node N) : (vol.setHint N).Mounted :=
  (Same.setHint N).mounted hm hN.1 hN.2

end

lemma lastFree_flushTo (n : Nat) : (vol.flushTo n).lastFreeFATEntry = vol.lastFreeFATEntry := by
  induction n with
  | zero => rfl
  | succ n ih => exact ih

section

variable (hm : vol.Mounted)
include hm

lemma flush : vol.flush.Mounted := by
  refine (Same.flush vol).mounted hm ?_ ?_
  · rw [FATVolume.flush, lastFree_flushTo]
    exact hm.hint_lo
  · rw [FATVolume.flush, lastFree_flushTo]
    exact hm.hint_hi

/-! ## Addresses -/

lemma sector_pos : 0 < vol.ctx.bytesPerSector := by
  rw [hm.sector_eq]
  exact Nat.mul_pos (by decide) hm.entries_pos

lemma cluster_eq_items : vol.bytesPerCluster = entrySize * vol.items := by
  rw [hm.cluster_eq, hm.sector_eq, items, Nat.mul_assoc]

lemma cluster_pos : 0 < vol.bytesPerCluster := by
  rw [hm.cluster_eq]
  exact Nat.mul_pos hm.sector_pos hm.secPerClus_pos

/-- A cluster number fits its 16-bit fields. -/
lemma node_lt {c : Nat} (hc : vol.view.Node c) : c < 2 ^ 16 := by
  have hlt : c < vol.fatSize := hc.2
  have hsize := hm.fatSize_le
  unfold FAT_BAD at hsize
  omega

/-- A slot lies inside its cluster. -/
lemma slot_le {i : Nat} (hi : i < vol.items) :
    entrySize * i + entrySize ≤ vol.bytesPerCluster := by
  rw [hm.cluster_eq_items]
  exact Nat.mul_le_mul_left entrySize hi

/-- The last sector of a data cluster lies on the media. -/
lemma sectors_le {c : Nat} (hc : vol.view.Node c) :
    vol.firstSector + vol.firstDataSector + (c - 2) * vol.pb.secPerClus.toNat +
      vol.pb.secPerClus.toNat ≤ vol.ctx.numOfSectors := by
  obtain ⟨hlo, hhi⟩ := hc
  have hhi' : c < vol.fatSize := hhi
  have hmul : (c - 2 + 1) * vol.pb.secPerClus.toNat ≤
      (vol.fatSize - 2) * vol.pb.secPerClus.toNat := Nat.mul_le_mul_right _ (by omega)
  have hin := hm.inside
  rw [Nat.add_mul, Nat.one_mul] at hmul
  omega

lemma fSoC_eq {c : Nat} (hc : vol.view.Node c) :
    fatFSoC vol c = (c - 2) * vol.pb.secPerClus.toNat + vol.firstDataSector := by
  have hin := hm.sectors_le hc
  have hlt := hm.media_lt
  obtain ⟨hlo, -⟩ := hc
  have hsub : c + 2 ^ 32 - 2 = (c - 2) + 2 ^ 32 := by omega
  have hsum : (c - 2 + 2 ^ 32) * vol.pb.secPerClus.toNat + vol.firstDataSector =
      (c - 2) * vol.pb.secPerClus.toNat + vol.firstDataSector +
        2 ^ 32 * vol.pb.secPerClus.toNat := by ring
  rw [fatFSoC, hsub, hsum, Nat.add_mul_mod_self_left, Nat.mod_eq_of_lt (by omega)]

/-- The address of the first sector of a cluster. -/
lemma fSoC_addr {c : Nat} (hc : vol.view.Node c) :
    (vol.firstSector + fatFSoC vol c) * vol.ctx.bytesPerSector = vol.clusterAddr c := by
  rw [hm.fSoC_eq hc, clusterAddr, hm.cluster_eq]
  ring

end

/-- Data clusters do not overlap. -/
lemma clusterAddr_disjoint (vol : FATVolume) {c c' : Nat} (hc : 2 ≤ c) (hc' : 2 ≤ c')
    (hne : c ≠ c') :
    vol.clusterAddr c + vol.bytesPerCluster ≤ vol.clusterAddr c' ∨
      vol.clusterAddr c' + vol.bytesPerCluster ≤ vol.clusterAddr c := by
  have hstep : ∀ a b : Nat, 2 ≤ a → a < b →
      vol.clusterAddr a + vol.bytesPerCluster ≤ vol.clusterAddr b := by
    intro a b ha hab
    have hmul : (a - 2 + 1) * vol.bytesPerCluster ≤ (b - 2) * vol.bytesPerCluster :=
      Nat.mul_le_mul_right _ (by omega)
    rw [Nat.add_mul, Nat.one_mul] at hmul
    unfold clusterAddr
    omega
  rcases Nat.lt_or_gt_of_ne hne with h | h
  · exact .inl (hstep c c' hc h)
  · exact .inr (hstep c' c hc' h)

lemma tableAddr_succ (n : Nat) : vol.tableAddr (n + 1) = vol.tableAddr n + vol.tableBytes := by
  unfold tableAddr tableBytes
  ring

lemma tableAddr_le (vol : FATVolume) {n n' : Nat} (h : n < n') :
    vol.tableAddr n + vol.tableBytes ≤ vol.tableAddr n' := by
  rw [← tableAddr_succ]
  have hmul : (n + 1) * vol.pb.fatSz16.toNat ≤ n' * vol.pb.fatSz16.toNat :=
    Nat.mul_le_mul_right _ h
  exact Nat.mul_le_mul_right _ (by omega)

/-- The tables lie in front of the data clusters. -/
lemma tableAddr_le_clusterAddr (hm : vol.Mounted) {n : Nat} (hn : n < vol.pb.numFATs.toNat)
    (c : Nat) : vol.tableAddr n + vol.tableBytes ≤ vol.clusterAddr c := by
  have hlast : vol.tableAddr vol.pb.numFATs.toNat ≤ vol.clusterAddr c := by
    have heq : vol.tableAddr vol.pb.numFATs.toNat =
        (vol.firstSector + vol.firstDataSector) * vol.ctx.bytesPerSector := by
      rw [tableAddr, hm.firstData_eq, Nat.add_assoc]
    rw [heq]
    exact Nat.le_add_right _ _
  exact (tableAddr_le vol hn).trans hlast

end Mounted

/-! ## Changes seen from the store -/

/-- Bytes of the store outside the data clusters read as zero. -/
lemma view_byte_out {c j : Nat} (h : ¬(vol.view.Node c ∧ j < vol.bytesPerCluster)) :
    vol.view.byte c j = 0 := by
  refine if_neg fun hin => h ⟨⟨hin.1, hin.2.1⟩, hin.2.2⟩

lemma view_byte_in {c j : Nat} (hc : vol.view.Node c) (hj : j < vol.bytesPerCluster) :
    vol.view.byte c j = vol.ctx.data (vol.clusterAddr c + j) :=
  if_pos ⟨hc.1, hc.2, hj⟩

/-- The store after a change of the media bytes is given by its bytes in the data
clusters. -/
lemma view_withData {data : Bytes} (byte : Nat → Bytes)
    (hin : ∀ c j, vol.view.Node c → j < vol.bytesPerCluster →
      data (vol.clusterAddr c + j) = byte c j)
    (hout : ∀ c j, ¬(vol.view.Node c ∧ j < vol.bytesPerCluster) → byte c j = 0) :
    (vol.withData data).view = { vol.view with byte := byte } := by
  have hbyte : (vol.withData data).view.byte = byte := by
    funext c j
    by_cases h : vol.view.Node c ∧ j < vol.bytesPerCluster
    · rw [← hin c j h.1 h.2]
      exact @view_byte_in (vol.withData data) c j h.1 h.2
    · rw [hout c j h]
      exact @view_byte_out (vol.withData data) c j h
  rw [← hbyte]
  rfl

theorem view_putCluster {c : Nat} (hc : vol.view.Node c) (buf : Bytes) :
    (vol.putCluster c buf).view = vol.view.putCluster c buf := by
  refine view_withData _ (fun c' j hc' hj => ?_) (fun c' j hout => ?_)
  · by_cases hcc : c' = c
    · subst hcc
      have hj' : j < vol.view.bpc := hj
      rw [update_self, if_pos hj', memcpy_apply_mem (by omega) (by omega)]
      congr 1
      omega
    · rw [update_of_ne hcc, view_byte_in hc' hj]
      have hdis := Mounted.clusterAddr_disjoint vol hc'.1 hc.1 hcc
      exact memcpy_apply_not_mem (by omega)
  · by_cases hcc : c' = c
    · subst hcc
      have hj : ¬j < vol.view.bpc := fun hj => hout ⟨hc, hj⟩
      rw [update_self, if_neg hj]
    · rw [update_of_ne hcc, view_byte_out hout]

lemma view_putEntry (hm : vol.Mounted) {k i : Nat} (hk : vol.view.Node k) (hi : i < vol.items)
    (e : DirEntry) : (vol.putEntry k i e).view = vol.view.putEntry k i e := by
  have hle := hm.slot_le hi
  refine view_withData _ (fun c j hc hj => ?_) (fun c j hout => ?_)
  · by_cases hck : c = k
    · subst hck
      rw [update_self]
      by_cases hin : entrySize * i ≤ j ∧ j < entrySize * i + entrySize
      · rw [memcpy_apply_mem (by omega) (by omega), memcpy_apply_mem hin.1 hin.2]
        congr 1
        omega
      · rw [memcpy_apply_not_mem (by omega), memcpy_apply_not_mem (by omega), view_byte_in hc hj]
    · rw [update_of_ne hck, view_byte_in hc hj]
      have hdis := Mounted.clusterAddr_disjoint vol hc.1 hk.1 hck
      exact memcpy_apply_not_mem (by omega)
  · by_cases hck : c = k
    · subst hck
      have hj : ¬j < vol.bytesPerCluster := fun hj => hout ⟨hk, hj⟩
      rw [update_self, memcpy_apply_not_mem (by omega), view_byte_out hout]
    · rw [update_of_ne hck, view_byte_out hout]

lemma view_setFat {N val : Nat} (hN : N < vol.fatSize) (hval : val < 2 ^ 16) :
    (vol.setFat N val).view = vol.view.setNext N val := by
  have hnext : (vol.setFat N val).view.next = (vol.view.setNext N val).next := by
    funext c
    by_cases hc : c = N
    · subst hc
      rw [Store.next_setNext_self]
      simp only [view, setFat, fatGetClusterFromTable, if_pos hN, update_self]
      exact UInt16.toNat_ofNat_of_lt hval
    · rw [Store.next_setNext_ne _ hc]
      simp only [view, setFat, fatGetClusterFromTable, update_of_ne hc]
  have hrest : (vol.setFat N val).view =
      { vol.view with next := (vol.setFat N val).view.next } := rfl
  rw [hrest, hnext]
  rfl

lemma view_setHint (N : Nat) : (vol.setHint N).view = vol.view := rfl

lemma view_flushTo (hm : vol.Mounted) {n : Nat} (hn : n ≤ vol.pb.numFATs.toNat) :
    (vol.flushTo n).view = vol.view := by
  induction n with
  | zero => rfl
  | succ n ih =>
    have hsame := Same.flushTo vol n
    have hih := ih (by omega)
    rw [flushTo]
    refine (view_withData (vol.flushTo n).view.byte (fun c j hc hj => ?_)
      (fun c j hout => view_byte_out hout)).trans hih
    rw [view_byte_in hc hj, hsame.clusterAddr]
    have hle := hm.tableAddr_le_clusterAddr (n := n) (by omega) c
    exact memcpy_apply_not_mem (by omega)

lemma view_flush (hm : vol.Mounted) : vol.flush.view = vol.view := view_flushTo hm le_rfl

/-! ## Changes seen from the tables -/

/-- A change of the media behind the tables keeps them. -/
lemma Mirrored.withData {data : Bytes} (h : vol.Mirrored)
    (hdata : ∀ n < vol.pb.numFATs.toNat, ∀ j < vol.tableBytes,
      data (vol.tableAddr n + j) = vol.ctx.data (vol.tableAddr n + j)) :
    (vol.withData data).Mirrored :=
  fun n hn j hj => (hdata n hn j hj).trans (h n hn j hj)

lemma Mirrored.putCluster (hm : vol.Mounted) (h : vol.Mirrored) (c : Nat) (buf : Bytes) :
    (vol.putCluster c buf).Mirrored := by
  refine h.withData fun n hn j hj => memcpy_apply_not_mem ?_
  have hle := hm.tableAddr_le_clusterAddr hn c
  omega

lemma Mirrored.putEntry (hm : vol.Mounted) (h : vol.Mirrored) (k i : Nat) (e : DirEntry) :
    (vol.putEntry k i e).Mirrored := by
  refine h.withData fun n hn j hj => memcpy_apply_not_mem ?_
  have hle := hm.tableAddr_le_clusterAddr hn k
  omega

lemma fat_flushTo (n : Nat) : (vol.flushTo n).fat = vol.fat := by
  induction n with
  | zero => rfl
  | succ n ih => exact ih

lemma fatBytes_flushTo (n : Nat) : (vol.flushTo n).fatBytes = vol.fatBytes := by
  unfold fatBytes
  rw [fat_flushTo]

lemma data_flushTo {n copy j : Nat} (hcopy : copy < n) (hj : j < vol.tableBytes) :
    (vol.flushTo n).ctx.data (vol.tableAddr copy + j) = vol.fatBytes j := by
  induction n with
  | zero => omega
  | succ n ih =>
    simp only [flushTo, FATVolume.withData]
    by_cases hlast : copy = n
    · subst hlast
      rw [memcpy_apply_mem (by omega) (by omega)]
      congr 1
      omega
    · have hle := Mounted.tableAddr_le vol (show copy < n by omega)
      rw [memcpy_apply_not_mem (by omega)]
      exact ih (by omega)

/-- A flush brings every copy of the table in step with the memory. -/
theorem mirrored_flush : vol.flush.Mirrored := by
  intro n hn j hj
  have hsame := Same.flush vol
  rw [hsame.pb] at hn
  rw [hsame.tableBytes] at hj
  rw [hsame.tableAddr, flush, data_flushTo hn hj, fatBytes_flushTo]

/-! ## The primitives -/

/-- A read relative to the volume. -/
lemma volRead_eq {sec numsec : Nat} (hr : vol.ctx.Serves .read) (hpos : 0 < numsec)
    (hin : vol.firstSector + sec + numsec ≤ vol.ctx.numOfSectors)
    (hlt : vol.ctx.numOfSectors < 2 ^ 32) :
    volRead vol sec numsec =
      some (shift vol.ctx.data ((vol.firstSector + sec) * vol.ctx.bytesPerSector)) := by
  rw [volRead, Nat.mod_eq_of_lt (by omega), Disk.read_eq hr hpos hin hlt]

/-- A write relative to the volume. -/
lemma volWrite_eq {sec numsec : Nat} {buf : Bytes}
    (hw : vol.ctx.fault .write (vol.firstSector + sec) numsec = false)
    (hpos : 0 < numsec) (hin : vol.firstSector + sec + numsec ≤ vol.ctx.numOfSectors)
    (hlt : vol.ctx.numOfSectors < 2 ^ 32) :
    volWrite vol sec numsec buf =
      some (vol.withData (memcpy vol.ctx.data ((vol.firstSector + sec) * vol.ctx.bytesPerSector)
        buf 0 (numsec * vol.ctx.bytesPerSector))) := by
  rw [volWrite, Nat.mod_eq_of_lt (by omega), Disk.write_eq hw hpos hin hlt]
  rfl

namespace Mounted

/-- Reading a data cluster returns its bytes. -/
lemma readC_eq (hm : vol.Mounted) (hr : vol.ctx.Serves .read) {c : Nat}
    (hc : vol.view.Node c) :
    volReadC vol (fatFSoC vol c) = some (vol.buffer c) := by
  have hin := hm.sectors_le hc
  have hlt := hm.media_lt
  have hpos := hm.secPerClus_pos
  have hsec := hm.fSoC_eq hc
  rw [volReadC, volRead_eq hr hpos (by omega) hlt, hm.fSoC_addr hc, buffer]

lemma buffer_apply {c j : Nat} (hc : vol.view.Node c) (hj : j < vol.bytesPerCluster) :
    vol.buffer c j = vol.view.byte c j := by
  rw [buffer, shift_apply, view_byte_in hc hj]

lemma entryOf_buffer (hm : vol.Mounted) {c i : Nat} (hc : vol.view.Node c)
    (hi : i < vol.items) : entryOf (vol.buffer c) i = vol.view.entry c i := by
  have hle := hm.slot_le hi
  refine DirEntry.decode_congr fun j hj => ?_
  rw [shift_apply, shift_apply _ _ j, buffer_apply hc (by omega)]

/-- Writing a data cluster replaces its bytes. -/
lemma writeC_eq (hm : vol.Mounted) (hw : vol.ctx.Serves .write) {c : Nat}
    (hc : vol.view.Node c) (buf : Bytes) :
    volWriteC vol (fatFSoC vol c) buf = some (vol.putCluster c buf) := by
  have hin := hm.sectors_le hc
  have hlt := hm.media_lt
  have hpos := hm.secPerClus_pos
  have hsec := hm.fSoC_eq hc
  rw [volWriteC, volWrite_eq (hw _ _) hpos (by omega) hlt, hm.fSoC_addr hc,
    Nat.mul_comm vol.pb.secPerClus.toNat, ← hm.cluster_eq, FATVolume.putCluster]

lemma set_eq {N val : Nat} (hN : vol.view.Node N) :
    fatSetClusterIntoTable vol N val = some (vol.setFat N val) := by
  obtain ⟨hlo, hhi⟩ := hN
  have hhi' : N < vol.fatSize := hhi
  rw [fatSetClusterIntoTable, if_neg (by omega), if_pos hhi']
  rfl

/-- Behind the first `n` copies the table is written to the next one. -/
lemma volWrite_table (hm : vol.Mounted) (hw : vol.ctx.Serves .write) {n : Nat}
    (hn : n < vol.pb.numFATs.toNat) :
    volWrite (vol.flushTo n) (vol.pb.resvdSecCnt.toNat + n * vol.pb.fatSz16.toNat)
      (vol.flushTo n).pb.fatSz16.toNat (vol.flushTo n).fatBytes =
      some (vol.flushTo (n + 1)) := by
  have hsame := Same.flushTo vol n
  have hfirst := hm.firstData_eq
  have hin := hm.inside
  have hlt := hm.media_lt
  have hmul : (n + 1) * vol.pb.fatSz16.toNat ≤
      vol.pb.numFATs.toNat * vol.pb.fatSz16.toNat := Nat.mul_le_mul_right _ (by omega)
  rw [Nat.add_mul, Nat.one_mul] at hmul
  rw [hsame.pb, volWrite_eq (hsame.serves hw _ _) hm.table_pos
    (by rw [hsame.firstSector, hsame.numOfSectors]; omega)
    (by rw [hsame.numOfSectors]; exact hlt), hsame.firstSector, hsame.bytesPerSector,
    fatBytes_flushTo, flushTo, tableAddr, tableBytes, Nat.add_assoc]

/-- The flush of the table succeeds. -/
lemma writeFATTable_eq (hm : vol.Mounted) (hw : vol.ctx.Serves .write) :
    fatWriteFATTable vol = (vol.flush, 0) := by
  -- The loop has written the first `n` copies when it comes to sector `n * fatSz16`.
  have hloop : ∀ m n, n + m = vol.pb.numFATs.toNat →
      writeFATLoop m (vol.flushTo n)
        (vol.pb.resvdSecCnt.toNat + n * vol.pb.fatSz16.toNat) = (vol.flush, 0) := by
    intro m
    induction m with
    | zero =>
      intro n hn
      obtain rfl : n = vol.pb.numFATs.toNat := by omega
      rfl
    | succ m ih =>
      intro n hn
      rw [writeFATLoop, hm.volWrite_table hw (by omega)]
      dsimp only
      rw [(Same.flushTo vol (n + 1)).pb, ← ih (n + 1) (by omega)]
      congr 1
      ring
  have h := hloop vol.pb.numFATs.toNat 0 (by omega)
  rwa [Nat.zero_mul, Nat.add_zero] at h

end Mounted

/-! ## Directory entries at their place -/

/-- The sector and the offset a search returns for slot `(k, i)`. -/
def At (vol : FATVolume) (r : SearchResult) (k i : Nat) : Prop :=
  r.sector = fatFSoC vol k + i / vol.fatEntriesPerSec ∧ r.offset = i % vol.fatEntriesPerSec

lemma Same.at (h : Same vol vol') {r : SearchResult} {k i : Nat} (hr : vol.At r k i) :
    vol'.At r k i := by
  have hfsoc : fatFSoC vol' k = fatFSoC vol k := by
    simp only [fatFSoC, h.pb, h.firstDataSector]
  rw [At, hfsoc, h.fatEntriesPerSec]
  exact hr

/-- Sector and offset together address the slot. -/
lemma Mounted.at_addr (hm : vol.Mounted) {r : SearchResult} {k i : Nat}
    (hk : vol.view.Node k) (hr : vol.At r k i) :
    (vol.firstSector + r.sector) * vol.ctx.bytesPerSector + entrySize * r.offset =
      vol.clusterAddr k + entrySize * i := by
  have hdiv := Nat.div_add_mod i vol.fatEntriesPerSec
  rw [hr.1, hr.2, ← Nat.add_assoc, Nat.add_mul, hm.fSoC_addr hk]
  have hsector : i / vol.fatEntriesPerSec * vol.ctx.bytesPerSector +
      entrySize * (i % vol.fatEntriesPerSec) = entrySize * i := by
    calc
      _ = entrySize * (vol.fatEntriesPerSec * (i / vol.fatEntriesPerSec) +
            i % vol.fatEntriesPerSec) := by rw [hm.sector_eq]; ring
      _ = entrySize * i := by rw [hdiv]
  omega

/-- The sector of a slot lies on the media. -/
lemma Mounted.at_sector_lt (hm : vol.Mounted) {r : SearchResult} {k i : Nat}
    (hk : vol.view.Node k) (hi : i < vol.items) (hr : vol.At r k i) :
    vol.firstSector + r.sector < vol.ctx.numOfSectors := by
  have hin := hm.sectors_le hk
  have hdiv : i / vol.fatEntriesPerSec < vol.pb.secPerClus.toNat :=
    Nat.div_lt_of_lt_mul hi
  rw [hr.1, hm.fSoC_eq hk]
  omega

/-- The sector on the media that holds a slot. -/
def slotSector (vol : FATVolume) (k i : Nat) : Nat :=
  vol.firstSector + (fatFSoC vol k + i / vol.fatEntriesPerSec)

/-- Rewriting an entry fails when the device cannot write its sector. -/
lemma Mounted.writeDIREntry_fault (hm : vol.Mounted) (hr : vol.ctx.Serves .read)
    {r : SearchResult} {k i : Nat} (hw : vol.ctx.fault .write (vol.slotSector k i) 1 = true)
    (hk : vol.view.Node k) (hi : i < vol.items) (hat : vol.At r k i) :
    fatWriteDIREntry vol r = (vol, -1) := by
  have hlt := hm.at_sector_lt hk hi hat
  have hsize := hm.media_lt
  have hsec : (vol.firstSector + r.sector) % 2 ^ 32 = vol.slotSector k i := by
    rw [Nat.mod_eq_of_lt (by omega), slotSector, hat.1]
  rw [fatWriteDIREntry, volRead_eq hr (by omega) (by omega) hsize]
  simp only [volWrite, hsec, Disk.write, hw, Bool.not_true, Bool.and_false, Bool.false_eq_true,
    if_false, Option.map_none]

/-- Rewriting an entry at its place replaces the slot. -/
theorem Mounted.writeDIREntry_eq (hm : vol.Mounted) (hr : vol.ctx.Serves .read)
    {r : SearchResult} {k i : Nat} (hw : vol.ctx.fault .write (vol.slotSector k i) 1 = false)
    (hk : vol.view.Node k) (hi : i < vol.items) (hat : vol.At r k i) :
    fatWriteDIREntry vol r = (vol.putEntry k i r.entry, 0) := by
  have hlt := hm.at_sector_lt hk hi hat
  have hsize := hm.media_lt
  have haddr := hm.at_addr hk hat
  have hoff : r.offset < vol.fatEntriesPerSec := by
    rw [hat.2]
    exact Nat.mod_lt _ hm.entries_pos
  have hfit : entrySize * r.offset + entrySize ≤ vol.ctx.bytesPerSector := by
    rw [hm.sector_eq]
    exact Nat.mul_le_mul_left entrySize hoff
  rw [slotSector, ← hat.1] at hw
  rw [fatWriteDIREntry, volRead_eq hr (by omega) (by omega) hsize]
  dsimp only
  rw [volWrite_eq hw (by omega) (by omega) hsize]
  dsimp only
  rw [FATVolume.putEntry, ← haddr]
  congr 2
  -- Writing back a patched sector is patching the media.
  funext a
  simp only [memcpy, shift]
  generalize (vol.firstSector + r.sector) * vol.ctx.bytesPerSector = base
  by_cases hin : base + entrySize * r.offset ≤ a ∧ a < base + entrySize * r.offset + entrySize
  · rw [if_pos (by omega), if_pos (by omega), if_pos hin]
    congr 1
    omega
  · rw [if_neg hin]
    split <;> rename_i hsec
    · rw [if_neg (by omega)]
      congr 1
      omega
    · rfl

end FATVolume

end DiegOS.Fat
