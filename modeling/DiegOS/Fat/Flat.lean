import DiegOS.Fat.Refinement

/-!
# Flat volumes

A volume whose root directory has one cluster and holds no subdirectory.  A
freshly formatted volume is one, and so are the small volumes on which the
results are tried out.

Main results:

- Theorem `Store.sound_flat`: a flat store is sound when the chains of its
  entries are disjoint and long enough.
- Theorem `small_ready`: a volume of six clusters that holds one file.
-/

namespace DiegOS.Fat

open Lib

namespace Store

variable {s : Store}

/-- The root directory has one cluster and holds no subdirectory. -/
structure Flat (s : Store) : Prop where
  root_chain : s.Chain s.root [s.root]
  no_dir : ∀ i < s.slots, Live (s.entry s.root i) → (s.entry s.root i).isDir = false

namespace Flat

lemma chain_eq (hf : s.Flat) (hsize : s.fatSize ≤ FAT_BAD) {l : List Nat}
    (hl : s.Chain s.root l) : l = [s.root] :=
  LinkChain.unique (separated hsize) hl hf.root_chain

/-- The root is the only directory of a flat store. -/
lemma isDir_eq (hf : s.Flat) (hsize : s.fatSize ≤ FAT_BAD) {d : Nat} (hd : s.IsDir d) :
    d = s.root := by
  induction hd with
  | root => rfl
  | @sub d k i hdir hin hlive hattr ih =>
    subst ih
    obtain ⟨⟨l, hl, hk⟩, hi, -⟩ := hin
    rw [hf.chain_eq hsize hl, List.mem_singleton] at hk
    subst hk
    rw [hf.no_dir i hi hlive] at hattr
    contradiction

/-- The entries of a flat store are those of the root cluster. -/
lemma item_iff (hf : s.Flat) (hsize : s.fatSize ≤ FAT_BAD) {k i : Nat} :
    s.Item k i ↔ k = s.root ∧ i < s.slots ∧ Live (s.entry s.root i) := by
  constructor
  · rintro ⟨⟨d, hd, ⟨l, hl, hk⟩, hi, -⟩, hlive⟩
    obtain rfl := hf.isDir_eq hsize hd
    rw [hf.chain_eq hsize hl, List.mem_singleton] at hk
    subst hk
    exact ⟨rfl, hi, hlive⟩
  · rintro ⟨rfl, hi, hlive⟩
    exact ⟨⟨s.root, .root, ⟨_, hf.root_chain, by simp⟩, hi, fun h => h.1 rfl⟩, hlive⟩

end Flat

/-- A flat store is sound when the entries of the root have chains of their own that are
long enough. -/
theorem sound_flat (hf : s.Flat) (hsize : s.fatSize ≤ FAT_BAD) (htwo : 2 ≤ s.slots)
    (hfit : entrySize * s.slots ≤ s.bpc) (chain : Nat → List Nat)
    (hchain : ∀ i < s.slots, Live (s.entry s.root i) →
      s.Clusters (s.entry s.root i) (chain i) ∧ s.root ∉ chain i ∧
      ((s.entry s.root i).isLink = false →
        (s.entry s.root i).size ≤ (chain i).length * s.bpc))
    (hdisjoint : ∀ i < s.slots, ∀ j < s.slots, Live (s.entry s.root i) →
      Live (s.entry s.root j) → i ≠ j → (chain i).Disjoint (chain j)) : s.Sound := by
  have hunique : ∀ {i : Nat} {l : List Nat}, i < s.slots → Live (s.entry s.root i) →
      s.Clusters (s.entry s.root i) l → l = chain i := by
    intro i l hi hlive hl
    have hzero : ∀ {m : List Nat}, ¬s.Chain 0 m := fun hm => absurd hm.node_head.1 (by omega)
    rcases hl with ⟨hz, rfl⟩ | hl <;> rcases (hchain i hi hlive).1 with ⟨hz', hnil⟩ | hl'
    · exact hnil.symm
    · exact absurd (hz ▸ hl') hzero
    · exact absurd (hz' ▸ hl) hzero
    · exact LinkChain.unique (separated hsize) hl hl'
  refine ⟨hsize, htwo, hfit, ⟨_, hf.root_chain⟩, fun k i hitem => ?_, ?_, fun d hd hne => ?_⟩
  · obtain ⟨rfl, hi, hlive⟩ := (hf.item_iff hsize).mp hitem
    obtain ⟨hl, -, hlen⟩ := hchain i hi hlive
    refine ⟨chain i, hl, fun hattr => ?_, hlen⟩
    rw [hf.no_dir i hi hlive] at hattr
    contradiction
  · -- Owners are the root and the entries of its cluster.
    have hroot : ∀ {k i : Nat} {l l' : List Nat}, s.Owns none l → s.Owns (some (k, i)) l' →
        l.Disjoint l' := by
      intro k i l l' ho ho'
      obtain ⟨hitem, hl'⟩ := ho'
      obtain ⟨rfl, hi, hlive⟩ := (hf.item_iff hsize).mp hitem
      obtain rfl := hf.chain_eq hsize ho
      obtain rfl := hunique hi hlive hl'
      simpa using (hchain i hi hlive).2.1
    rintro (_ | ⟨k, i⟩) (_ | ⟨k', i'⟩) l l' ho ho' hne
    · exact absurd rfl hne
    · exact hroot ho ho'
    · exact (hroot ho' ho).symm
    · obtain ⟨hitem, hl⟩ := ho
      obtain ⟨hitem', hl'⟩ := ho'
      obtain ⟨rfl, hi, hlive⟩ := (hf.item_iff hsize).mp hitem
      obtain ⟨rfl, hi', hlive'⟩ := (hf.item_iff hsize).mp hitem'
      obtain rfl := hunique hi hlive hl
      obtain rfl := hunique hi' hlive' hl'
      exact hdisjoint i hi i' hi' hlive hlive' fun heq => hne (by rw [heq])
  · exact absurd (hf.isDir_eq hsize hd) hne

end Store

/-! ## A small volume -/

/-- The file of the small volume: two clusters, 200 bytes. -/
def smallFile : DirEntry where
  dirName := Vector.ofFn fun i : Fin 39 => if i.val = 0 then 0x41 else 0x20
  dirAttr := 0
  dirFstClus := 3
  dirAccDate := zeroDate
  dirCrtDate := zeroDate
  dirWrtDate := zeroDate
  dirAccTime := zeroTime
  dirCrtTime := zeroTime
  dirWrtTime := zeroTime
  dirFileSize := 200

/-- Sectors of 128 bytes, clusters of one sector, two tables of one sector, six data
clusters: the root directory in cluster 2, and clusters 3 and 4 linked. -/
def smallBase : FATVolume where
  pb := { oemName := Vector.ofFn fun _ => 0x20, bytsPerSec := 128, secPerClus := 1, numFATs := 2
          resvdSecCnt := 1, fatSz16 := 1, hiddSec := 0, totSec := 9, volID := 0, flags := 0
          volLab := Vector.ofFn fun _ => 0x20, filSysType := Vector.ofFn fun _ => 0x20
          rootClus := 2 }
  fat := fun N => if N = 2 ∨ N = 4 then 0xFFFF else if N = 3 then 4 else 0
  firstSector := 0
  firstDataSector := 3
  countOfClusters := 6
  dataSectors := 6
  bytesPerCluster := 128
  fatSize := 8
  fatEntriesPerSec := 2
  flags := FLAG_MOUNTED
  ctx := { bytesPerSector := 128, numOfSectors := 9, data := fun _ => 0
           fault := fun _ _ _ => false }
  lastFreeFATEntry := 2

/-- The small volume: one file in the root directory, tables written. -/
def small : FATVolume := (smallBase.putEntry 2 0 smallFile).flush

lemma smallBase_mounted : smallBase.Mounted := by
  constructor <;> decide

lemma small_mounted : small.Mounted := (smallBase_mounted.putEntry 2 0 smallFile).flush

lemma small_view : small.view = smallBase.view.putEntry 2 0 smallFile := by
  rw [small, FATVolume.view_flush (smallBase_mounted.putEntry 2 0 smallFile),
    FATVolume.view_putEntry smallBase_mounted ⟨by decide, by decide⟩ (by decide)]

lemma small_entry_zero : small.view.entry 2 0 = smallFile := by
  rw [small_view, Store.entry_putEntry_self]

lemma small_not_live_one : ¬Live (small.view.entry 2 1) := by
  rw [small_view, Store.entry_putEntry_ne _ (by decide)]
  rintro ⟨-, hmark⟩
  refine hmark ?_
  rw [DirEntry.mark, Store.entry, entryOf, DirEntry.decode_dirName _ (by omega)]
  decide

lemma small_flat : small.view.Flat := by
  constructor
  · rw [small_view]
    exact .last (by constructor <;> decide) (by unfold Store.Stop; decide)
  · intro i hi hlive
    have hi2 : i < 2 := by rwa [small_view] at hi
    interval_cases i
    · rw [show small.view.root = 2 from rfl, small_entry_zero]
      decide
    · exact absurd hlive small_not_live_one

lemma small_chain : small.view.Chain 3 [3, 4] := by
  rw [small_view]
  exact .cons (by constructor <;> decide)
    (.last (by constructor <;> decide) (by unfold Store.Stop; decide))

lemma small_clusters : small.view.Clusters (small.view.entry 2 0) [3, 4] := by
  rw [small_entry_zero]
  exact .inr small_chain

/-- The small volume is sound, and its media has no faults. -/
theorem small_ready : Ready small := by
  refine ⟨small_mounted, (FATVolume.Same.flush _).faultless fun _ _ _ => rfl, ?_⟩
  have hslots : small.view.slots = 2 := by
    rw [small_view]
    rfl
  refine Store.sound_flat small_flat small_mounted.fatSize_le (by rw [hslots])
    small_mounted.cluster_eq_items.ge (fun _ => [3, 4]) (fun i hi hlive => ?_)
    (fun i hi j hj hlive hlive' hne => ?_)
  · rw [hslots] at hi
    interval_cases i
    · refine ⟨small_clusters, by decide, fun _ => ?_⟩
      rw [show small.view.root = 2 from rfl, small_entry_zero, small_view]
      decide
    · exact absurd hlive small_not_live_one
  · rw [hslots] at hi hj
    interval_cases i
    · interval_cases j
      · exact absurd rfl hne
      · exact absurd hlive' small_not_live_one
    · exact absurd hlive small_not_live_one

lemma small_root_chain : small.view.Chain 2 [2] := small_flat.root_chain

/-- The path of the file. -/
def smallPath : List UInt8 := [separator, 0x41]

/-- The path leads to the file. -/
lemma small_leads (junk : SearchResult) : Leads small smallPath junk 2 0 := by
  have hbuf : entryOf (small.buffer 2) 0 = smallFile := by
    rw [small_mounted.entryOf_buffer (by constructor <;> decide) (by decide), small_entry_zero]
  have hloop : fatSearchLoop smallFile.dirName (small.buffer 2) small.items 0 = 0 := by
    rw [show small.items = 2 from rfl, fatSearchLoop, hbuf, if_neg (by decide),
      if_neg (by decide), if_pos (by decide)]
  have hscan : scanDirectory small (fatSearchLoop smallFile.dirName) junk 2 =
      some { junk with entry := smallFile, sector := 3, offset := 0 } := by
    rw [scanDirectory, chainOf_eq small_mounted.fatSize_le small_root_chain,
      List.findSome?_cons, fatDirForeach_eq small_mounted small_ready.reads
        (by constructor <;> decide), hloop, if_pos (by decide), small_entry_zero]
    rfl
  refine ⟨{ entry := smallFile, sector := 3, offset := 0, container := 3 }, ?_, ?_⟩
  · have hparse : fatParseDirectory smallPath = some [smallFile.dirName] := by decide
    rw [fatSearchDIREntry, if_neg (by decide), hparse]
    simp only [searchSplits]
    rw [show small.pb.rootClus.toNat = 2 from rfl, hscan]
    rfl
  · refine ⟨(small_flat.item_iff small_mounted.fatSize_le).mpr ⟨rfl, by decide, ?_⟩, ?_, ?_, ?_⟩
    · rw [show small.view.root = 2 from rfl, small_entry_zero]
      decide
    · rw [small_entry_zero]
    · constructor <;> decide
    · rw [small_entry_zero]
      decide

end DiegOS.Fat
