import DiegOS.Fat.Search
import DiegOS.Fat.Changes

/-!
# The entry operations refine the abstract ones

On a sound mounted volume without device faults, every entry operation of
`fat.c` either leaves the store as it was or performs one abstract
operation, keeps the tables in step, and keeps the volume mounted.  Paths must
not have dot or empty components, and the parent of a new entry must be a
directory when it exists.

Main results:

- Theorems `fatCreateEntry_refines`, `fatCreateLink_refines`,
  `fatRenameEntry_refines`, `fatTruncateEntry_refines` and
  `fatDeleteEntry_refines`.
-/

namespace DiegOS.Fat

open Lib

/-! ## What a call does to the volume -/

/-- The volume after a call: the fixed fields and the tables are kept, and the store is
the old one or the result of an action that satisfies `P`. -/
structure Refines (vol vol' : FATVolume) (P : Store.Action → Prop) : Prop where
  same : vol.Same vol'
  mounted : vol'.Mounted
  mirrored : vol.Mirrored → vol'.Mirrored
  store : vol'.view = vol.view ∨ ∃ a, P a ∧ Store.Change vol.view a vol'.view

/-- The volume lies on a media without faults, and its store is sound. -/
structure Ready (vol : FATVolume) : Prop where
  mounted : vol.Mounted
  faultless : vol.ctx.Faultless
  sound : vol.view.Sound

namespace Ready

variable {vol : FATVolume} (h : Ready vol)
include h

lemma reads : vol.ctx.Serves .read := h.faultless .read

lemma writes : vol.ctx.Serves .write := h.faultless .write

end Ready

namespace Refines

variable {vol vol' : FATVolume} {P : Store.Action → Prop}

lemma refl (hm : vol.Mounted) : Refines vol vol P :=
  ⟨.refl vol, hm, id, .inl rfl⟩

lemma setHint (hm : vol.Mounted) {N : Nat} (hN : vol.view.Node N) :
    Refines vol (vol.setHint N) P :=
  ⟨.setHint N, hm.setHint hN, id, .inl rfl⟩

lemma mono {Q : Store.Action → Prop} (h : Refines vol vol' P) (hPQ : ∀ a, P a → Q a) :
    Refines vol vol' Q :=
  ⟨h.same, h.mounted, h.mirrored, h.store.imp id fun ⟨a, ha, hc⟩ => ⟨a, hPQ a ha, hc⟩⟩

/-- A call leaves a ready volume ready. -/
lemma ready (h : Refines vol vol' P) (hv : Ready vol) : Ready vol' := by
  refine ⟨h.mounted, h.same.faultless hv.faultless, ?_⟩
  rcases h.store with heq | ⟨a, -, hc⟩
  · rw [heq]
    exact hv.sound
  · exact hc.sound hv.sound

end Refines

/-! ## Helpers of the operations -/

namespace FATVolume

variable {vol : FATVolume}

/-- Mark clusters as cleared in the table in memory. -/
def clearFat (vol : FATVolume) (m : List Nat) : FATVolume :=
  { vol with fat := fun N => if N ∈ m then UInt16.ofNat FAT_CLEARED else vol.fat N }

lemma clearFat_nil : vol.clearFat [] = vol := by
  simp [clearFat]

lemma clearFat_cons (c : Nat) (m : List Nat) (hc : c ∉ m) :
    (vol.setFat c FAT_CLEARED).clearFat m = vol.clearFat (c :: m) := by
  have hfat : ∀ N, ((vol.setFat c FAT_CLEARED).clearFat m).fat N =
      (vol.clearFat (c :: m)).fat N := by
    intro N
    by_cases hN : N = c
    · subst hN
      simp [clearFat, setFat, hc]
    · simp [clearFat, setFat, hN]
  simp only [clearFat, setFat, FATVolume.mk.injEq, and_true, true_and]
  exact funext hfat

lemma Same.clearFat (m : List Nat) : Same vol (vol.clearFat m) :=
  ⟨rfl, rfl, rfl, rfl, rfl, rfl, rfl, rfl, rfl⟩

lemma Mounted.clearFat (hm : vol.Mounted) (m : List Nat) : (vol.clearFat m).Mounted :=
  (Same.clearFat m).mounted hm hm.hint_lo hm.hint_hi

lemma view_clearFat {m : List Nat} (h : ∀ c ∈ m, vol.view.Node c) :
    (vol.clearFat m).view = vol.view.clear m := by
  have hnext : (vol.clearFat m).view.next = (vol.view.clear m).next := by
    funext c
    by_cases hc : c ∈ m
    · have hlt : c < vol.fatSize := (h c hc).2
      simp [view, clearFat, Store.clear, fatGetClusterFromTable, hc, hlt, FAT_CLEARED]
    · simp [view, clearFat, Store.clear, fatGetClusterFromTable, hc]
  have hrest : (vol.clearFat m).view =
      { vol.view with next := (vol.clearFat m).view.next } := rfl
  rw [hrest, hnext]
  rfl

/-- The free-cluster search on a mounted volume. -/
lemma Mounted.free_cases (hm : vol.Mounted) :
    (∃ f, vol.view.Node f ∧ vol.view.next f = 0 ∧
      fatGetFreeClusterFromTable vol = (f, vol.setHint f)) ∨
    ((∀ c, vol.view.Node c → vol.view.next c ≠ 0) ∧
      fatGetFreeClusterFromTable vol = (0, vol)) := by
  rcases fatGetFreeClusterFromTable_spec hm.hint_lo hm.hint_hi with
    ⟨f, hlo, hhi, hfree, heq⟩ | ⟨hnone, heq⟩
  · refine .inl ⟨f, ⟨hlo, hhi⟩, ?_, heq⟩
    simp [view, fatGetClusterFromTable, hhi, hfree]
  · refine .inr ⟨fun c hc hzero => ?_, heq⟩
    have hlt : c < vol.fatSize := hc.2
    refine hnone c hc.1 hlt ?_
    simp only [view, fatGetClusterFromTable, if_pos hlt] at hzero
    exact UInt16.toNat_inj.mp (by simpa using hzero)

/-- Clearing a chain marks each of its clusters. -/
lemma Mounted.clearLoop_eq (hm : vol.Mounted) {c : Nat} {l : List Nat}
    (h : vol.view.Chain c l) {fuel : Nat} (hfuel : l.length < fuel) :
    clearLoop fuel vol c = (vol.clearFat l, 0) := by
  induction l generalizing vol c fuel with
  | nil => exact absurd rfl h.ne_nil
  | cons c' l ih =>
    obtain ⟨fuel, rfl⟩ : ∃ m, fuel = m + 1 := ⟨fuel - 1, by simp at hfuel; omega⟩
    have hnodup := LinkChain.nodup (Store.separated (s := vol.view) hm.fatSize_le) h
    have hnot := (List.nodup_cons.mp hnodup).1
    have hnode := h.node_head
    obtain rfl : c = c' := by simpa using h.getElem_zero.symm
    rw [clearLoop, not_isEOC hm.fatSize_le hnode]
    simp only [Bool.false_eq_true, if_false, Mounted.set_eq hnode]
    rw [← clearFat_cons c l hnot]
    cases h with
    | last _ hstop =>
      obtain ⟨fuel, rfl⟩ : ∃ m, fuel = m + 1 := ⟨fuel - 1, by simp at hfuel; omega⟩
      have heoc : fatClusterIsEOC (fatGetClusterFromTable vol c) = true := isEOC_of_stop hstop
      rw [clearLoop, if_pos heoc, clearFat_nil]
    | cons _ hrest =>
      refine ih (hm.setFat c FAT_CLEARED) ?_ (by simpa using hfuel)
      rw [view_setFat hnode.2 (by decide)]
      refine LinkChain.congr hrest fun x hx => Store.next_setNext_ne _ ?_
      rintro rfl
      exact hnot hx

/-- `FAT_clear_cluster_chain` marks the clusters of an entry, or leaves them as they
are when the recorded size is zero. -/
lemma Mounted.clearClusterChain_eq (hm : vol.Mounted) {e : DirEntry} {l : List Nat}
    (hl : vol.view.Clusters e l) :
    ∃ m, m ⊆ l ∧ fatClearClusterChain vol e = (vol.clearFat m, 0) := by
  unfold fatClearClusterChain
  split <;> rename_i hskip
  · exact ⟨[], by simp, by rw [clearFat_nil]⟩
  · refine ⟨l, fun _ h => h, ?_⟩
    rcases hl with ⟨hz, -⟩ | hl
    · rw [not_or, fatClusterIsFREE_iff] at hskip
      exact absurd hz hskip.1
    · have hlt := chain_length_lt_fuel hm.fatSize_le hl
      exact hm.clearLoop_eq hl (by omega)

end FATVolume

/-! ## Finding the place of a new entry -/

/-- First cluster of the directory a creating path leads to, as the code computes it. -/
def parentCluster (vol : FATVolume) (path : List UInt8) (junk : SearchResult) : Option Nat :=
  let pos := fatParseDirectoryLast path path.length
  if pos = 0 then some vol.pb.rootClus.toNat
  else (fatSearchDIREntry vol (path.take pos) junk).map (·.entry.clus)

/-- The parent of the path, if it exists, is a directory. -/
def ParentIsDir (vol : FATVolume) (path : List UInt8) (junk : SearchResult) : Prop :=
  ∀ r, fatSearchDIREntry vol (path.take (fatParseDirectoryLast path path.length)) junk = some r →
    r.entry.isDir = true

lemma absolute_of_check {path : List UInt8} (hlen : ¬path.length < 2)
    (hsep : ¬path.getD 0 0 ≠ separator) : path[0]? = some separator := by
  cases path with
  | nil => simp at hlen
  | cons c cs => simpa using hsep

section Create

variable {vol : FATVolume} (hv : Ready vol)
include hv

lemma parentCluster_isDir {path : List UInt8} {junk : SearchResult} {d : Nat}
    (hplain : PlainPath path) (habs : path[0]? = some separator)
    (hparent : ParentIsDir vol path junk) (h : parentCluster vol path junk = some d) :
    vol.view.IsDir d := by
  unfold parentCluster at h
  dsimp only at h
  split at h <;> rename_i hpos
  · cases h
    exact .root
  · obtain ⟨r, hsearch, rfl⟩ := Option.map_eq_some_iff.mp h
    obtain ⟨k, i, hfound⟩ := fatSearchDIREntry_found hv.sound hv.mounted hv.reads
      ((hplain.parent habs).1 hpos) hsearch
    obtain ⟨⟨dk, hdk, hin⟩, hlive⟩ := hfound.item
    have hattr := hparent r hsearch
    rw [hfound.entry_eq] at hattr ⊢
    exact .sub hdk hin hlive hattr

/-- What the common first half of the creating operations finds below a directory. -/
lemma locateEntry_below {path : List UInt8} {junk : Junk} {loc : Located}
    (hparent : ∀ d, parentCluster vol path junk.search = some d → vol.view.IsDir d)
    (h : locateEntry vol path junk = some loc) :
    parentCluster vol path junk.search = some loc.dir ∧ vol.view.IsDir loc.dir ∧
      fatBuildDIRName (path.drop (fatParseDirectoryLast path path.length + 1)) = some loc.name ∧
      vol.view.Admits loc.dir loc.name ∧
      loc.slot = scanDirectory vol fatSearchFreeLoop junk.create loc.dir := by
  unfold locateEntry at h
  dsimp only at h
  split at h
  · contradiction
  · rw [← parentCluster] at h
    split at h
    · rename_i d name hdir hname
      split at h <;> rename_i hscan
      · contradiction
      · cases h
        have hlegal := fatBuildDIRName_legal hname
        refine ⟨hdir, hparent d hdir, hname, ?_, rfl⟩
        intro l k i hl hk hi hlive hused
        exact scanName_none hv.mounted hv.reads hlegal hl (by simpa using hscan) hk hi hlive hused
    · contradiction

/-- The branch for a full directory fails: the value it tries to link from is no cluster. -/
lemma growDirectory_fails {cluster : Nat} (hstop : Store.Stop cluster) (dir : Nat)
    (junk : Junk) (P : Store.Action → Prop) :
    (growDirectory vol dir cluster junk).2 = none ∧
      Refines vol (growDirectory vol dir cluster junk).1 P := by
  have hset : ∀ N f, fatSetClusterIntoTable (vol.setHint N) cluster f = none := by
    intro N f
    have hsize := hv.mounted.fatSize_le
    unfold Store.Stop FAT_EOC at hstop
    unfold FAT_BAD at hsize
    unfold fatSetClusterIntoTable
    rw [if_neg (by omega), if_neg (by simp [FATVolume.setHint]; omega)]
  rcases hv.mounted.free_cases with ⟨f, hf, -, heq⟩ | ⟨-, heq⟩
  · have hf0 : f ≠ 0 := by
      have := hf.1
      omega
    simp only [growDirectory, heq, hf0, if_false, hset]
    exact ⟨trivial, .setHint hv.mounted hf⟩
  · simp only [growDirectory, heq, if_true]
    exact ⟨trivial, .refl hv.mounted⟩

/-- The place of a new entry: the first free slot of some cluster of the directory, or a
failure without a trace where all slots are in use. -/
lemma placeEntry_cases {junk : Junk} {loc : Located} (hd : vol.view.IsDir loc.dir)
    (hslot : loc.slot = scanDirectory vol fatSearchFreeLoop junk.create loc.dir)
    {P : Store.Action → Prop} :
    (∃ place k i, placeEntry vol loc junk = (vol, some place) ∧ vol.At place k i ∧
      place.container = junk.create.container ∧ vol.view.InDir loc.dir k i ∧
      vol.view.FirstFree k i) ∨
    (∃ vol', placeEntry vol loc junk = (vol', none) ∧ Refines vol vol' P ∧
      ¬vol.view.HasRoom loc.dir) := by
  obtain ⟨l, hchain⟩ := hv.sound.exists_chain hd
  unfold placeEntry
  cases hscan : loc.slot with
  | some place =>
    left
    obtain ⟨k, i, hk, hi, hfree, hbefore, hat, hcont⟩ :=
      scanFree_some hv.mounted hv.reads hchain (hslot.symm.trans hscan)
    refine ⟨place, k, i, rfl, hat, hcont, ⟨⟨l, hchain, hk⟩, hi, ?_⟩, hfree, hbefore⟩
    -- The dot entries are live, so the free slot is none of them.
    rintro ⟨hroot, rfl, hi2⟩
    obtain ⟨h0, h1⟩ := hv.sound.dots loc.dir hd hroot
    interval_cases i
    · exact hfree (LegalName.live (by rw [h0]; exact legalName_dotName))
    · exact hfree (LegalName.live (by rw [h1]; exact legalName_dotdotName))
  | none =>
    right
    have hgrow := growDirectory_fails hv (chainStop_stop hv.mounted.fatSize_le hchain)
      loc.dir junk P
    refine ⟨_, Prod.ext rfl hgrow.1, hgrow.2, fun hroom => ?_⟩
    obtain ⟨l', k, i, hl', hk, hi, hfree⟩ := hroom
    obtain rfl := hv.sound.chain_unique hl' hchain
    exact hfree (scanFree_none hv.mounted hv.reads hchain (hslot.symm.trans hscan) hk hi)

/-- A call has stored an entry at a slot together with a free cluster. -/
structure Stored (vol vol' : FATVolume) (entry : DirEntry) (buffer : DirEntry → Bytes)
    (k i f : Nat) (e : DirEntry) : Prop where
  node : vol.view.Node f
  free : vol.view.next f = 0
  name : e.dirName = entry.dirName
  attr : e.dirAttr = entry.dirAttr
  size : e.dirFileSize = entry.dirFileSize
  clus : e.clus = f
  same : vol.Same vol'
  mounted : vol'.Mounted
  mirrored : vol'.Mirrored
  view : vol'.view = (vol.view.alloc f (buffer e)).putEntry k i e

/-- Storing an entry that owns a cluster from the start; it fails where no cluster is free. -/
lemma storeWithCluster_cases {place : SearchResult} (entry : DirEntry)
    (buffer : DirEntry → Bytes) {k i : Nat} (hk : vol.view.Node k) (hi : i < vol.items)
    (hat : vol.At place k i) :
    (storeWithCluster vol place entry buffer = (vol, -1) ∧
      ∀ c, vol.view.Node c → vol.view.next c ≠ 0) ∨
    ∃ f vol' e, storeWithCluster vol place entry buffer = (vol', 0) ∧
      Stored vol vol' entry buffer k i f e := by
  rcases hv.mounted.free_cases with ⟨f, hf, hfree, heq⟩ | ⟨hnone, heq⟩
  · right
    have hf0 : f ≠ 0 := by
      have := hf.1
      omega
    have hm₁ := hv.mounted.setHint hf
    have hs₁ : vol.Same (vol.setHint f) := .setHint f
    -- The steps of the source: fill the cluster, close its chain, flush, store the entry.
    obtain ⟨e, he⟩ : ∃ e, e = { entry with dirFstClus := UInt16.ofNat f } := ⟨_, rfl⟩
    have hm₂ := hm₁.putCluster f (buffer e)
    have hs₂ := hs₁.trans (.putCluster f (buffer e))
    have hm₃ := hm₂.setFat f FAT_EOC_WRITTEN
    have hs₃ := hs₂.trans (.setFat f FAT_EOC_WRITTEN)
    have hs₄ := hs₃.trans (.flush _)
    have hview : (((vol.setHint f).putCluster f (buffer e)).setFat f FAT_EOC_WRITTEN).flush.view =
        vol.view.alloc f (buffer e) := by
      rw [FATVolume.view_flush hm₃, FATVolume.view_setFat (hs₂.node hf).2 (by decide),
        FATVolume.view_putCluster (hs₁.node hf), FATVolume.view_setHint, Store.alloc]
    have hcall : storeWithCluster vol place entry buffer =
        ((((vol.setHint f).putCluster f (buffer e)).setFat f FAT_EOC_WRITTEN).flush.putEntry k i e,
          0) := by
      simp only [storeWithCluster, heq, hf0, if_false, ← he]
      rw [hm₁.writeC_eq (hs₁.serves hv.writes) (hs₁.node hf)]
      dsimp only
      rw [fatSetEOCIntoTable, FATVolume.Mounted.set_eq (hs₂.node hf), Option.getD_some,
        hm₃.writeFATTable_eq (hs₃.serves hv.writes)]
      exact hm₃.flush.writeDIREntry_eq (hs₄.serves hv.reads) (hs₄.serves hv.writes _ _)
        (hs₄.node hk) (by rwa [hs₄.items]) (hs₄.at hat)
    have hclus : e.clus = f := by
      subst he
      exact UInt16.toNat_ofNat_of_lt (hv.mounted.node_lt hf)
    refine ⟨f, _, e, hcall, hf, hfree, by rw [he], by rw [he], by rw [he], hclus,
      hs₄.trans (.putEntry k i e), hm₃.flush.putEntry k i e,
      .putEntry hm₃.flush FATVolume.mirrored_flush k i e, ?_⟩
    rw [FATVolume.view_putEntry hm₃.flush (hs₄.node hk) (by rwa [hs₄.items]), hview]
  · left
    exact ⟨by simp [storeWithCluster, heq], hnone⟩

/-- A call has created an empty file or an empty directory at a free slot. -/
structure Created (vol vol' : FATVolume) (d p : Nat) (n : DirName) (attributes : UInt8)
    (k i : Nat) : Prop where
  slot : vol.view.InDir d k i
  first : vol.view.FirstFree k i
  name : (vol'.view.entry k i).dirName = n
  attr : (vol'.view.entry k i).dirAttr = attributes
  size : (vol'.view.entry k i).size = 0
  same : vol.Same vol'
  mounted : vol'.Mounted
  mirrored : vol.Mirrored → vol'.Mirrored
  update : ∃ l, Store.Update vol.view vol'.view k i [] l
  change : Store.Change vol.view
    (if attributes &&& ATTR_DIRECTORY ≠ 0 then .mkdir d p else .create d) vol'.view

/-- With its directory found `FAT_create_entry` creates the entry, or it fails because the
directory is full or a new directory gets no cluster. -/
lemma fatCreateEntry_cases {path : List UInt8} {attributes : UInt8} {now : Tm} {junk : Junk}
    {loc : Located} (hargs : ¬(path.length < 2 ∨ path.getD 0 0 ≠ separator))
    (hattr : ¬(fatCheckAttrib attributes ≠ 0 ∨ attributes &&& ATTR_LINK ≠ 0))
    (hloc : locateEntry vol path junk = some loc) (hd : vol.view.IsDir loc.dir)
    (hlegal : LegalName loc.name) (hadmits : vol.view.Admits loc.dir loc.name)
    (hslot : loc.slot = scanDirectory vol fatSearchFreeLoop junk.create loc.dir)
    (P : Store.Action → Prop) :
    (∃ vol' k i, fatCreateEntry vol path attributes now junk = (vol', 0) ∧
      Created vol vol' loc.dir junk.create.container loc.name attributes k i) ∨
    (∃ vol', fatCreateEntry vol path attributes now junk = (vol', -1) ∧ Refines vol vol' P ∧
      (vol.view.HasRoom loc.dir → attributes &&& ATTR_DIRECTORY ≠ 0 ∧
        ∀ c, vol.view.Node c → vol.view.next c ≠ 0)) := by
  rw [fatCreateEntry, if_neg hargs, if_neg hattr, hloc]
  dsimp only
  rcases placeEntry_cases hv hd hslot with
    ⟨place, k, i, hplace, hat, hcont, hin, hfirst⟩ | ⟨vol', hplace, href, hfull⟩
  · have hk := hin.node
    have hi : i < vol.items := hin.2.1
    rw [hplace]
    dsimp only
    split <;> rename_i hdir
    · -- A directory: it owns a cluster that holds the dot entries.
      rcases storeWithCluster_cases hv (newEntry loc.name attributes 0 now)
        (fun e => directoryBuffer e place.container) hk hi hat with
        ⟨heq, hnone⟩ | ⟨f, vol', e, heq, hst⟩
      · right
        rw [heq]
        exact ⟨vol, rfl, .refl hv.mounted, fun _ => ⟨hdir, hnone⟩⟩
      · left
        have hname : e.dirName = loc.name := by rw [hst.name, newEntry_dirName]
        have hattr : e.dirAttr = attributes := by rw [hst.attr, newEntry_dirAttr]
        have hsize : e.size = 0 := by simp [DirEntry.size, hst.size]
        have hisDir : e.isDir = true := by simp [DirEntry.isDir, DirEntry.hasAttr, hattr, hdir]
        have hself : vol'.view.entry k i = e := by rw [hst.view, Store.entry_putEntry_self]
        rw [heq]
        refine ⟨vol', k, i, rfl, hin, hfirst, by rw [hself, hname], by rw [hself, hattr],
          by rw [hself, hsize], hst.same, hst.mounted, fun _ => hst.mirrored, ⟨[f], ?_⟩, ?_⟩
        · rw [hst.view]
          exact Store.update_mkdir hv.sound hd hin hfirst (hname ▸ hlegal) hst.node hst.free
            hst.clus hsize
        · rw [if_pos hdir, hst.view, hcont]
          exact .mkdir hd hin hfirst (hname ▸ hlegal) (hname ▸ hadmits) hst.node hst.free
            hst.clus hisDir hsize
    · left
      obtain ⟨e, he⟩ : ∃ e, e = newEntry loc.name attributes 0 now := ⟨_, rfl⟩
      have hname : e.dirName = loc.name := by rw [he, newEntry_dirName]
      have hattr : e.dirAttr = attributes := by rw [he, newEntry_dirAttr]
      have hclus : e.clus = 0 := by simp [DirEntry.clus, he]
      have hsize : e.size = 0 := by simp [DirEntry.size, he]
      have hfile : e.isDir = false := by
        simpa [DirEntry.isDir, DirEntry.hasAttr, hattr] using hdir
      rw [← he, hv.mounted.writeDIREntry_eq hv.reads (hv.writes _ _) hk hi
        (show vol.At { place with entry := e } k i from hat)]
      have hview := FATVolume.view_putEntry hv.mounted hk hi e
      have hself : (vol.putEntry k i e).view.entry k i = e := by
        rw [hview, Store.entry_putEntry_self]
      refine ⟨_, k, i, rfl, hin, hfirst, by rw [hself, hname], by rw [hself, hattr],
        by rw [hself, hsize], .putEntry _ _ _, hv.mounted.putEntry _ _ _,
        fun hmir => .putEntry hv.mounted hmir _ _ _, ⟨[], ?_⟩, ?_⟩
      · rw [hview]
        exact Store.update_create hd hin hfirst hclus hsize hfile
      · rw [if_neg hdir, hview]
        exact .create hd hin hfirst (hname ▸ hlegal) (hname ▸ hadmits) hclus hsize hfile
  · right
    rw [hplace]
    exact ⟨vol', rfl, href, fun hroom => absurd hroom hfull⟩

/-- Below a directory `FAT_create_entry` creates an empty file or an empty directory, or
nothing. -/
lemma fatCreateEntry_below {path : List UInt8} {attributes : UInt8} {now : Tm} {junk : Junk}
    (hparent : ∀ d, parentCluster vol path junk.search = some d → vol.view.IsDir d) :
    Refines vol (fatCreateEntry vol path attributes now junk).1 fun a =>
      ∃ d, parentCluster vol path junk.search = some d ∧
        (a = .create d ∨
          attributes &&& ATTR_DIRECTORY ≠ 0 ∧ a = .mkdir d junk.create.container) := by
  by_cases hargs : path.length < 2 ∨ path.getD 0 0 ≠ separator
  · rw [fatCreateEntry, if_pos hargs]
    exact .refl hv.mounted
  by_cases hattr : fatCheckAttrib attributes ≠ 0 ∨ attributes &&& ATTR_LINK ≠ 0
  · rw [fatCreateEntry, if_neg hargs, if_pos hattr]
    exact .refl hv.mounted
  cases hloc : locateEntry vol path junk with
  | none =>
    rw [fatCreateEntry, if_neg hargs, if_neg hattr, hloc]
    exact .refl hv.mounted
  | some loc =>
    obtain ⟨hpar, hd, hbuild, hadmits, hslot⟩ := locateEntry_below hv hparent hloc
    rcases fatCreateEntry_cases hv hargs hattr hloc hd (fatBuildDIRName_legal hbuild) hadmits
      hslot _ with ⟨vol', k, i, heq, hst⟩ | ⟨vol', heq, href, -⟩
    · rw [heq]
      refine ⟨hst.same, hst.mounted, hst.mirrored, .inr ⟨_, ⟨loc.dir, hpar, ?_⟩, hst.change⟩⟩
      split <;> rename_i hdir
      · exact .inr ⟨hdir, rfl⟩
      · exact .inl rfl
    · rw [heq]
      exact href

/-- `FAT_create_entry` creates an empty file or an empty directory, or nothing. -/
theorem fatCreateEntry_refines {path : List UInt8} {attributes : UInt8} {now : Tm} {junk : Junk}
    (hplain : PlainPath path) (hparent : ParentIsDir vol path junk.search) :
    Refines vol (fatCreateEntry vol path attributes now junk).1 fun a =>
      ∃ d, parentCluster vol path junk.search = some d ∧
        (a = .create d ∨
          attributes &&& ATTR_DIRECTORY ≠ 0 ∧ a = .mkdir d junk.create.container) := by
  by_cases hpath : path.length < 2 ∨ path.getD 0 0 ≠ separator
  · rw [fatCreateEntry, if_pos hpath]
    exact .refl hv.mounted
  · rw [not_or] at hpath
    have habs := absolute_of_check hpath.1 hpath.2
    exact fatCreateEntry_below hv fun d hd => parentCluster_isDir hv hplain habs hparent hd

/-- `FAT_create_link` creates a link with one cluster, or nothing. -/
theorem fatCreateLink_refines {linkname entryname : List UInt8} {now : Tm} {junk : Junk}
    {overrun : FATVolume × Int} (hplain : PlainPath linkname)
    (hparent : ParentIsDir vol linkname junk.search)
    (hfits : TargetFits vol linkname entryname junk) :
    Refines vol (fatCreateLink vol linkname entryname now junk overrun).1 fun a =>
      ∃ d, parentCluster vol linkname junk.search = some d ∧ a = .link d := by
  unfold fatCreateLink
  split <;> rename_i hpath
  · exact .refl hv.mounted
  split <;> rename_i htarget
  · exact .refl hv.mounted
  rw [not_or, not_or] at htarget
  cases hloc : locateEntry vol linkname junk with
  | none => exact .refl hv.mounted
  | some loc =>
    rw [not_or, not_or] at hpath
    have habs := absolute_of_check hpath.1 hpath.2.2
    obtain ⟨hpar, hd, hbuild, hadmits, hslot⟩ := locateEntry_below hv
      (fun d hd => parentCluster_isDir hv hplain habs hparent hd) hloc
    have hlegal := fatBuildDIRName_legal hbuild
    dsimp only
    rcases placeEntry_cases hv hd hslot with
      ⟨place, k, i, hplace, hat, -, hin, hfirst⟩ | ⟨vol', hplace, href, -⟩
    · rw [hplace]
      dsimp only
      rw [hfits (Nat.not_lt.mp htarget.2.1) loc vol place hloc hplace, if_neg Bool.false_ne_true]
      rcases storeWithCluster_cases hv
        (newEntry loc.name ATTR_LINK entryname.length now)
        (fun _ => ofList entryname) hin.node hin.2.1 hat with
        ⟨heq, -⟩ | ⟨f, vol', e, heq, hst⟩
      · rw [heq]
        exact .refl hv.mounted
      · rw [heq]
        refine ⟨hst.same, hst.mounted, fun _ => hst.mirrored,
          .inr ⟨.link loc.dir, ⟨loc.dir, hpar, rfl⟩, ?_⟩⟩
        have hname : e.dirName = loc.name := by rw [hst.name, newEntry_dirName]
        rw [hst.view]
        refine .link hd hin hfirst (hname ▸ hlegal) (hname ▸ hadmits) hst.node hst.free
          hst.clus ?_ ?_
        · rw [DirEntry.isDir, DirEntry.hasAttr, hst.attr, newEntry_dirAttr]
          decide
        · rw [DirEntry.isLink, DirEntry.hasAttr, hst.attr, newEntry_dirAttr]
          decide
    · rw [hplace]
      exact href

end Create

/-! ## Operations on an existing entry -/

/-- An attribute of a mask that the entry does not meet is not set. -/
lemma hasAttr_of_mask {e : DirEntry} {bit : UInt8} (mask : UInt8) (hbit : mask &&& bit = bit)
    (h : e.hasAttr mask = false) : e.hasAttr bit = false := by
  simp only [DirEntry.hasAttr, bne_eq_false_iff_eq] at *
  rw [← hbit, ← UInt8.and_assoc, h, UInt8.zero_and]

lemma clusters_node {s : Store} {e : DirEntry} {l : List Nat} (h : s.Clusters e l) :
    ∀ c ∈ l, s.Node c := by
  rcases h with ⟨-, rfl⟩ | h
  · simp
  · exact h.node_of_mem

/-- The path leads to the live entry at a slot. -/
def Leads (vol : FATVolume) (path : List UInt8) (junk : SearchResult) (k i : Nat) : Prop :=
  ∃ r, fatSearchDIREntry vol path junk = some r ∧ Found vol r k i

section Existing

variable {vol : FATVolume} (hv : Ready vol)
include hv

/-- `FAT_rename_entry` replaces the name of the entry, or does nothing. -/
theorem fatRenameEntry_refines {path newname : List UInt8} {junk : SearchResult}
    (hplain : PlainPath path) :
    Refines vol (fatRenameEntry vol path newname junk).1 fun a =>
      ∃ k i n, Leads vol path junk k i ∧ fatBuildDIRName newname = some n ∧ a = .rename k i n := by
  unfold fatRenameEntry
  cases hsearch : fatSearchDIREntry vol path junk with
  | none => exact .refl hv.mounted
  | some r =>
    obtain ⟨k, i, hfound⟩ :=
      fatSearchDIREntry_found hv.sound hv.mounted hv.reads hplain hsearch
    dsimp only
    split
    · exact .refl hv.mounted
    cases hbuild : fatBuildDIRName newname with
    | none => exact .refl hv.mounted
    | some n =>
      dsimp only
      split
      · exact .refl hv.mounted
      rw [hv.mounted.writeDIREntry_eq hv.reads (hv.writes _ _) hfound.node hfound.lt_items
        (show vol.At { r with entry := { r.entry with dirName := n } } k i from hfound.place)]
      refine ⟨.putEntry _ _ _, hv.mounted.putEntry _ _ _,
        fun hmir => .putEntry hv.mounted hmir _ _ _,
        .inr ⟨.rename k i n, ⟨k, i, n, ⟨r, hsearch, hfound⟩, rfl, rfl⟩, ?_⟩⟩
      rw [FATVolume.view_putEntry hv.mounted hfound.node hfound.lt_items]
      rw [hfound.entry_eq]
      exact .rename hfound.item (fatBuildDIRName_legal hbuild)

/-- `FAT_truncate_entry` drops the clusters of the entry it finds, or does nothing. -/
lemma fatTruncateEntry_leads {path : List UInt8} {junk : SearchResult} {k i : Nat}
    (hlead : Leads vol path junk k i) :
    Refines vol (fatTruncateEntry vol path junk).1 (· = .truncate k i) := by
  obtain ⟨r, hsearch, hfound⟩ := hlead
  rw [fatTruncateEntry, hsearch]
  dsimp only
  split <;> rename_i hattr
  · exact .refl hv.mounted
  have hdir : (vol.view.entry k i).isDir = false := by
    rw [← hfound.entry_eq]
    exact hasAttr_of_mask (ATTR_READ_ONLY ||| ATTR_SYSTEM ||| ATTR_DIRECTORY |||
      ATTR_VOLUME_ID) (by decide) (by simpa using hattr)
  obtain ⟨l, hl, -⟩ := hv.sound.item_chain k i hfound.item
  obtain ⟨m, hml, hclear⟩ := hv.mounted.clearClusterChain_eq hl
  rw [← hfound.entry_eq] at hclear
  have hnodes : ∀ c ∈ m, vol.view.Node c := fun c hc => clusters_node hl c (hml hc)
  have hm₁ := hv.mounted.clearFat m
  have hs₁ : vol.Same (vol.clearFat m) := .clearFat m
  have hat : (vol.clearFat m).At
      { r with entry := { r.entry with dirFstClus := 0, dirFileSize := 0 } } k i :=
    hs₁.at hfound.place
  have hview := FATVolume.view_putEntry hm₁ (hs₁.node hfound.node)
    (by rw [hs₁.items]; exact hfound.lt_items)
    { r.entry with dirFstClus := 0, dirFileSize := 0 }
  have hm₂ := hm₁.putEntry k i { r.entry with dirFstClus := 0, dirFileSize := 0 }
  have hs₂ := hs₁.trans (.putEntry k i { r.entry with dirFstClus := 0, dirFileSize := 0 })
  rw [hclear]
  rw [if_neg (by simp), hm₁.writeDIREntry_eq (hs₁.serves hv.reads) (hs₁.serves hv.writes _ _)
    (hs₁.node hfound.node) (by rw [hs₁.items]; exact hfound.lt_items) hat]
  rw [if_neg (by simp), hm₂.writeFATTable_eq (hs₂.serves hv.writes)]
  refine ⟨hs₂.trans (.flush _), hm₂.flush, fun _ => FATVolume.mirrored_flush,
    .inr ⟨_, rfl, ?_⟩⟩
  rw [FATVolume.view_flush hm₂, hview, FATVolume.view_clearFat hnodes, hfound.entry_eq]
  exact .truncate hfound.item hdir hl hml

/-- On a plain path `FAT_truncate_entry` truncates the entry, or does nothing. -/
theorem fatTruncateEntry_refines {path : List UInt8} {junk : SearchResult}
    (hplain : PlainPath path) :
    Refines vol (fatTruncateEntry vol path junk).1 fun a =>
      ∃ k i, Leads vol path junk k i ∧ a = .truncate k i := by
  cases hsearch : fatSearchDIREntry vol path junk with
  | none =>
    rw [fatTruncateEntry, hsearch]
    exact .refl hv.mounted
  | some r =>
    obtain ⟨k, i, hfound⟩ :=
      fatSearchDIREntry_found hv.sound hv.mounted hv.reads hplain hsearch
    have hlead : Leads vol path junk k i := ⟨r, hsearch, hfound⟩
    exact (fatTruncateEntry_leads hv hlead).mono fun a ha => ⟨k, i, hlead, ha⟩

/-- `FAT_delete_entry` frees the slot it finds and drops the clusters of the entry, or
does nothing. -/
lemma fatDeleteEntry_leads {path : List UInt8} {junk : SearchResult} {k i : Nat}
    (hlead : Leads vol path junk k i) :
    Refines vol (fatDeleteEntry vol path junk).1 (· = .delete k i) := by
  obtain ⟨r, hsearch, hfound⟩ := hlead
  rw [fatDeleteEntry, hsearch]
  dsimp only
  split
  · exact .refl hv.mounted
  split
  · exact .refl hv.mounted
  obtain ⟨l, hl, -⟩ := hv.sound.item_chain k i hfound.item
  rw [← hfound.entry_eq] at hl
  obtain ⟨e, he⟩ : ∃ e, e = { r.entry with
    dirName := r.entry.dirName.set 0 DIR_ENTRY_FREE mark_lt } := ⟨_, rfl⟩
  rw [← he]
  have hm₁ := hv.mounted.putEntry k i e
  have hs₁ : vol.Same (vol.putEntry k i e) := .putEntry k i e
  have hview := FATVolume.view_putEntry hv.mounted hfound.node hfound.lt_items e
  have hl₁ : (vol.putEntry k i e).view.Clusters e l := by
    rw [hview, he]
    exact hl
  obtain ⟨m, hml, hclear⟩ := hm₁.clearClusterChain_eq hl₁
  have hnodes : ∀ c ∈ m, (vol.putEntry k i e).view.Node c :=
    fun c hc => hs₁.node (clusters_node hl c (hml hc))
  have hm₂ := hm₁.clearFat m
  have hs₂ := hs₁.trans (.clearFat m)
  have hat : vol.At { r with entry := e } k i := hfound.place
  rw [hv.mounted.writeDIREntry_eq hv.reads (hv.writes _ _) hfound.node hfound.lt_items hat]
  rw [if_neg (by simp), hclear]
  rw [if_neg (by simp), hm₂.writeFATTable_eq (hs₂.serves hv.writes)]
  refine ⟨hs₂.trans (.flush _), hm₂.flush, fun _ => FATVolume.mirrored_flush,
    .inr ⟨_, rfl, ?_⟩⟩
  rw [FATVolume.view_flush hm₂, FATVolume.view_clearFat hnodes, hview, he, hfound.entry_eq]
  rw [hfound.entry_eq] at hl
  exact .delete hfound.item hl hml

/-- On a plain path `FAT_delete_entry` deletes the entry, or does nothing. -/
theorem fatDeleteEntry_refines {path : List UInt8} {junk : SearchResult}
    (hplain : PlainPath path) :
    Refines vol (fatDeleteEntry vol path junk).1 fun a =>
      ∃ k i, Leads vol path junk k i ∧ a = .delete k i := by
  cases hsearch : fatSearchDIREntry vol path junk with
  | none =>
    rw [fatDeleteEntry, hsearch]
    exact .refl hv.mounted
  | some r =>
    obtain ⟨k, i, hfound⟩ :=
      fatSearchDIREntry_found hv.sound hv.mounted hv.reads hplain hsearch
    have hlead : Leads vol path junk k i := ⟨r, hsearch, hfound⟩
    exact (fatDeleteEntry_leads hv hlead).mono fun a ha => ⟨k, i, hlead, ha⟩

end Existing

end DiegOS.Fat
