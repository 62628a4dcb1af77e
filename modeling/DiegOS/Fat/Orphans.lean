import DiegOS.Fat.Space

/-!
# Clusters lost by failing calls

When `FAT_create_entry`, `FAT_create_link` or `FAT_write` fails, no
cluster should stay marked in the table that no entry on the media leads to.  The
calls mark the first cluster of an entry before they store the entry, and take the
mark back on no path, so a failure in between loses the cluster.

Main results:

- Theorem `Store.AgreeOff.orphan`: clusters that change hands without an owner are
  orphans.
- Lemma `fatCreateEntryUnder_iff`: a failed call leaves no orphans exactly if it has not marked
  the first cluster of an entry that it did not come to store.
-/

namespace DiegOS.Fat

open Lib

namespace Store

variable {s s' : Store}

/-- Every cluster that is not marked as free is on the chain of the root or of a live entry. -/
def NoOrphans (s : Store) : Prop := ∀ c, s.Node c → s.next c ≠ 0 → s.Owned c

lemma noOrphans_iff_balanced : s.NoOrphans ↔ s.Balanced := by
  constructor
  · intro h c hc
    constructor
    · intro hzero howned
      obtain ⟨o, l, ho, hl⟩ := howned
      exact unowned_of_free hzero o l ho hl
    · intro hnot
      by_contra hused
      exact hnot (h c hc hused)
  · intro h c hc hused
    by_contra hnot
    exact hused ((h c hc).mpr hnot)

/-- The stores agree, some clusters apart that nobody owned. -/
structure AgreeOff (s s' : Store) (lost : List Nat) : Prop where
  fatSize_eq : s'.fatSize = s.fatSize
  root_eq : s'.root = s.root
  slots_eq : s'.slots = s.slots
  unowned : ∀ c ∈ lost, s.Unowned c
  next_eq : ∀ c, c ∉ lost → s'.next c = s.next c
  byte_eq : ∀ c, c ∉ lost → s'.byte c = s.byte c

namespace AgreeOff

variable {lost : List Nat} (hs : s.Sound) (h : AgreeOff s s' lost)
include hs h

omit hs in
/-- Owned chains are the same. -/
lemma chain {o : Option (Nat × Nat)} {l : List Nat} {c : Nat} (ho : s.Owns o l)
    (hc : s.Chain c l) : s'.Chain c l := by
  have hnode : s'.Node = s.Node := by
    funext x
    simp [Node, h.fatSize_eq]
  rw [Chain, hnode]
  apply LinkChain.congr hc
  intro x hx
  exact h.next_eq x fun hmem => h.unowned x hmem o l ho hx

lemma size_le : s'.fatSize ≤ FAT_BAD := by
  rw [h.fatSize_eq]
  exact hs.size_le

/-- The slots of an old directory are the same. -/
lemma inDir {d k i : Nat} (hd : s.IsDir d) (hin : s'.InDir d k i) :
    s.InDir d k i ∧ s'.entry k i = s.entry k i := by
  obtain ⟨⟨m, hm, hk⟩, hi, hdot⟩ := hin
  obtain ⟨o, ho⟩ := Sound.dirOwner_of_isDir d hd
  obtain ⟨l, hl, hown⟩ := hs.owns_of_dirOwner ho
  obtain rfl := LinkChain.unique (separated (h.size_le hs)) hm (h.chain hown hl)
  have hnot : k ∉ lost := fun hmem => h.unowned k hmem o m hown hk
  rw [h.slots_eq] at hi
  refine ⟨⟨⟨m, hl, hk⟩, hi, ?_⟩, ?_⟩
  · simpa [DotSlot, h.root_eq] using hdot
  · rw [entry, entry, h.byte_eq k hnot]

/-- Every directory is an old one. -/
lemma isDir {d : Nat} (hd : s'.IsDir d) : s.IsDir d := by
  induction hd with
  | root =>
    rw [h.root_eq]
    exact .root
  | sub _ hin hlive hattr ih =>
    obtain ⟨hin₀, hent⟩ := h.inDir hs ih hin
    rw [hent] at hlive hattr ⊢
    exact .sub ih hin₀ hlive hattr

/-- Every owner is an old one, with its old clusters. -/
lemma owns {o : Option (Nat × Nat)} {l : List Nat} (ho : s'.Owns o l) : s.Owns o l := by
  cases o with
  | none =>
    obtain ⟨m, hm⟩ := hs.root_chain
    have hl : s'.Chain s.root l := h.root_eq ▸ ho
    obtain rfl := LinkChain.unique (separated (h.size_le hs)) hl (h.chain (o := none) hm hm)
    exact hm
  | some slot =>
    obtain ⟨k, i⟩ := slot
    obtain ⟨⟨⟨d, hd, hin⟩, hlive⟩, hl⟩ := ho
    have hd₀ := h.isDir hs hd
    obtain ⟨hin₀, hent⟩ := h.inDir hs hd₀ hin
    rw [hent] at hlive hl
    have hitem : s.Item k i := ⟨⟨d, hd₀, hin₀⟩, hlive⟩
    obtain ⟨m, hm, -⟩ := hs.item_chain k i hitem
    have hm' : s'.Clusters (s.entry k i) m := by
      refine hm.imp id fun hchain => ?_
      exact h.chain (o := some (k, i)) ⟨hitem, .inr hchain⟩ hchain
    obtain rfl := Clusters.unique (h.size_le hs) hl hm'
    exact ⟨hitem, hm⟩

/-- A cluster that nobody owned and that is marked now is an orphan. -/
theorem orphan {c : Nat} (hc : c ∈ lost) (hnode : s.Node c) (hused : s'.next c ≠ 0) :
    ¬s'.NoOrphans := by
  intro hno
  have hnode' : s'.Node c := ⟨hnode.1, h.fatSize_eq ▸ hnode.2⟩
  obtain ⟨o, l, ho, hl⟩ := hno c hnode' hused
  exact h.unowned c hc o l (h.owns hs ho) hl

end AgreeOff

end Store

/-! ## Requests that may fail -/

section Requests

variable {p : FaultPattern} {vol : FATVolume}

/-- However the writes of the table fail, some of its copies are written. -/
lemma fatWriteFATTableUnder_flushTo (hm : vol.Mounted) (hw : vol.ctx.Serves .write)
    (fails : Nat → Bool) (t : Nat) :
    ∃ n ≤ vol.pb.numFATs.toNat, (fatWriteFATTableUnder fails vol t).1 = vol.flushTo n := by
  have hloop : ∀ m n t, n + m = vol.pb.numFATs.toNat → ∃ k ≤ vol.pb.numFATs.toNat,
      (writeFATLoopUnder fails m (vol.flushTo n)
        (vol.pb.resvdSecCnt.toNat + n * vol.pb.fatSz16.toNat) t).1 = vol.flushTo k := by
    intro m
    induction m with
    | zero =>
      intro n t hn
      exact ⟨n, by omega, rfl⟩
    | succ m ih =>
      intro n t hn
      rw [writeFATLoopUnder, hm.volWrite_table hw (by omega)]
      cases fails t with
      | true => exact ⟨n, by omega, rfl⟩
      | false =>
        obtain ⟨k, hk, heq⟩ := ih (n + 1) (t + 1) (by omega)
        refine ⟨k, hk, ?_⟩
        rw [← heq, served_false]
        dsimp only
        rw [(FATVolume.Same.flushTo vol (n + 1)).pb]
        congr 2
        ring
  have h := hloop vol.pb.numFATs.toNat 0 t (by omega)
  rwa [Nat.zero_mul, Nat.add_zero] at h

/-- Writing the table changes nothing that the volume stores. -/
lemma fatWriteFATTableUnder_view (hm : vol.Mounted) (hw : vol.ctx.Serves .write)
    (fails : Nat → Bool) (t : Nat) :
    vol.Same (fatWriteFATTableUnder fails vol t).1 ∧
      (fatWriteFATTableUnder fails vol t).1.Mounted ∧
      (fatWriteFATTableUnder fails vol t).1.view = vol.view := by
  obtain ⟨n, hn, heq⟩ := fatWriteFATTableUnder_flushTo hm hw fails t
  have hsame := FATVolume.Same.flushTo vol n
  rw [heq]
  refine ⟨hsame, hsame.mounted hm ?_ ?_, FATVolume.view_flushTo hm hn⟩
  · rw [FATVolume.Mounted.lastFree_flushTo]
    exact hm.hint_lo
  · rw [FATVolume.Mounted.lastFree_flushTo]
    exact hm.hint_hi

/-- An entry that is not stored leaves no trace. -/
lemma fatWriteDIREntryUnder_fails {entry : SearchResult}
    (hret : (fatWriteDIREntryUnder p vol entry).2 = -1) :
    (fatWriteDIREntryUnder p vol entry).1 = vol := by
  unfold fatWriteDIREntryUnder at hret ⊢
  split
  · rfl
  · split
    · rfl
    · rename_i hread _ _ hwrite
      rw [hread] at hret
      dsimp only at hret
      rw [hwrite] at hret
      contradiction

/-- An entry is stored unless one of the two requests for its sector fails. -/
lemma fatWriteDIREntryUnder_eq (hm : vol.Mounted) (hfault : vol.ctx.Faultless)
    {entry : SearchResult} {k i : Nat} (hk : vol.view.Node k) (hi : i < vol.items)
    (hat : vol.At entry k i) :
    fatWriteDIREntryUnder p vol entry =
      if p.slotRead = true ∨ p.slotWrite = true then (vol, -1)
      else (vol.putEntry k i entry.entry, 0) := by
  have heq := hm.writeDIREntry_eq (hfault .read) (hfault .write _ _) hk hi hat
  unfold fatWriteDIREntryUnder
  unfold fatWriteDIREntry at heq
  cases hread : volRead vol entry.sector 1 with
  | none => simp [hread] at heq
  | some buf =>
    rw [hread] at heq
    cases p.slotRead with
    | true => simp
    | false =>
      cases p.slotWrite with
      | true => simp
      | false =>
        rw [if_neg (by simp)]
        exact heq

end Requests

/-! ## The creating operations -/

/-- The walk along the directory of a new entry comes to an end; else the call does not
return. -/
def WalkEnds (p : FaultPattern) (vol : FATVolume) (path : List UInt8) (junk : Junk) : Prop :=
  ∀ loc, locateEntryUnder p vol path junk = some loc → Store.Stop (chainStop vol loc.dir)

/-- The lookup finds a free slot for a new entry. -/
def FindsSlot (p : FaultPattern) (vol : FATVolume) (path : List UInt8) (junk : Junk) : Prop :=
  ∃ loc place, locateEntryUnder p vol path junk = some loc ∧ loc.slot = some place

/-- The copy of the target of a link stays in its buffer. -/
def TargetFitsUnder (p : FaultPattern) (vol : FATVolume) (linkname entryname : List UInt8)
    (junk : Junk) : Prop :=
  entryname.length ≤ PATH_MAX → FindsSlot p vol linkname junk →
    copiesBeyond vol entryname = false

/-- A cluster is free, and its write is served. -/
def TakesCluster (p : FaultPattern) (vol : FATVolume) : Prop :=
  (∃ c, vol.view.Node c ∧ vol.view.next c = 0) ∧ p.cluster 0 = false

section Slot

variable {p : FaultPattern} {vol : FATVolume} {path : List UInt8} {junk : Junk}

lemma not_findsSlot (hloc : locateEntryUnder p vol path junk = none) :
    ¬FindsSlot p vol path junk := by
  intro h
  obtain ⟨loc, -, hsome, -⟩ := h
  rw [hloc] at hsome
  contradiction

lemma findsSlot_iff {loc : Located} (hloc : locateEntryUnder p vol path junk = some loc) :
    FindsSlot p vol path junk ↔ loc.slot ≠ none := by
  constructor
  · intro h
    obtain ⟨loc', place, hsome, hplace⟩ := h
    rw [hloc] at hsome
    cases hsome
    simp [hplace]
  · intro h
    obtain ⟨place, hplace⟩ := Option.ne_none_iff_exists'.mp h
    exact ⟨loc, place, hloc, hplace⟩

end Slot

section Create

variable {p : FaultPattern} {vol : FATVolume} (hv : Ready vol)
include hv

/-- The place of a new entry is the free slot that was found; a full directory does not
grow. -/
lemma placeEntryUnder_cases {loc : Located} {junk : Junk}
    (hends : Store.Stop (chainStop vol loc.dir)) :
    (∃ place, loc.slot = some place ∧ placeEntryUnder p vol loc junk = (vol, some place)) ∨
    (loc.slot = none ∧ ∃ vol', placeEntryUnder p vol loc junk = (vol', none) ∧
      vol'.view = vol.view) := by
  unfold placeEntryUnder
  cases loc.slot with
  | some place => exact .inl ⟨place, rfl, rfl⟩
  | none =>
    right
    refine ⟨rfl, ?_⟩
    have hset : ∀ N f, fatSetClusterIntoTable (vol.setHint N) (chainStop vol loc.dir) f =
        none := by
      intro N f
      have hsize := hv.mounted.fatSize_le
      unfold Store.Stop FAT_EOC at hends
      unfold FAT_BAD at hsize
      unfold fatSetClusterIntoTable
      rw [if_neg (by omega), if_neg (by simp [FATVolume.setHint]; omega)]
    rcases hv.mounted.free_cases with ⟨f, hf, -, heq⟩ | ⟨-, heq⟩
    · have hf0 : f ≠ 0 := by
        have := hf.1
        omega
      simp only [growDirectoryUnder, heq, hf0, if_false, hset]
      exact ⟨_, rfl, rfl⟩
    · simp only [growDirectoryUnder, heq, if_true]
      exact ⟨vol, rfl, rfl⟩

/-- The walk along the root directory ends. -/
lemma walkEnds_root {path : List UInt8} {junk : Junk}
    (hpos : fatParseDirectoryLast path path.length = 0) : WalkEnds p vol path junk := by
  obtain ⟨l, hl⟩ := hv.sound.root_chain
  have hstop := chainStop_stop hv.mounted.fatSize_le hl
  intro loc hloc
  unfold locateEntryUnder at hloc
  rw [hpos] at hloc
  dsimp only at hloc
  split at hloc
  · contradiction
  · rw [if_pos rfl] at hloc
    cases hname : fatBuildDIRName (path.drop (0 + 1)) with
    | none =>
      rw [hname] at hloc
      contradiction
    | some name =>
      rw [hname] at hloc
      dsimp only at hloc
      split at hloc
      · contradiction
      · cases hloc
        exact hstop

variable (hb : vol.view.NoOrphans)
include hb

/-- When an entry with a cluster of its own is not stored, its cluster is lost if it has been
written, and else nothing has changed. -/
lemma storeWithClusterUnder_iff {place : SearchResult}
    {entry : DirEntry} {buffer : DirEntry → Bytes}
    (hret : (storeWithClusterUnder p vol place entry buffer).2 = -1) :
    (storeWithClusterUnder p vol place entry buffer).1.view.NoOrphans ↔
      ¬TakesCluster p vol := by
  unfold TakesCluster
  rcases hv.mounted.free_cases with ⟨f, hf, hfree, heq⟩ | ⟨hnone, heq⟩
  · have hf0 : f ≠ 0 := by
      have := hf.1
      omega
    have hm₁ := hv.mounted.setHint hf
    have hs₁ : vol.Same (vol.setHint f) := .setHint f
    unfold storeWithClusterUnder at hret ⊢
    simp only [heq, hf0, if_false] at hret ⊢
    obtain ⟨e, he⟩ : ∃ e, e = { entry with dirFstClus := UInt16.ofNat f } := ⟨_, rfl⟩
    rw [← he] at hret ⊢
    rw [hm₁.writeC_eq (hs₁.serves hv.writes) (hs₁.node hf)] at hret ⊢
    cases hp : p.cluster 0 with
    | true => exact iff_of_true hb (by simp)
    | false =>
      rw [hp, served_false] at hret
      rw [served_false]
      dsimp only at hret ⊢
      have hs₂ := hs₁.trans (.putCluster f (buffer e))
      have hm₂ := hm₁.putCluster f (buffer e)
      rw [fatSetEOCIntoTable, FATVolume.Mounted.set_eq (hs₂.node hf), Option.getD_some] at hret ⊢
      have hs₃ := hs₂.trans (.setFat f FAT_EOC_WRITTEN)
      have hm₃ := hm₂.setFat f FAT_EOC_WRITTEN
      obtain ⟨-, -, hview⟩ := fatWriteFATTableUnder_view hm₃ (hs₃.serves hv.writes) p.table 0
      rw [fatWriteDIREntryUnder_fails hret, hview, FATVolume.view_setFat (hs₂.node hf).2
        (by decide), FATVolume.view_putCluster (hs₁.node hf), FATVolume.view_setHint,
        ← Store.alloc]
      have hagree : Store.AgreeOff vol.view (vol.view.alloc f (buffer e)) [f] := by
        refine ⟨rfl, rfl, rfl, fun c hc => ?_, fun c hc => ?_, fun c hc => ?_⟩
        · rw [List.mem_singleton.mp hc]
          exact Store.unowned_of_free hfree
        · exact Store.next_setNext_ne _ (by simpa using hc)
        · exact Store.byte_putCluster_ne _ (by simpa using hc)
      have hused : (vol.view.alloc f (buffer e)).next f ≠ 0 := by
        rw [Store.alloc, Store.next_setNext_self]
        decide
      refine iff_of_false (hagree.orphan hv.sound (by simp) hf hused) ?_
      simpa using ⟨f, hf, hfree⟩
  · have hsame : storeWithClusterUnder p vol place entry buffer = (vol, -1) := by
      simp [storeWithClusterUnder, heq]
    rw [hsame]
    refine iff_of_true hb fun hfree => ?_
    obtain ⟨⟨c, hc, hzero⟩, -⟩ := hfree
    exact hnone c hc hzero

/-- A creation that fails loses a cluster exactly if it makes a directory, finds a slot for it
and takes a cluster. -/
lemma fatCreateEntryUnder_iff {path : List UInt8}
    {attributes : UInt8} {now : Tm} {junk : Junk} (hends : WalkEnds p vol path junk)
    (hret : (fatCreateEntryUnder p vol path attributes now junk).2 = -1) :
    (fatCreateEntryUnder p vol path attributes now junk).1.view.NoOrphans ↔
      ¬(¬(path.length < 2 ∨ path.getD 0 0 ≠ separator) ∧
        ¬(fatCheckAttrib attributes ≠ 0 ∨ attributes &&& ATTR_LINK ≠ 0) ∧
        FindsSlot p vol path junk ∧ attributes &&& ATTR_DIRECTORY ≠ 0 ∧ TakesCluster p vol) := by
  by_cases hargs : path.length < 2 ∨ path.getD 0 0 ≠ separator
  · rw [fatCreateEntryUnder, if_pos hargs]
    exact iff_of_true hb fun h => h.1 hargs
  by_cases hattr : fatCheckAttrib attributes ≠ 0 ∨ attributes &&& ATTR_LINK ≠ 0
  · rw [fatCreateEntryUnder, if_neg hargs, if_pos hattr]
    exact iff_of_true hb fun h => h.2.1 hattr
  rw [fatCreateEntryUnder, if_neg hargs, if_neg hattr] at hret ⊢
  cases hloc : locateEntryUnder p vol path junk with
  | none => exact iff_of_true hb fun h => not_findsSlot hloc h.2.2.1
  | some loc =>
    rw [hloc] at hret
    dsimp only at hret ⊢
    rcases @placeEntryUnder_cases p vol hv loc junk (hends loc hloc) with
      ⟨place, hslot, heq⟩ | ⟨hslot, vol', heq, hview⟩
    · rw [heq] at hret ⊢
      dsimp only at hret ⊢
      by_cases hdir : attributes &&& ATTR_DIRECTORY ≠ 0
      · rw [if_pos hdir] at hret ⊢
        rw [storeWithClusterUnder_iff hv hb hret, not_iff_not]
        exact ⟨fun h => ⟨hargs, hattr, ⟨loc, place, hloc, hslot⟩, hdir, h⟩, fun h => h.2.2.2.2⟩
      · rw [if_neg hdir] at hret ⊢
        rw [fatWriteDIREntryUnder_fails hret]
        exact iff_of_true hb fun h => hdir h.2.2.2.1
    · rw [heq]
      rw [hview]
      exact iff_of_true hb fun h => (findsSlot_iff hloc).mp h.2.2.1 hslot

/-- A link that fails loses a cluster exactly if a slot is found for it and it takes a
cluster. -/
lemma fatCreateLinkUnder_iff {linkname entryname : List UInt8}
    {now : Tm} {junk : Junk} {overrun : FATVolume × Int} (hends : WalkEnds p vol linkname junk)
    (hfits : TargetFitsUnder p vol linkname entryname junk)
    (hret : (fatCreateLinkUnder p vol linkname entryname now junk overrun).2 = -1) :
    (fatCreateLinkUnder p vol linkname entryname now junk overrun).1.view.NoOrphans ↔
      ¬(¬(linkname.length < 2 ∨ PATH_MAX < linkname.length ∨ linkname.getD 0 0 ≠ separator) ∧
        ¬(entryname.length < 2 ∨ PATH_MAX < entryname.length ∨
          entryname.getD 0 0 ≠ separator) ∧
        FindsSlot p vol linkname junk ∧ TakesCluster p vol) := by
  by_cases hargs : linkname.length < 2 ∨ PATH_MAX < linkname.length ∨
      linkname.getD 0 0 ≠ separator
  · rw [fatCreateLinkUnder, if_pos hargs]
    exact iff_of_true hb fun h => h.1 hargs
  by_cases htarget : entryname.length < 2 ∨ PATH_MAX < entryname.length ∨
      entryname.getD 0 0 ≠ separator
  · rw [fatCreateLinkUnder, if_neg hargs, if_pos htarget]
    exact iff_of_true hb fun h => h.2.1 htarget
  rw [fatCreateLinkUnder, if_neg hargs, if_neg htarget] at hret ⊢
  cases hloc : locateEntryUnder p vol linkname junk with
  | none => exact iff_of_true hb fun h => not_findsSlot hloc h.2.2.1
  | some loc =>
    rw [hloc] at hret
    dsimp only at hret ⊢
    rcases @placeEntryUnder_cases p vol hv loc junk (hends loc hloc) with
      ⟨place, hslot, heq⟩ | ⟨hslot, vol', heq, hview⟩
    · have hlen := Nat.not_lt.mp (not_or.mp (not_or.mp htarget).2).1
      rw [heq] at hret ⊢
      dsimp only at hret ⊢
      rw [hfits hlen ⟨loc, place, hloc, hslot⟩, if_neg Bool.false_ne_true] at hret ⊢
      rw [storeWithClusterUnder_iff hv hb hret, not_iff_not]
      exact ⟨fun h => ⟨hargs, htarget, ⟨loc, place, hloc, hslot⟩, h⟩, fun h => h.2.2.2⟩
    · rw [heq]
      rw [hview]
      exact iff_of_true hb fun h => (findsSlot_iff hloc).mp h.2.2.1 hslot

end Create

end DiegOS.Fat
