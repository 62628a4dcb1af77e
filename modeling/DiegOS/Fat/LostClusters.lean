import DiegOS.Fat.Orphans
import DiegOS.Fat.Paths

/-!
# Writes that lose a cluster

`FAT_write` on a media whose requests fail in any pattern.  Wherever the write
stops, its chain has only grown, so an entry that leads to the first cluster leads
to all of them.  A write to an empty file takes the first cluster itself, and the
entry that names it is stored last.

Main results:

- Theorem `fatWriteUnder_iff`: a failed write loses clusters exactly if it starts the
  chain of an empty file and does not store the entry.
- Theorem `no_orphans_iff`: a failed call leaves no orphans exactly if it has not marked
  the first cluster of an entry that it did not come to store.
-/

namespace DiegOS.Fat

open Lib

/-! ## What a lookup finds -/

/-- The dot entries are directories, and lead to directories. -/
def Store.DotsLead (s : Store) : Prop := ∀ d, s.IsDir d → d ≠ s.root → ∀ j < 2,
  (s.entry d j).isDir = true ∧ s.IsDir (s.entry d j).clus

/-- A slot of a directory with a live entry, dot entries included. -/
def Store.Listed (s : Store) (k i : Nat) : Prop := ∃ d n, s.Named d n k i

section Lookup

variable {vol : FATVolume} (hv : Ready vol) (hdots : vol.view.DotsLead) {p : FaultPattern}
include hv

/-- What a scan finds is listed, whichever clusters cannot be read. -/
lemma scanDirectoryUnder_listed {name : DirName} {r₀ r : SearchResult} {d n : Nat}
    (hd : vol.view.IsDir d)
    (h : (scanDirectoryUnder p vol (fatSearchLoop name) r₀ (chainOf vol d) n).1 = some r) :
    ∃ k i, vol.view.Named d (vol.view.entry k i).dirName k i ∧ r.entry = vol.view.entry k i ∧
      vol.At r k i := by
  obtain ⟨l, hl⟩ := hv.sound.exists_chain hd
  rw [chainOf_eq hv.mounted.fatSize_le hl] at h
  -- The scan stops at some cluster of the chain.
  have hhit : ∀ m : List Nat, ∀ n, (scanDirectoryUnder p vol (fatSearchLoop name) r₀ m n).1 =
      some r → ∃ k ∈ m, fatDirForeach vol (fatSearchLoop name) r₀ k = some r := by
    intro m
    induction m with
    | nil =>
      intro n hnil
      cases hnil
    | cons k m ih =>
      intro n hcons
      rw [scanDirectoryUnder] at hcons
      cases hread : served (p.lookup n) (fatDirForeach vol (fatSearchLoop name) r₀ k) with
      | none =>
        rw [hread] at hcons
        obtain ⟨k', hk', hfound⟩ := ih (n + 1) hcons
        exact ⟨k', .tail _ hk', hfound⟩
      | some r' =>
        rw [hread] at hcons
        obtain rfl : r' = r := Option.some.inj hcons
        refine ⟨k, by simp, ?_⟩
        cases hp : p.lookup n with
        | true => simp [hp] at hread
        | false => rwa [hp, served_false] at hread
  obtain ⟨k, hk, hfound⟩ := hhit l n h
  have hnode := hl.node_of_mem k hk
  rw [fatDirForeach_eq hv.mounted hv.reads hnode] at hfound
  split at hfound <;> rename_i hlt
  · cases hfound
    rcases fatSearchLoop_spec name (vol.buffer k) vol.items 0 with ⟨-, -, hlive, -⟩ | ⟨hend, -⟩
    · rw [hv.mounted.entryOf_buffer hnode hlt] at hlive
      exact ⟨k, _, ⟨hd, ⟨l, hl, hk⟩, hlt, hlive, rfl⟩, rfl, rfl, rfl⟩
    · omega
  · contradiction

include hdots

omit hv in
/-- A listed directory leads to a directory. -/
lemma Store.Listed.isDir_clus {k i : Nat} (h : vol.view.Listed k i)
    (hattr : (vol.view.entry k i).isDir = true) : vol.view.IsDir (vol.view.entry k i).clus := by
  obtain ⟨d, n, hn⟩ := h
  by_cases hdot : vol.view.DotSlot d k i
  · obtain ⟨hroot, rfl, hi⟩ := hdot
    exact (hdots k hn.dir hroot i hi).2
  · exact .sub hn.dir ⟨hn.cluster, hn.lt, hdot⟩ hn.live hattr

omit hv in
/-- A listed entry that is no directory is no dot entry. -/
lemma Store.Listed.item {k i : Nat} (h : vol.view.Listed k i)
    (hattr : (vol.view.entry k i).isDir = false) : vol.view.Item k i := by
  obtain ⟨d, n, hn⟩ := h
  refine ⟨⟨d, hn.dir, hn.cluster, hn.lt, fun hdot => ?_⟩, hn.live⟩
  obtain ⟨hroot, rfl, hi⟩ := hdot
  rw [(hdots k hn.dir hroot i hi).1] at hattr
  contradiction

/-- What the loops find is listed. -/
lemma searchSplitsUnder_listed {names : List DirName} {d cont n : Nat} {found : Bool}
    {r₀ r : SearchResult} (hne : names ≠ []) (hd : vol.view.IsDir d)
    (h : (searchSplitsUnder p vol names d found r₀ cont n).1 = some r) :
    ∃ k i, vol.view.Listed k i ∧ r.entry = vol.view.entry k i ∧ vol.At r k i := by
  induction names generalizing d cont n found r₀ with
  | nil => exact absurd rfl hne
  | cons name rest ih =>
    obtain ⟨l, hl⟩ := hv.sound.exists_chain hd
    simp only [searchSplitsUnder, not_isEOC hv.mounted.fatSize_le hl.node_head,
      Bool.false_eq_true, if_false] at h
    cases hscan : (scanDirectoryUnder p vol (fatSearchLoop name) r₀ (chainOf vol d) n).1 with
    | none => simp [hscan] at h
    | some r₁ =>
      obtain ⟨k, i, hnamed, hent, hat⟩ := scanDirectoryUnder_listed hv hd hscan
      simp only [hscan, Option.isSome_some, Option.getD_some, hent, Bool.not_true,
        Bool.false_eq_true, if_false] at h
      have hlisted : vol.view.Listed k i := ⟨d, _, hnamed⟩
      cases rest with
      | nil =>
        simp only [searchSplitsUnder, ne_eq, not_true_eq_false, false_and, if_false] at h
        obtain rfl : _ = r := by simpa using h
        exact ⟨k, i, hlisted, hent, hat⟩
      | cons name' rest =>
        by_cases hattr : (vol.view.entry k i).hasAttr ATTR_DIRECTORY = true
        · simp only [hattr, Bool.not_true, and_false, if_false, Bool.false_eq_true] at h
          exact ih (by simp) (hlisted.isDir_clus hdots hattr) h
        · simp [hattr] at h

/-- What a path with a component leads to is listed. -/
lemma fatSearchDIREntryUnder_listed {path : List UInt8} {junk r : SearchResult}
    (hpath : fatParseDirectory path ≠ some [])
    (h : (fatSearchDIREntryUnder p vol path junk).1 = some r) :
    ∃ k i, vol.view.Listed k i ∧ r.entry = vol.view.entry k i ∧ vol.At r k i := by
  unfold fatSearchDIREntryUnder at h
  split at h
  · contradiction
  · cases hparse : fatParseDirectory path with
    | none =>
      rw [hparse] at h
      contradiction
    | some names =>
      rw [hparse] at h
      exact searchSplitsUnder_listed hv hdots (fun hnil => hpath (by rw [hparse, hnil])) .root h

end Lookup

/-! ## What a write records -/

section Record

variable {p : FaultPattern}

/-- The entry is not stored when a request for its sector fails; else it names the first
cluster of the chain. -/
lemma Progress.recordUnder {j : WriteJob} {vol : FATVolume} {first n : Nat} {l : List Nat}
    {appended : Int} (h : Progress j vol first l n appended) (hfault : j.vol.ctx.Faultless)
    {search : SearchResult} {k i : Nat} (hat : j.vol.At search k i) (hk : j.vol.view.Node k)
    (hi : i < j.vol.items) (hclus : search.entry.clus = first)
    (hsize : search.entry.size = j.size) (now : Tm) :
    ((p.slotRead = true ∨ p.slotWrite = true) ∧
      (fatWriteUpdateOnDiskUnder p appended (j.offset + n) vol search now).view = vol.view) ∨
    (¬(p.slotRead = true ∨ p.slotWrite = true) ∧ ∃ e,
      (fatWriteUpdateOnDiskUnder p appended (j.offset + n) vol search now).view =
        vol.view.putEntry k i e ∧
      e.dirName = search.entry.dirName ∧ e.dirAttr = search.entry.dirAttr ∧ e.clus = first ∧
      e.size = max j.size (j.offset + n)) := by
  obtain ⟨e, he⟩ : ∃ e, e = fatUpdateTimestamps
    (if search.entry.size < j.offset + n then
      { search.entry with dirFileSize := UInt32.ofNat (j.offset + n) } else search.entry)
    .write now := ⟨_, rfl⟩
  obtain ⟨vol₁, hvol₁⟩ : ∃ v, v = if appended ≠ 0 then (fatWriteFATTableUnder p.table vol 0).1
    else vol := ⟨_, rfl⟩
  have htable : vol.Same vol₁ ∧ vol₁.Mounted ∧ vol₁.view = vol.view := by
    rw [hvol₁]
    split
    · exact fatWriteFATTableUnder_view h.mounted (h.same.serves (hfault .write)) p.table 0
    · exact ⟨.refl vol, h.mounted, rfl⟩
  obtain ⟨hs₁, hm₁, hview₁⟩ := htable
  have hs := h.same.trans hs₁
  have hcall : fatWriteUpdateOnDiskUnder p appended (j.offset + n) vol search now =
      (fatWriteDIREntryUnder p vol₁ { search with entry := e }).1 := by
    rw [fatWriteUpdateOnDiskUnder, ← hvol₁, ← he]
  rw [hcall, fatWriteDIREntryUnder_eq hm₁ (hs.faultless hfault) (hs.node hk)
    (by rwa [hs.items]) (show vol₁.At { search with entry := e } k i from hs.at hat)]
  by_cases hslot : p.slotRead = true ∨ p.slotWrite = true
  · left
    rw [if_pos hslot]
    exact ⟨hslot, hview₁⟩
  · right
    rw [if_neg hslot]
    refine ⟨hslot, e, ?_, h.recorded hclus hsize he⟩
    rw [FATVolume.view_putEntry hm₁ (hs.node hk) (by rwa [hs.items]), hview₁]

variable {vol : FATVolume} (hv : Ready vol) {k i : Nat} (hitem : vol.view.Item k i)
  {l new : List Nat} (hl : vol.view.Clusters (vol.view.entry k i) l) {size offset first n : Nat}
  {buffer : Bytes} {appended : Int} {vol₁ : FATVolume}
  (h : Progress ⟨vol, l, size, offset, buffer⟩ vol₁ first (l ++ new) n appended)
  (hfree : ∀ c ∈ new, vol.view.next c = 0)
include hv hitem hl h hfree

/-- A chain that has grown is still reached by the entry that is not stored again. -/
lemma Progress.noOrphans_unstored (hb : vol.view.NoOrphans)
    (hmask : (vol.view.entry k i).hasAttr writeMask = false)
    (hclus : (vol.view.entry k i).clus = first)
    (hlen : (vol.view.entry k i).size ≤ (l ++ new).length * vol.bytesPerCluster) :
    vol₁.view.NoOrphans := by
  have hfile : (vol.view.entry k i).isDir = false :=
    hasAttr_of_mask writeMask (by decide) hmask
  have hentry : vol₁.view.entry k i = vol.view.entry k i := by
    rw [Store.entry, Store.entry, h.byte_frame k (slot_not_mem hv hitem hl hfree)]
  obtain ⟨-, hu⟩ := h.update hv hitem hl hfree (s := vol₁.view) rfl rfl rfl rfl rfl
    (fun _ _ => rfl) (fun _ _ => rfl) (hentry ▸ hitem.2) (by rw [hentry, hclus])
    (by rw [hentry, hfile]) (fun _ => by rw [hentry]; exact hlen)
  rw [Store.noOrphans_iff_balanced] at hb ⊢
  refine hu.balanced hv.sound (List.subset_append_left l new) (fun _ hdir => ?_) hb
  rw [hfile] at hdir
  contradiction

/-- The chain is reached by the entry that is stored. -/
lemma Progress.noOrphans_stored (hb : vol.view.NoOrphans)
    (hmask : (vol.view.entry k i).hasAttr writeMask = false) {e : DirEntry}
    (hname : e.dirName = (vol.view.entry k i).dirName)
    (hattr : e.dirAttr = (vol.view.entry k i).dirAttr) (hclus : e.clus = first)
    (hlen : e.size ≤ (l ++ new).length * vol.bytesPerCluster) :
    (vol₁.view.putEntry k i e).NoOrphans := by
  have hfile : (vol.view.entry k i).isDir = false :=
    hasAttr_of_mask writeMask (by decide) hmask
  have hentry : (vol₁.view.putEntry k i e).entry k i = e :=
    Store.entry_putEntry_self k i e
  have hlive : Live e := by
    rw [Live, DirEntry.mark, hname]
    exact hitem.2
  have hisDir : e.isDir = false := by
    rw [DirEntry.isDir, DirEntry.hasAttr, hattr]
    exact hfile
  obtain ⟨-, hu⟩ := h.update hv hitem hl hfree (s := vol₁.view.putEntry k i e) rfl rfl rfl rfl
    rfl (fun c hck => Store.byte_putEntry_ne i e hck)
    (fun t ht => by rw [Store.byte_putEntry_self, memcpy_apply_not_mem (by omega)])
    (by rw [hentry]; exact hlive) (by rw [hentry, hclus]) (by rw [hentry, hisDir])
    (fun _ => by rw [hentry]; exact hlen)
  rw [Store.noOrphans_iff_balanced] at hb ⊢
  refine hu.balanced hv.sound (List.subset_append_left l new) (fun _ hdir => ?_) hb
  rw [hfile] at hdir
  contradiction

omit hv hitem hl hfree in
/-- A chain that has grown starts where it did. -/
lemma Progress.first_eq {c : Nat} (hchain : vol.view.Chain c l) : c = first := by
  have hhead := h.chain.getElem_zero
  rw [List.getElem?_append_left hchain.length_pos, hchain.getElem_zero] at hhead
  exact Option.some.inj hhead

omit hitem hl in
/-- A chain that no entry leads to is lost. -/
lemma Progress.orphaned (hempty : l = []) : ¬vol₁.view.NoOrphans := by
  subst hempty
  have hmem : first ∈ new := h.chain.head_mem
  have hagree : Store.AgreeOff vol.view vol₁.view new := by
    constructor
    · exact h.same.fatSize
    · exact congrArg (fun pb => pb.rootClus.toNat) h.same.pb
    · exact h.same.items
    · exact fun c hc => Store.unowned_of_free (hfree c hc)
    · exact h.next_frame
    · exact h.byte_frame
  have hnode := h.chain.node_of_mem first hmem
  have hnode₀ : vol.view.Node first := ⟨hnode.1, lt_of_lt_of_eq hnode.2 h.same.fatSize⟩
  apply hagree.orphan hv.sound hmem hnode₀
  intro hzero
  rcases h.chain.next_of_mem hmem with hnext | hstop
  · rw [hzero] at hnext
    exact absurd hnext.1 (by omega)
  · rw [hzero] at hstop
    exact Store.not_stop_zero hstop

end Record

/-! ## The whole write -/

section Whole

variable {p : FaultPattern} {vol : FATVolume} (hv : Ready vol) {path : List UInt8}
  {junk r : SearchResult} {k i : Nat}
  (hsearch : (fatSearchDIREntryUnder p vol path junk).1 = some r)
  (hent : r.entry = vol.view.entry k i) (hat : vol.At r k i) {l : List Nat}
  (hl : vol.view.Clusters (vol.view.entry k i) l)
  (hsize : (vol.view.entry k i).size ≤ l.length * vol.bytesPerCluster)
  (hmask : (vol.view.entry k i).hasAttr writeMask = false) {offset buflen : Nat}
  (hoff : offset ≤ (vol.view.entry k i).size) (hbuf : buflen ≠ 0)
include hv hsearch hent hat hl hsize hmask hoff hbuf

/-- A write of a writable file loses clusters exactly if the file is empty, a cluster is free,
and the entry is not stored. -/
lemma fatWriteUnder_noOrphans (hitem : vol.view.Item k i) (hb : vol.view.NoOrphans)
    (buffer : Bytes) (writelen : Nat) (now : Tm) :
    (fatWriteUnder p vol path offset buffer buflen writelen now junk).vol.view.NoOrphans ↔
      ¬((vol.view.entry k i).clus = 0 ∧ (∃ c, vol.view.Node c ∧ vol.view.next c = 0) ∧
        (p.slotRead = true ∨ p.slotWrite = true)) := by
  have hinslot := hitem.1
  obtain ⟨d, -, hin⟩ := hinslot
  rcases fatWriteUnder_ends hv hsearch hent hat hl hsize hmask hoff hbuf buffer writelen now with
    ⟨hout, hnone⟩ | ⟨-, first, l', appended, hne, hprog⟩ |
      ⟨search, first, hfile, hclus, hplace, vol₁, l', appended, hprog, hvol, -⟩
  · rw [hout]
    refine iff_of_true hb fun h => ?_
    obtain ⟨-, ⟨c, hc, hzero⟩, -⟩ := h
    exact hnone c hc hzero
  · -- The file is not empty, so its entry leads to the grown chain.
    obtain ⟨new, rfl, hfree⟩ := hprog.grown
    rcases id hl with ⟨-, rfl⟩ | hchain
    · simp at hsize
      omega
    · refine iff_of_true ?_ fun h => ?_
      · exact hprog.noOrphans_unstored hv hitem hl hfree hb hmask (hprog.first_eq hchain)
          hprog.size_le
      · have := hchain.node_head.1
        omega
  · obtain ⟨new, rfl, hfree⟩ := hprog.grown
    have hk : vol.view.Node k := hin.node
    rw [hvol]
    rcases hprog.recordUnder (p := p) hv.faultless hplace hk hin.2.1 hclus
      (congrArg UInt32.toNat hfile.2.2) now with
      ⟨hslot, hview⟩ | ⟨hslot, e, hview, hname, hattr, hfst, hlen⟩
    · rw [hview]
      rcases id hl with ⟨hz, rfl⟩ | hchain
      · -- The first cluster of an empty file has been marked.
        have hmem : first ∈ new := hprog.chain.head_mem
        have hnode := hprog.chain.node_of_mem first hmem
        apply iff_of_false (hprog.orphaned hv hfree rfl)
        rw [not_not]
        exact ⟨hz, ⟨first, ⟨hnode.1, lt_of_lt_of_eq hnode.2 hprog.same.fatSize⟩,
          hfree first hmem⟩, hslot⟩
      · refine iff_of_true ?_ fun h => ?_
        · exact hprog.noOrphans_unstored hv hitem hl hfree hb hmask (hprog.first_eq hchain)
            hprog.size_le
        · have := hchain.node_head.1
          omega
    · rw [hview]
      refine iff_of_true ?_ fun h => hslot h.2.2
      apply hprog.noOrphans_stored hv hitem hl hfree hb hmask (hname.trans hfile.1)
        (hattr.trans hfile.2.1) hfst
      rw [hlen]
      exact max_le hprog.size_le hprog.done_le

end Whole

/-- A write loses clusters exactly if it finds a writable entry without clusters, a cluster is
free, and a request for the sector of the entry fails. -/
theorem fatWriteUnder_iff {p : FaultPattern} {vol : FATVolume} (hv : Ready vol)
    (hdots : vol.view.DotsLead) (hb : vol.view.NoOrphans) {path : List UInt8}
    (hpath : fatParseDirectory path ≠ some []) (offset : Nat) (buffer : Bytes)
    (buflen writelen : Nat) (now : Tm) (junk : SearchResult) :
    (fatWriteUnder p vol path offset buffer buflen writelen now junk).vol.view.NoOrphans ↔
      ¬(buflen ≠ 0 ∧ ∃ r, (fatSearchDIREntryUnder p vol path junk).1 = some r ∧
        r.entry.hasAttr writeMask = false ∧ offset ≤ r.entry.size ∧ r.entry.clus = 0 ∧
        (∃ c, vol.view.Node c ∧ vol.view.next c = 0) ∧
        (p.slotRead = true ∨ p.slotWrite = true)) := by
  by_cases hbuf : buflen = 0
  · rw [fatWriteUnder, if_pos hbuf]
    exact iff_of_true hb fun h => h.1 hbuf
  cases hsearch : (fatSearchDIREntryUnder p vol path junk).1 with
  | none =>
    rw [fatWriteUnder, if_neg hbuf, hsearch]
    exact iff_of_true hb (by simp)
  | some r =>
    by_cases hmask : r.entry.hasAttr writeMask = true
    · rw [fatWriteUnder, if_neg hbuf, hsearch]
      dsimp only
      rw [← writeMask, if_pos hmask]
      exact iff_of_true hb (by simp [hmask])
    rw [Bool.not_eq_true] at hmask
    by_cases hoff : r.entry.size < offset
    · rw [fatWriteUnder, if_neg hbuf, hsearch]
      dsimp only
      rw [← writeMask, hmask, if_neg (by simp), if_pos hoff]
      refine iff_of_true hb fun h => ?_
      obtain ⟨-, r', hr', -, hle, -⟩ := h
      cases hr'
      omega
    obtain ⟨k, i, hlisted, hent, hat⟩ := fatSearchDIREntryUnder_listed hv hdots hpath hsearch
    have hitem : vol.view.Item k i := by
      apply hlisted.item hdots
      rw [← hent]
      exact hasAttr_of_mask writeMask (by decide) hmask
    obtain ⟨l, hl, -, hlen⟩ := hv.sound.item_chain k i hitem
    have hmask' : (vol.view.entry k i).hasAttr writeMask = false := hent ▸ hmask
    have hsize := hlen (hasAttr_of_mask writeMask (by decide) hmask')
    rw [fatWriteUnder_noOrphans hv hsearch hent hat hl hsize hmask' (by rw [← hent]; omega) hbuf
      hitem hb, not_iff_not, ← hent]
    constructor
    · intro h
      exact ⟨hbuf, r, rfl, hmask, by omega, h⟩
    · intro h
      obtain ⟨-, r', hr', -, -, hrest⟩ := h
      cases hr'
      exact hrest

/-! ## The calls that take clusters -/

/-- A call that may take clusters, with its arguments and all that it reads from its
surroundings. -/
inductive TakingCall where
  | create (path : List UInt8) (attributes : UInt8) (now : Tm) (junk : Junk)
  | link (linkname entryname : List UInt8) (now : Tm) (junk : Junk) (overrun : FATVolume × Int)
  | write (path : List UInt8) (offset : Nat) (buffer : Bytes) (buflen writelen : Nat) (now : Tm)
      (junk : SearchResult)

namespace TakingCall

/-- The volume and the return code after a call on a failing media. -/
def execUnder (p : FaultPattern) (vol : FATVolume) : TakingCall → FATVolume × Int
  | create path attributes now junk => fatCreateEntryUnder p vol path attributes now junk
  | link linkname entryname now junk overrun =>
    fatCreateLinkUnder p vol linkname entryname now junk overrun
  | write path offset buffer buflen writelen now junk =>
    let out := fatWriteUnder p vol path offset buffer buflen writelen now junk
    (out.vol, out.ret)

/-- The call comes back, the target of a link fits in a cluster, and the path of a write has a
component: without one the entry that is written is whatever the stack holds. -/
def Sensible (p : FaultPattern) (vol : FATVolume) : TakingCall → Prop
  | create path _ _ junk => WalkEnds p vol path junk
  | link linkname entryname _ junk _ =>
    WalkEnds p vol linkname junk ∧ TargetFitsUnder p vol linkname entryname junk
  | write path _ _ _ _ _ _ => fatParseDirectory path ≠ some []

/-- The call marks the first cluster of an entry, if it fails without storing the entry. -/
def Strands (p : FaultPattern) (vol : FATVolume) : TakingCall → Prop
  | create path attributes _ junk =>
    ¬(path.length < 2 ∨ path.getD 0 0 ≠ separator) ∧
      ¬(fatCheckAttrib attributes ≠ 0 ∨ attributes &&& ATTR_LINK ≠ 0) ∧
      FindsSlot p vol path junk ∧ attributes &&& ATTR_DIRECTORY ≠ 0 ∧ TakesCluster p vol
  | link linkname entryname _ junk _ =>
    ¬(linkname.length < 2 ∨ PATH_MAX < linkname.length ∨ linkname.getD 0 0 ≠ separator) ∧
      ¬(entryname.length < 2 ∨ PATH_MAX < entryname.length ∨ entryname.getD 0 0 ≠ separator) ∧
      FindsSlot p vol linkname junk ∧ TakesCluster p vol
  | write path offset _ buflen _ _ junk =>
    buflen ≠ 0 ∧ ∃ r, (fatSearchDIREntryUnder p vol path junk).1 = some r ∧
      r.entry.hasAttr writeMask = false ∧ offset ≤ r.entry.size ∧ r.entry.clus = 0 ∧
      (∃ c, vol.view.Node c ∧ vol.view.next c = 0) ∧ (p.slotRead = true ∨ p.slotWrite = true)

end TakingCall

/-- On a sound volume without orphans, whatever requests fail and when: a failed call leaves no
orphans exactly if it has not marked the first cluster of an entry that it did not store. -/
theorem no_orphans_iff {p : FaultPattern} {vol : FATVolume} (hv : Ready vol)
    (hdots : vol.view.DotsLead) (hb : vol.view.NoOrphans) {c : TakingCall}
    (hc : c.Sensible p vol) (hret : (c.execUnder p vol).2 = -1) :
    (c.execUnder p vol).1.view.NoOrphans ↔ ¬c.Strands p vol := by
  cases c with
  | create path attributes now junk => exact fatCreateEntryUnder_iff hv hb hc hret
  | link => exact fatCreateLinkUnder_iff hv hb hc.1 hc.2 hret
  | write path offset buffer buflen writelen now junk =>
    exact fatWriteUnder_iff hv hdots hb hc offset buffer buflen writelen now junk

/-! ## The small volume -/

lemma small_dotsLead : small.view.DotsLead := by
  intro d hd hroot
  exact absurd (small_flat.isDir_eq small_mounted.fatSize_le hd) hroot

/-- Creating a directory in the root of the small volume. -/
def smallTaking : TakingCall :=
  .create [separator, 0x44] ATTR_DIRECTORY ⟨0, 0, 0, 1, 0, 100⟩
    ⟨⟨smallFile, 0, 0, 0⟩, ⟨smallFile, 0, 0, 2⟩⟩

lemma smallTaking_sensible {p : FaultPattern} : smallTaking.Sensible p small :=
  walkEnds_root small_ready (by decide)

/-- The cluster of the new directory cannot be written. -/
def badCluster : FaultPattern := { FaultPattern.none with cluster := fun _ => true }

/-- The entry of the new directory cannot be written. -/
def badSlot : FaultPattern := { FaultPattern.none with slotWrite := true }

/-- When the cluster of a directory cannot be written, nothing is lost. -/
theorem no_orphans_small : (smallTaking.execUnder badCluster small).2 = -1 ∧
    (smallTaking.execUnder badCluster small).1.view.NoOrphans := by
  have hret : (smallTaking.execUnder badCluster small).2 = -1 := by decide +kernel
  refine ⟨hret, (no_orphans_iff small_ready small_dotsLead
    (Store.noOrphans_iff_balanced.mpr small_balanced) smallTaking_sensible hret).mpr ?_⟩
  intro h
  exact absurd h.2.2.2.2.2 (by decide)

/-- When the entry of a directory cannot be written, its cluster is lost. -/
theorem orphan_small : Ready small ∧ small.view.DotsLead ∧ small.view.NoOrphans ∧
    smallTaking.Sensible badSlot small ∧ (smallTaking.execUnder badSlot small).2 = -1 ∧
    small.view.next 5 = 0 ∧ (smallTaking.execUnder badSlot small).1.view.next 5 ≠ 0 ∧
    ¬(smallTaking.execUnder badSlot small).1.view.NoOrphans := by
  have hb := Store.noOrphans_iff_balanced.mpr small_balanced
  have hret : (smallTaking.execUnder badSlot small).2 = -1 := by decide +kernel
  refine ⟨small_ready, small_dotsLead, hb, smallTaking_sensible, hret, by decide +kernel,
    by decide +kernel, fun h => ?_⟩
  have hslot : ((locateEntryUnder badSlot small [separator, 0x44]
      ⟨⟨smallFile, 0, 0, 0⟩, ⟨smallFile, 0, 0, 2⟩⟩).bind (·.slot)).isSome = true := by
    decide +kernel
  obtain ⟨place, hplace⟩ := Option.isSome_iff_exists.mp hslot
  obtain ⟨loc, hloc, hfound⟩ := Option.bind_eq_some_iff.mp hplace
  refine (fatCreateEntryUnder_iff small_ready hb smallTaking_sensible hret).mp h ?_
  exact ⟨by decide, by decide, ⟨loc, place, hloc, hfound⟩, by decide,
    ⟨5, by constructor <;> decide, by decide⟩, rfl⟩

end DiegOS.Fat
