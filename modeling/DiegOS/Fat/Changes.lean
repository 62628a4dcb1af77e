import DiegOS.Fat.Operations
import DiegOS.Fat.View

/-!
# Changes of a store

The abstract operations of a volume: what creating, linking, renaming,
truncating, deleting and writing do to the store, without the search for the
entry and without return codes.  Each of them updates one slot.

Main results:

- Theorem `Store.Change.update`: every abstract operation is an update of
  one slot, so it keeps a sound store sound.
-/

namespace DiegOS.Fat

open Lib

namespace Store

variable {s s' : Store}

/-- The slot is the first free one of its cluster. -/
def FirstFree (s : Store) (k i : Nat) : Prop :=
  ¬Live (s.entry k i) ∧ ∀ j < i, Live (s.entry k j)

/-- Some slot of the directory is free. -/
def HasRoom (s : Store) (d : Nat) : Prop :=
  ∃ l k i, s.Chain d l ∧ k ∈ l ∧ i < s.slots ∧ ¬Live (s.entry k i)

/-- No entry of the directory in front of the never used ones carries the name. -/
def Admits (s : Store) (d : Nat) (n : DirName) : Prop :=
  ∀ l k i, s.Chain d l → k ∈ l → i < s.slots → Live (s.entry k i) →
    (∀ m ≤ i, (s.entry k m).mark ≠ DIR_ENTRY_LAST_FREE) → (s.entry k i).dirName ≠ n

/-- Mark clusters as cleared. -/
def clear (s : Store) (m : List Nat) : Store :=
  { s with next := fun c => if c ∈ m then FAT_CLEARED else s.next c }

/-- Start a chain of one cluster with the given bytes. -/
def alloc (s : Store) (f : Nat) (buf : Bytes) : Store :=
  (s.putCluster f buf).setNext f FAT_EOC_WRITTEN

lemma not_stop_zero : ¬Stop 0 := by
  unfold Stop FAT_EOC
  decide

lemma stop_written : Stop FAT_EOC_WRITTEN := by
  unfold Stop FAT_EOC FAT_EOC_WRITTEN
  decide

/-- A free cluster belongs to nobody. -/
lemma unowned_of_free {f : Nat} (hf : s.next f = 0) : s.Unowned f := by
  have hchain : ∀ c l, s.Chain c l → f ∉ l := by
    intro c l hl hmem
    have hnext := hl.next_of_mem hmem
    rw [hf] at hnext
    rcases hnext with hnode | hstop
    · exact absurd hnode.1 (by omega)
    · exact absurd hstop not_stop_zero
  intro o l ho
  rcases o with _ | ⟨k, i⟩
  · exact hchain _ l ho
  · rcases ho.2 with ⟨-, rfl⟩ | hl
    · simp
    · exact hchain _ l hl

/-- The cluster of a slot belongs to its directory. -/
lemma Sound.ne_of_unowned (hs : s.Sound) {k i f : Nat} (hslot : s.Slot k i)
    (hf : s.Unowned f) : f ≠ k := by
  rintro rfl
  obtain ⟨d, hd, ⟨l, hl, hk⟩, -⟩ := hslot
  obtain ⟨o, ho⟩ := Sound.dirOwner_of_isDir d hd
  obtain ⟨m, hm, hom⟩ := hs.owns_of_dirOwner ho
  obtain rfl := hs.chain_unique hl hm
  exact hf o l hom hk

/-! ## Updates -/

/-- Replacing an entry by one with the same clusters. -/
lemma update_putEntry {k i : Nat} {l : List Nat} {e : DirEntry} (hslot : s.Slot k i)
    (hold : s.Holds k i l) (hlive : Live e → s.Clusters e l) (hfree : ¬Live e → l = [])
    (hdir : Live e → e.isDir = true →
      Live (s.entry k i) ∧ (s.entry k i).isDir = true ∧ e.clus = (s.entry k i).clus)
    (hsize : Live e → e.isLink = false → e.size ≤ l.length * s.bpc) :
    Update s (s.putEntry k i e) k i l l where
  fatSize_eq := rfl
  root_eq := rfl
  slots_eq := rfl
  bpc_eq := rfl
  slot := hslot
  old := hold
  new := by
    rw [Holds, entry_putEntry_self]
    exact ⟨hlive, hfree⟩
  fresh := fun c hc hnot => absurd hc hnot
  next_frame := fun _ _ _ => rfl
  byte_frame := fun c _ hck => byte_putEntry_ne i e hck
  slot_frame := fun j hj _ => entry_putEntry_ne e (by simpa using hj)
  dir := by
    rw [entry_putEntry_self, KeptDir, entry_putEntry_self]
    intro hl hattr
    obtain ⟨hlive₀, hattr₀, hclus⟩ := hdir hl hattr
    exact .inl ⟨hlive₀, hattr₀, hclus, rfl, fun c hck => byte_putEntry_ne i e hck⟩
  size := by
    rw [entry_putEntry_self]
    exact hsize

/-- Dropping the clusters of an entry; some of them are marked as cleared. -/
lemma update_clear {k i : Nat} {l m : List Nat} {e : DirEntry} (hslot : s.Slot k i)
    (hold : s.Holds k i l) (hm : m ⊆ l)
    (he : Live e → e.clus = 0 ∧ e.isDir = false ∧ e.size = 0) :
    Update s ((s.clear m).putEntry k i e) k i l [] where
  fatSize_eq := rfl
  root_eq := rfl
  slots_eq := rfl
  bpc_eq := rfl
  slot := hslot
  old := hold
  new := by
    rw [Holds, entry_putEntry_self]
    exact ⟨fun hl => .inl ⟨(he hl).1, rfl⟩, fun _ => rfl⟩
  fresh := fun c hc => by simp at hc
  next_frame := fun c hc _ => if_neg fun hcm => hc (hm hcm)
  byte_frame := fun c _ hck => byte_putEntry_ne i e hck
  slot_frame := fun j hj _ => entry_putEntry_ne e (by simpa using hj)
  dir := by
    rw [entry_putEntry_self]
    intro hl hattr
    rw [(he hl).2.1] at hattr
    contradiction
  size := by
    rw [entry_putEntry_self]
    intro hl _
    rw [(he hl).2.2]
    exact Nat.zero_le _

lemma entry_alloc_self {f j : Nat} {buf : Bytes} (hfit : entrySize * s.slots ≤ s.bpc)
    (hj : j < s.slots) : (s.alloc f buf).entry f j = entryOf buf j := by
  refine DirEntry.decode_congr fun a ha => ?_
  have hle : entrySize * (j + 1) ≤ entrySize * s.slots := Nat.mul_le_mul_left _ hj
  exact byte_putCluster_self buf (by rw [Nat.mul_add] at hle; omega)

/-- Filling a free slot with an entry that owns one fresh cluster. -/
lemma update_alloc (hs : s.Sound) {k i f : Nat} {e : DirEntry} {buf : Bytes}
    (hslot : s.Slot k i) (hfree : ¬Live (s.entry k i)) (hf : s.Node f) (hnext : s.next f = 0)
    (hlive : Live e) (hclus : e.clus = f)
    (hdir : e.isDir = true → (entryOf buf 0).dirName = dotName ∧
      (entryOf buf 1).dirName = dotdotName ∧ ∀ j, 2 ≤ j → ¬Live (entryOf buf j))
    (hsize : e.isLink = false → e.size = 0) :
    Update s ((s.alloc f buf).putEntry k i e) k i [] [f] := by
  have hunowned : s.Unowned f := unowned_of_free hnext
  have hfk : f ≠ k := hs.ne_of_unowned hslot hunowned
  have hentry : ∀ j < s.slots, ((s.alloc f buf).putEntry k i e).entry f j = entryOf buf j := by
    intro j hj
    rw [entry_putEntry_ne e (by simp [hfk]), entry_alloc_self hs.slots_fit hj]
  have hlast : ((s.alloc f buf).putEntry k i e).next f = FAT_EOC_WRITTEN := next_setNext_self _ _
  constructor
  case fatSize_eq => rfl
  case root_eq => rfl
  case slots_eq => rfl
  case bpc_eq => rfl
  case slot => exact hslot
  case old => exact ⟨fun hl => absurd hl hfree, fun _ => rfl⟩
  case new =>
    rw [Holds, entry_putEntry_self]
    refine ⟨fun _ => .inr ?_, fun hnot => absurd hlive hnot⟩
    rw [hclus]
    exact LinkChain.singleton hf (by rw [hlast]; exact stop_written)
  case fresh =>
    intro c hc _
    rw [List.mem_singleton] at hc
    exact hc ▸ hunowned
  case next_frame =>
    intro c _ hc
    exact next_setNext_ne _ (by simpa using hc)
  case byte_frame =>
    intro c hc hck
    rw [byte_putEntry_ne i e hck]
    exact byte_putCluster_ne buf (by simpa using hc)
  case slot_frame =>
    intro j hj _
    rw [entry_putEntry_ne e (by simpa using hj), entry, entry]
    exact congrArg (entryOf · j) (byte_putCluster_ne buf hfk.symm)
  case dir =>
    rw [entry_putEntry_self]
    intro _ hattr
    obtain ⟨hdot, hdotdot, hrest⟩ := hdir hattr
    have htwo := hs.two_le_slots
    refine .inr ⟨f, rfl, hunowned, ?_, ?_, fun j hj hjs => ?_⟩
    · rw [hentry 0 (by omega)]
      exact hdot
    · rw [hentry 1 (by omega)]
      exact hdotdot
    · rw [hentry j hjs]
      exact hrest j hj
  case size =>
    rw [entry_putEntry_self]
    intro _ hlink
    rw [hsize hlink]
    exact Nat.zero_le _

end Store

/-! ## A new directory -/

lemma entryOf_directoryBuffer_zero (e : DirEntry) (p : Nat) :
    entryOf (directoryBuffer e p) 0 = { e with dirName := dotName } := by
  rw [← DirEntry.decode_encode { e with dirName := dotName }]
  refine DirEntry.decode_congr fun j hj => ?_
  rw [shift_apply, directoryBuffer, memcpy_apply_not_mem (by omega),
    memcpy_apply_mem (by omega) (by omega)]
  congr 1
  omega

lemma entryOf_directoryBuffer_one (e : DirEntry) (p : Nat) :
    entryOf (directoryBuffer e p) 1 =
      { e with dirName := dotdotName, dirFstClus := UInt16.ofNat p } := by
  rw [← DirEntry.decode_encode { e with dirName := dotdotName, dirFstClus := UInt16.ofNat p }]
  refine DirEntry.decode_congr fun j hj => ?_
  rw [shift_apply, directoryBuffer, memcpy_apply_mem (by omega) (by omega)]
  congr 1
  omega

lemma mark_directoryBuffer_rest (e : DirEntry) (p : Nat) {j : Nat} (hj : 2 ≤ j) :
    (entryOf (directoryBuffer e p) j).mark = DIR_ENTRY_LAST_FREE := by
  rw [DirEntry.mark, entryOf, DirEntry.decode_dirName _ (by omega), shift_apply, directoryBuffer]
  have hle : entrySize * 2 ≤ entrySize * j := Nat.mul_le_mul_left _ hj
  rw [memcpy_apply_not_mem (by omega), memcpy_apply_not_mem (by omega)]
  rfl

/-! ## The abstract operations -/

lemma LegalName.live {e : DirEntry} (h : LegalName e.dirName) : Live e := h.mark

lemma LegalName.live_rename {n : DirName} (h : LegalName n) (e : DirEntry) :
    Live { e with dirName := n } :=
  LegalName.live (e := { e with dirName := n }) h

namespace Store

/-- What an operation did: where it worked, and the data that tells runs apart. -/
inductive Action where
  | create (d : Nat)
  | link (d : Nat)
  | mkdir (d p : Nat)
  | rename (k i : Nat) (n : DirName)
  | truncate (k i : Nat)
  | delete (k i : Nat)
  | write (k i : Nat)

/-- `Change s a s'`: the store `s'` after action `a`. -/
inductive Change (s : Store) : Action → Store → Prop
  | create {d k i : Nat} {e : DirEntry} (hdir : s.IsDir d) (hin : s.InDir d k i)
      (hfirst : s.FirstFree k i) (hname : LegalName e.dirName) (hadmits : s.Admits d e.dirName)
      (hclus : e.clus = 0) (hsize : e.size = 0) (hattr : e.isDir = false) :
      Change s (.create d) (s.putEntry k i e)
  | link {d k i f : Nat} {e : DirEntry} {buf : Bytes} (hdir : s.IsDir d) (hin : s.InDir d k i)
      (hfirst : s.FirstFree k i) (hname : LegalName e.dirName) (hadmits : s.Admits d e.dirName)
      (hnode : s.Node f) (hfree : s.next f = 0) (hclus : e.clus = f) (hattr : e.isDir = false)
      (hlink : e.isLink = true) : Change s (.link d) ((s.alloc f buf).putEntry k i e)
  | mkdir {d k i f p : Nat} {e : DirEntry} (hdir : s.IsDir d) (hin : s.InDir d k i)
      (hfirst : s.FirstFree k i) (hname : LegalName e.dirName) (hadmits : s.Admits d e.dirName)
      (hnode : s.Node f) (hfree : s.next f = 0) (hclus : e.clus = f) (hattr : e.isDir = true)
      (hsize : e.size = 0) :
      Change s (.mkdir d p) ((s.alloc f (directoryBuffer e p)).putEntry k i e)
  | rename {k i : Nat} {n : DirName} (hitem : s.Item k i) (hname : LegalName n) :
      Change s (.rename k i n) (s.putEntry k i { s.entry k i with dirName := n })
  | truncate {k i : Nat} {l m : List Nat} (hitem : s.Item k i)
      (hattr : (s.entry k i).isDir = false) (hl : s.Clusters (s.entry k i) l) (hm : m ⊆ l) :
      Change s (.truncate k i)
        ((s.clear m).putEntry k i { s.entry k i with dirFstClus := 0, dirFileSize := 0 })
  | delete {k i : Nat} {l m : List Nat} (hitem : s.Item k i)
      (hl : s.Clusters (s.entry k i) l) (hm : m ⊆ l) :
      Change s (.delete k i) ((s.clear m).putEntry k i
        { s.entry k i with dirName := (s.entry k i).dirName.set 0 DIR_ENTRY_FREE mark_lt })
  | write {s' : Store} {k i : Nat} {l new : List Nat} (hitem : s.Item k i)
      (hattr : (s.entry k i).isDir = false) (hu : Update s s' k i l (l ++ new))
      (hname : (s'.entry k i).dirName = (s.entry k i).dirName)
      (hkeep : (s'.entry k i).dirAttr = (s.entry k i).dirAttr)
      (hfree : ∀ c ∈ new, s.next c = 0) : Change s (.write k i) s'

variable {s s' : Store}

lemma not_live_freed (e : DirEntry) :
    ¬Live { e with dirName := e.dirName.set 0 DIR_ENTRY_FREE mark_lt } := by
  intro hlive
  exact hlive.1 (by simp [DirEntry.mark])

/-- A new name changes neither the clusters nor the kind nor the size of an entry. -/
lemma rename_eqs (e : DirEntry) (n : DirName) :
    DirEntry.clus { e with dirName := n } = e.clus ∧
      DirEntry.isDir { e with dirName := n } = e.isDir ∧
      DirEntry.isLink { e with dirName := n } = e.isLink ∧
      DirEntry.size { e with dirName := n } = e.size :=
  ⟨rfl, rfl, rfl, rfl⟩

/-- A truncated entry has no clusters and no bytes, and keeps its kind. -/
lemma truncate_eqs (e : DirEntry) :
    DirEntry.clus { e with dirFstClus := 0, dirFileSize := 0 } = 0 ∧
      DirEntry.isDir { e with dirFstClus := 0, dirFileSize := 0 } = e.isDir ∧
      DirEntry.size { e with dirFstClus := 0, dirFileSize := 0 } = 0 :=
  ⟨rfl, rfl, rfl⟩

lemma Item.holds {k i : Nat} {l : List Nat} (h : s.Item k i)
    (hl : s.Clusters (s.entry k i) l) : s.Holds k i l :=
  ⟨fun _ => hl, fun hnot => absurd h.2 hnot⟩

lemma update_create {d k i : Nat} {e : DirEntry} (hdir : s.IsDir d) (hin : s.InDir d k i)
    (hfirst : s.FirstFree k i) (hclus : e.clus = 0) (hsize : e.size = 0)
    (hattr : e.isDir = false) : Update s (s.putEntry k i e) k i [] [] := by
  refine update_putEntry ⟨d, hdir, hin⟩ ⟨fun hlive => absurd hlive hfirst.1, fun _ => rfl⟩
    (fun _ => .inl ⟨hclus, rfl⟩) (fun _ => rfl) (fun _ hd => ?_) (fun _ _ => by simp [hsize])
  rw [hattr] at hd
  contradiction

lemma update_link (hs : s.Sound) {d k i f : Nat} {e : DirEntry} (buf : Bytes)
    (hdir : s.IsDir d) (hin : s.InDir d k i) (hfirst : s.FirstFree k i)
    (hname : LegalName e.dirName) (hnode : s.Node f) (hfree : s.next f = 0) (hclus : e.clus = f)
    (hattr : e.isDir = false) (hlink : e.isLink = true) :
    Update s ((s.alloc f buf).putEntry k i e) k i [] [f] := by
  refine update_alloc hs ⟨d, hdir, hin⟩ hfirst.1 hnode hfree hname.live hclus
    (fun hd => ?_) (fun hl => ?_)
  · rw [hattr] at hd
    contradiction
  · rw [hlink] at hl
    contradiction

lemma update_mkdir (hs : s.Sound) {d k i f p : Nat} {e : DirEntry} (hdir : s.IsDir d)
    (hin : s.InDir d k i) (hfirst : s.FirstFree k i) (hname : LegalName e.dirName)
    (hnode : s.Node f) (hfree : s.next f = 0) (hclus : e.clus = f) (hsize : e.size = 0) :
    Update s ((s.alloc f (directoryBuffer e p)).putEntry k i e) k i [] [f] := by
  refine update_alloc hs ⟨d, hdir, hin⟩ hfirst.1 hnode hfree hname.live hclus
    (fun _ => ⟨?_, ?_, fun j hj h => h.2 (mark_directoryBuffer_rest e p hj)⟩) (fun _ => hsize)
  · rw [entryOf_directoryBuffer_zero]
  · rw [entryOf_directoryBuffer_one]

lemma update_rename (hs : s.Sound) {k i : Nat} {n : DirName} {l : List Nat}
    (hitem : s.Item k i) (hname : LegalName n) (hl : s.Clusters (s.entry k i) l) :
    Update s (s.putEntry k i { s.entry k i with dirName := n }) k i l l := by
  obtain ⟨m, hm, -, hsize⟩ := hs.item_chain k i hitem
  obtain rfl := hs.clusters_unique hl hm
  have hkeep := rename_eqs (s.entry k i) n
  refine update_putEntry hitem.1 (hitem.holds hl) (fun _ => ?_)
    (fun hnot => absurd (hname.live_rename _) hnot) (fun _ hattr => ?_) (fun _ hlink => ?_)
  · rw [Clusters, hkeep.1]
    exact hl
  · rw [hkeep.2.1] at hattr
    exact ⟨hitem.2, hattr, hkeep.1⟩
  · rw [hkeep.2.2.1] at hlink
    rw [hkeep.2.2.2]
    exact hsize hlink

lemma update_truncate {k i : Nat} {l m : List Nat} (hitem : s.Item k i)
    (hattr : (s.entry k i).isDir = false) (hl : s.Clusters (s.entry k i) l) (hm : m ⊆ l) :
    Update s ((s.clear m).putEntry k i { s.entry k i with dirFstClus := 0, dirFileSize := 0 })
      k i l [] := by
  have hkeep := truncate_eqs (s.entry k i)
  refine update_clear hitem.1 (hitem.holds hl) hm fun _ => ?_
  rw [hkeep.1, hkeep.2.1, hkeep.2.2]
  exact ⟨rfl, hattr, rfl⟩

lemma update_delete {k i : Nat} {l m : List Nat} (hitem : s.Item k i)
    (hl : s.Clusters (s.entry k i) l) (hm : m ⊆ l) :
    Update s ((s.clear m).putEntry k i { s.entry k i with
      dirName := (s.entry k i).dirName.set 0 DIR_ENTRY_FREE mark_lt }) k i l [] :=
  update_clear hitem.1 (hitem.holds hl) hm fun hlive => absurd hlive (not_live_freed _)

/-- Every abstract operation updates one slot. -/
theorem Change.update (hs : s.Sound) {a : Action} (h : Change s a s') :
    ∃ k i l l', Update s s' k i l l' := by
  cases h with
  | create hdir hin hfirst _ _ hclus hsize hattr =>
    exact ⟨_, _, _, _, update_create hdir hin hfirst hclus hsize hattr⟩
  | link hdir hin hfirst hname _ hnode hfree hclus hattr hlink =>
    exact ⟨_, _, _, _, update_link hs _ hdir hin hfirst hname hnode hfree hclus hattr hlink⟩
  | mkdir hdir hin hfirst hname _ hnode hfree hclus _ hsize =>
    exact ⟨_, _, _, _, update_mkdir hs hdir hin hfirst hname hnode hfree hclus hsize⟩
  | @rename k i n hitem hname =>
    obtain ⟨l, hl, -⟩ := hs.item_chain k i hitem
    exact ⟨_, _, _, _, update_rename hs hitem hname hl⟩
  | truncate hitem hattr hl hm => exact ⟨_, _, _, _, update_truncate hitem hattr hl hm⟩
  | delete hitem hl hm => exact ⟨_, _, _, _, update_delete hitem hl hm⟩
  | write _ _ hu _ _ _ => exact ⟨_, _, _, _, hu⟩

/-- Every abstract operation keeps a sound store sound. -/
lemma Change.sound (hs : s.Sound) {a : Action} (h : Change s a s') : s'.Sound := by
  obtain ⟨k, i, l, l', hu⟩ := h.update hs
  exact hu.sound hs

end Store

end DiegOS.Fat
