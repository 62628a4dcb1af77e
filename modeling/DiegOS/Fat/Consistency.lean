import DiegOS.Fat.Calls
import DiegOS.Fat.Directories
import DiegOS.Fat.Fresh

/-!
# Consistency of a volume over its life

A new volume is tidy and its names are distinct, and both survive every proper
call under a condition on the calls that introduce them: a new directory must
find the cluster of its parent in a field that `FAT_create_entry` never sets,
and a rename must not pick a name that is in use, because its duplicate check
looks into the wrong directory.

Main results:

- Theorem `Store.Change.file_frame`: only a write to a file changes its
  bytes.
- Theorem `consistent_of_run`: chains, directories and dot entries stay
  consistent in every run of such calls on a new volume.
- Theorem `names_distinct_of_run`: so do the names of every directory.
-/

namespace DiegOS.Fat

open Lib

namespace Store

variable {s s' : Store}

/-- Every live entry has a chain of its own inside the data clusters that ends with an end
mark, no chain runs into a free cluster, the dot entries name directories in use, and the
clusters of directories hold entries only. -/
structure Consistent (s : Store) : Prop where
  chain : ∀ k i, s.Item k i → ∃ l, s.Clusters (s.entry k i) l ∧ l.Nodup ∧
    (∀ c ∈ l, s.Node c) ∧ ∀ c ∈ l.getLast?, Stop (s.next c)
  disjoint : ∀ o o' l l', s.Owns o l → s.Owns o' l' → o ≠ o' → l.Disjoint l'
  linked : ∀ o l c, s.Owns o l → c ∈ l → s.next c ∈ l ∨ Stop (s.next c)
  used : ∀ o l c, s.Owns o l → c ∈ l → s.next c ≠ FAT_UNUSED
  dots : ∀ d, s.IsDir d → d ≠ s.root → (s.entry d 0).clus = d ∧ s.IsDir (s.entry d 1).clus
  entries : ∀ d m k i, s.IsDir d → s.Chain d m → k ∈ m → i < s.slots → EntrySlot (s.entry k i)

/-- The chain behind an owner. -/
lemma Owns.cases {o : Option (Nat × Nat)} {l : List Nat} (h : s.Owns o l) :
    l = [] ∨ ∃ c, s.Chain c l := by
  rcases o with _ | ⟨k, i⟩
  · exact .inr ⟨_, h⟩
  · rcases h.2 with ⟨-, rfl⟩ | hl
    · exact .inl rfl
    · exact .inr ⟨_, hl⟩

variable (hs : s.Sound)
include hs

/-- A sound and tidy store is consistent. -/
lemma Tidy.consistent (ht : s.Tidy) : s.Consistent where
  chain := by
    intro k i hitem
    obtain ⟨l, hl, -⟩ := hs.item_chain k i hitem
    rcases hl with ⟨hz, rfl⟩ | hl
    · exact ⟨[], .inl ⟨hz, rfl⟩, List.nodup_nil, by simp, by simp⟩
    · refine ⟨l, .inr hl, LinkChain.nodup (separated hs.size_le) hl, hl.node_of_mem,
        fun c hc => ?_⟩
      have hpos := hl.length_pos
      rw [List.getLast?_eq_getElem?] at hc
      exact hl.stop_getElem hc (by omega)
  disjoint := hs.disjoint
  linked := by
    intro o l c ho hc
    rcases ho.cases with rfl | ⟨x, hl⟩
    · simp at hc
    · exact hl.next_mem_of_mem hc
  used := by
    intro o l c ho hc hzero
    exact unowned_of_free hzero o l ho hc
  dots := by
    intro d hd hroot
    refine ⟨ht.dot d hd hroot, ?_⟩
    cases hd with
    | root => exact absurd rfl hroot
    | @sub p k i hp hin hlive hattr =>
      rw [ht.dotdot p k i hp hin hlive hattr]
      exact hp
  entries := ht.slots

/-- The cluster of a slot belongs to no file. -/
lemma Sound.slot_not_file {k i k₂ i₂ c : Nat} {l₂ : List Nat}
    (hslot : s.Slot k i) (hitem : s.Item k₂ i₂) (hfile : (s.entry k₂ i₂).isDir = false)
    (hl : s.Clusters (s.entry k₂ i₂) l₂) (hc : c ∈ l₂) : c ≠ k := by
  rintro rfl
  obtain ⟨d, hd, hin⟩ := hslot
  have ho : s.Owns (some (k₂, i₂)) l₂ := ⟨hitem, hl⟩
  refine hs.slot_not_mem hd hin ho ?_ hc
  rintro ⟨-, hattr, -⟩
  rw [hfile] at hattr
  contradiction

/-- An update keeps the bytes of every other file. -/
theorem Update.file_frame {k i k₂ i₂ c : Nat} {l l' l₂ : List Nat}
    (hu : Update s s' k i l l') (hitem : s.Item k₂ i₂) (hfile : (s.entry k₂ i₂).isDir = false)
    (hl : s.Clusters (s.entry k₂ i₂) l₂) (hne : (k₂, i₂) ≠ (k, i)) (hc : c ∈ l₂) :
    s'.byte c = s.byte c := by
  have ho : s.Owns (some (k₂, i₂)) l₂ := ⟨hitem, hl⟩
  have hnot := (hu.disjoint_other hs ho (by simpa using hne)).2 hc
  exact hu.byte_frame c hnot (hs.slot_not_file hu.slot hitem hfile hl hc)

/-- Only a write to a file changes its bytes. -/
theorem Change.file_frame {a : Action} (h : Change s a s') {k i c : Nat}
    {l : List Nat} (hitem : s.Item k i) (hfile : (s.entry k i).isDir = false)
    (hl : s.Clusters (s.entry k i) l) (ha : a ≠ .write k i) (hc : c ∈ l) :
    s'.byte c = s.byte c := by
  -- A slot that is free is not the one of the file.
  have hfree : ∀ {k₁ i₁ : Nat}, s.FirstFree k₁ i₁ → (k, i) ≠ (k₁, i₁) := by
    rintro k₁ i₁ hfirst heq
    obtain ⟨rfl, rfl⟩ : k = k₁ ∧ i = i₁ := by simpa using heq
    exact hfirst.1 hitem.2
  cases h with
  | create hdir hin hfirst _ _ hclus hsize hattr =>
    exact (update_create hdir hin hfirst hclus hsize hattr).file_frame hs hitem hfile hl
      (hfree hfirst) hc
  | link hdir hin hfirst hname _ hnode hfree' hclus hattr hlink =>
    exact (update_link hs _ hdir hin hfirst hname hnode hfree' hclus hattr hlink).file_frame hs
      hitem hfile hl (hfree hfirst) hc
  | mkdir hdir hin hfirst hname _ hnode hfree' hclus _ hsize =>
    exact (update_mkdir hs hdir hin hfirst hname hnode hfree' hclus hsize).file_frame hs hitem
      hfile hl (hfree hfirst) hc
  | rename hitem₁ hname =>
    exact byte_putEntry_ne _ _ (hs.slot_not_file hitem₁.1 hitem hfile hl hc)
  | truncate hitem₁ hattr hl₁ hm =>
    exact (update_truncate hitem₁ hattr hl₁ hm).byte_frame c (by simp)
      (hs.slot_not_file hitem₁.1 hitem hfile hl hc)
  | delete hitem₁ hl₁ hm =>
    exact (update_delete hitem₁ hl₁ hm).byte_frame c (by simp)
      (hs.slot_not_file hitem₁.1 hitem hfile hl hc)
  | @write _ k₁ i₁ _ _ hitem₁ _ hu _ _ _ =>
    refine hu.file_frame hs hitem hfile hl (fun heq => ha ?_) hc
    obtain ⟨rfl, rfl⟩ : k = k₁ ∧ i = i₁ := by simpa using heq
    rfl

end Store

/-! ## New volumes -/

/-- The label of an accepted partition makes a legal name. -/
lemma legalName_volumeName {label : Vector UInt8 16} (h : ∀ c ∈ label.toList, check c = false) :
    LegalName (volumeName label) := by
  intro i hi
  have hget : (volumeName label)[i] = label.toList.getD i 0x20 := by
    simp [volumeName]
  rw [hget, List.getD_eq_getElem?_getD]
  cases hsome : label.toList[i]? with
  | none => decide
  | some c => exact h c (List.mem_of_getElem? hsome)

section New

variable {d : Disk} {part : FATPartition} {env : FormatEnv} {vol : FATVolume}

lemma Fresh.legal (h : Fresh d part env vol) : LegalName (volumeName part.label) := by
  obtain ⟨part', d', vol₀, heap, hformat, -⟩ := h
  exact legalName_volumeName (fatFormat_accepts.mp hformat).1.label

variable (h : FreshView part env vol)
include h

/-- The slots of a new volume are those of its root cluster. -/
lemma FreshView.slot {c k : Nat} {m : List Nat}
    (hd : vol.view.IsDir c) (hm : vol.view.Chain c m) (hk : k ∈ m) :
    c = vol.view.root ∧ k = vol.view.root := by
  have hsize := h.ready.sound.size_le
  obtain rfl := h.flat.isDir_eq hsize hd
  rw [h.flat.chain_eq hsize hm, List.mem_singleton] at hk
  exact ⟨rfl, hk⟩

lemma FreshView.tidy (hlegal : LegalName (volumeName part.label)) :
    vol.view.Tidy where
  dot := fun c hc hroot => absurd (h.flat.isDir_eq h.ready.sound.size_le hc) hroot
  dotdot := by
    intro c k i hc hin hlive hattr
    obtain ⟨m, hm, hk⟩ := hin.1
    obtain ⟨rfl, rfl⟩ := h.slot hc hm hk
    rw [h.flat.no_dir i hin.2.1 hlive] at hattr
    contradiction
  slots := by
    intro c m k i hc hm hk hi
    obtain ⟨rfl, rfl⟩ := h.slot hc hm hk
    rcases Nat.eq_zero_or_pos i with rfl | hpos
    · rw [h.label]
      exact .inr (.inr (by rw [volumeEntry, newEntry_dirName]; exact hlegal))
    · exact .inl (h.rest i hpos hi)

lemma FreshView.distinct : vol.view.Distinct where
  names := by
    intro c m k i k₂ i₂ hc hm hk hi hk₂ hi₂ hlive hlive₂ _
    obtain ⟨rfl, rfl⟩ := h.slot hc hm hk
    obtain ⟨-, rfl⟩ := h.slot hc hm hk₂
    have hzero : ∀ j < vol.view.slots, Live (vol.view.entry vol.view.root j) → j = 0 := by
      intro j hj hlivej
      by_contra hne
      exact hlivej.2 (h.rest j (Nat.pos_of_ne_zero hne) hj)
    rw [hzero i hi hlive, hzero i₂ hi₂ hlive₂]
  tail := by
    intro c m k i j hc hm hk hij hj hzero
    obtain ⟨rfl, rfl⟩ := h.slot hc hm hk
    exact h.rest j (by omega) hj

end New

/-! ## Runs -/

namespace Call

/-- A call that makes a directory finds the first cluster of the parent in the field of the
search result that it never sets. -/
def TellsParent (vol : FATVolume) : Call → Prop
  | create path attributes _ junk => attributes &&& ATTR_DIRECTORY ≠ 0 →
      ∀ d, parentCluster vol path junk.search = some d → junk.create.container = d
  | _ => True

/-- A rename picks a name that no other live entry of the directory carries. -/
def PicksFreeName (vol : FATVolume) : Call → Prop
  | rename path newname junk => ∀ k i n, Leads vol path junk k i →
      fatBuildDIRName newname = some n → vol.view.NameFree k i n
  | _ => True

/-- The one parameter of a new directory. -/
lemma TellsParent.mkdir {vol : FATVolume} {c : Call} {a : Store.Action} (h : c.TellsParent vol)
    (hperf : c.Performs vol a) : ∀ d p, a = .mkdir d p → p = d := by
  rintro d p rfl
  cases c with
  | create path attributes now junk =>
    obtain ⟨d', hpar, hcreate | ⟨hattr, hmkdir⟩⟩ := hperf
    · contradiction
    · obtain ⟨rfl, rfl⟩ : d = d' ∧ p = junk.create.container := by simpa using hmkdir
      exact h hattr d hpar
  | link =>
    obtain ⟨_, -, heq⟩ := hperf
    contradiction
  | rename =>
    obtain ⟨_, _, _, -, -, heq⟩ := hperf
    contradiction
  | truncate | delete | write =>
    obtain ⟨_, _, -, heq⟩ := hperf
    contradiction

/-- The one parameter of a rename. -/
lemma PicksFreeName.rename {vol : FATVolume} {c : Call} {a : Store.Action}
    (h : c.PicksFreeName vol) (hperf : c.Performs vol a) :
    ∀ k i n, a = .rename k i n → vol.view.NameFree k i n := by
  rintro k i n rfl
  cases c with
  | create =>
    obtain ⟨_, -, heq | ⟨-, heq⟩⟩ := hperf <;> contradiction
  | link =>
    obtain ⟨_, -, heq⟩ := hperf
    contradiction
  | rename path newname junk =>
    obtain ⟨k', i', n', hlead, hbuild, heq⟩ := hperf
    obtain ⟨rfl, rfl, rfl⟩ : k = k' ∧ i = i' ∧ n = n' := by simpa using heq
    exact h k i n hlead hbuild
  | truncate | delete | write =>
    obtain ⟨_, _, -, heq⟩ := hperf
    contradiction

end Call

section Run

variable {d : Disk} {part : FATPartition} {env : FormatEnv} {vol vol' : FATVolume}

/-- On a new volume every run of proper calls whose new directories are told their parent
stays consistent, and no such call but a write to a file changes the bytes of that file. -/
theorem consistent_of_run (hw : part.WellSized d) (hfresh : Fresh d part env vol)
    (hrun : CallRuns (fun vol c => c.Proper vol ∧ c.TellsParent vol) vol vol') :
    vol'.view.Consistent ∧
    ∀ c : Call, c.Proper vol' → ∀ k i l, vol'.view.Item k i →
      (vol'.view.entry k i).isDir = false → vol'.view.Clusters (vol'.view.entry k i) l →
      ¬c.Performs vol' (.write k i) → ∀ x ∈ l, (c.after vol').view.byte x = vol'.view.byte x := by
  have hview := hfresh.view hw
  obtain ⟨hv', ht'⟩ := @CallRuns.keeps (fun vol c => c.TellsParent vol) Store.Tidy
    (fun vol c a s hv ht _ hok hperf hchange => hchange.tidy hv.sound ht (hok.mkdir hperf)) _ _
    hview.ready (hview.tidy hfresh.legal) hrun
  refine ⟨ht'.consistent hv'.sound, fun c hc k i l hitem hfile hl hnot x hx => ?_⟩
  rcases (Call.refines hv' hc).store with heq | ⟨a, hperf, hchange⟩
  · rw [heq]
  · exact hchange.file_frame hv'.sound hitem hfile hl (fun ha => hnot (ha ▸ hperf)) hx

/-- On a new volume every run of proper calls that renames to unused names only keeps the
names of every directory distinct. -/
theorem names_distinct_of_run (hw : part.WellSized d) (hfresh : Fresh d part env vol)
    (hrun : CallRuns (fun vol c => c.Proper vol ∧ c.PicksFreeName vol) vol vol') :
    ∀ c m k i k₂ i₂, vol'.view.IsDir c → vol'.view.Chain c m → k ∈ m → i < vol'.view.slots →
      k₂ ∈ m → i₂ < vol'.view.slots → Live (vol'.view.entry k i) →
      Live (vol'.view.entry k₂ i₂) →
      (vol'.view.entry k i).dirName = (vol'.view.entry k₂ i₂).dirName → (k, i) = (k₂, i₂) := by
  have hview := hfresh.view hw
  obtain ⟨-, hd'⟩ := @CallRuns.keeps (fun vol c => c.PicksFreeName vol) Store.Distinct
    (fun vol c a s hv hd _ hok hperf hchange => hchange.distinct hv.sound hd (hok.rename hperf))
    _ _ hview.ready hview.distinct hrun
  exact hd'.names

end Run

/-! ## Eight sectors -/

/-- The new volume of eight sectors. -/
def eight : FATVolume :=
  freshVolume ((blankDisk 8).withSectors ((plainPartition 7).writes 512 plainEnv))
    (plainPartition 7) (zeroVolume (blankDisk 8)) blank

lemma wellSized_eight : (plainPartition 7).WellSized (blankDisk 8) :=
  ⟨fun _ _ _ => rfl, by decide, by decide, by decide, by decide,
    ⟨⟨by decide, by decide⟩, by decide, by decide, by decide⟩, by decide, by decide, by decide⟩

lemma fresh_eight : Fresh (blankDisk 8) (plainPartition 7) plainEnv eight := by
  have hmount := formatted_eight.mount_eq
    ((plainPartition 7).tableSectors_eq (blankDisk 8).bytesPerSector plainEnv).symm
    wellSized_eight.fits.inside (wellSized_eight.faultless .read)
    (show (zeroVolume (blankDisk 8)).flags &&& FLAG_MOUNTED = 0 from Nat.zero_and _) blank
  rw [if_pos wellSized_eight.fits.table_pos] at hmount
  exact ⟨_, _, _, _, fatFormat_accepts.mpr ⟨formatted_eight, rfl⟩, hmount⟩

/-- Making a directory in the root of the new volume. -/
lemma smallMkdir_tells : smallMkdir.TellsParent eight := by
  intro _ d hd
  have hroot : parentCluster eight [separator, 0x44] ⟨smallFile, 0, 0, 0⟩ = some 2 := by
    decide +kernel
  rw [hroot] at hd
  exact Option.some.inj hd

/-- A directory made on the new volume leaves it consistent. -/
theorem consistent_of_run_eight :
    (smallMkdir.exec eight).2 = 0 ∧ (smallMkdir.after eight).view.Consistent :=
  ⟨by decide +kernel, (consistent_of_run wellSized_eight fresh_eight
    (callRuns_single ⟨smallMkdir_proper eight, smallMkdir_tells⟩)).1⟩

/-- Deleting the dot entry of a new directory. -/
def deleteDot : Call := .delete [separator, 0x44, separator, 0x2E] ⟨smallFile, 0, 0, 0⟩

/-- A directory and the deletion of its dot entry, both successful, leave a live entry whose
chain leads into the mark of a deleted cluster. -/
theorem inconsistent_eight :
    Fresh (blankDisk 8) (plainPartition 7) plainEnv eight ∧ (smallMkdir.exec eight).2 = 0 ∧
      (deleteDot.exec (smallMkdir.after eight)).2 = 0 ∧
      ¬(deleteDot.after (smallMkdir.after eight)).view.Consistent := by
  refine ⟨fresh_eight, by decide +kernel, by decide +kernel, fun h => ?_⟩
  have hroot : (deleteDot.after (smallMkdir.after eight)).view.root = 2 := by decide +kernel
  have hchain : (deleteDot.after (smallMkdir.after eight)).view.Chain 2 [2] :=
    .last (by constructor <;> decide +kernel) (by unfold Store.Stop; decide +kernel)
  have hitem : (deleteDot.after (smallMkdir.after eight)).view.Item 2 1 := by
    refine ⟨⟨2, hroot ▸ .root, ⟨[2], hchain, by simp⟩, by decide +kernel, ?_⟩,
      by decide +kernel⟩
    exact fun hdot => hdot.1 hroot.symm
  have hclus : ((deleteDot.after (smallMkdir.after eight)).view.entry 2 1).clus = 3 := by
    decide +kernel
  have hnext : (deleteDot.after (smallMkdir.after eight)).view.next 3 = 0xFFE5 := by
    decide +kernel
  have hsize : (deleteDot.after (smallMkdir.after eight)).view.fatSize = 7 := by decide +kernel
  obtain ⟨l, hl | hl, -⟩ := h.chain 2 1 hitem
  · rw [hclus] at hl
    omega
  · rw [hclus] at hl
    rcases hl.next_of_mem hl.head_mem with hnode | hstop
    · rw [hnext] at hnode
      have hlt := hnode.2
      omega
    · rw [hnext] at hstop
      revert hstop
      unfold Store.Stop
      decide

/-- Making the directories D and E in the root of the new volume. -/
def mkdirE : Call :=
  .create [separator, 0x45] ATTR_DIRECTORY ⟨0, 0, 0, 1, 0, 100⟩
    ⟨⟨smallFile, 0, 0, 0⟩, ⟨smallFile, 0, 0, 2⟩⟩

/-- Renaming D to E. -/
def renameDE : Call := .rename [separator, 0x44] [0x45] ⟨smallFile, 0, 0, 0⟩

/-- A directory made on the new volume gets a name of its own: no two of the first two live
slots of the root agree. -/
theorem names_distinct_of_run_eight :
    (smallMkdir.exec eight).2 = 0 ∧
      ((smallMkdir.after eight).view.entry 2 0).dirName ≠
        ((smallMkdir.after eight).view.entry 2 1).dirName := by
  refine ⟨by decide +kernel, fun heq => ?_⟩
  have hroot : (smallMkdir.after eight).view.root = 2 := by decide +kernel
  have hchain : (smallMkdir.after eight).view.Chain 2 [2] :=
    .last (by constructor <;> decide +kernel) (by unfold Store.Stop; decide +kernel)
  have hsame := names_distinct_of_run wellSized_eight fresh_eight
    (callRuns_single ⟨smallMkdir_proper eight, trivial⟩) 2 [2] 2 0 2 1 (hroot ▸ .root) hchain
    (by simp) (by decide +kernel) (by simp) (by decide +kernel) (by decide +kernel)
    (by decide +kernel) heq
  simp at hsame

/-- Renaming one of two new directories to the name of the other succeeds. -/
theorem rename_duplicates_eight :
    Fresh (blankDisk 8) (plainPartition 7) plainEnv eight ∧ (smallMkdir.exec eight).2 = 0 ∧
      (mkdirE.exec (smallMkdir.after eight)).2 = 0 ∧
      (renameDE.exec (mkdirE.after (smallMkdir.after eight))).2 = 0 ∧
      (renameDE.after (mkdirE.after (smallMkdir.after eight))).view.Chain 2 [2] ∧
      Live ((renameDE.after (mkdirE.after (smallMkdir.after eight))).view.entry 2 1) ∧
      Live ((renameDE.after (mkdirE.after (smallMkdir.after eight))).view.entry 2 2) ∧
      ((renameDE.after (mkdirE.after (smallMkdir.after eight))).view.entry 2 1).dirName =
        ((renameDE.after (mkdirE.after (smallMkdir.after eight))).view.entry 2 2).dirName := by
  refine ⟨fresh_eight, by decide +kernel, by decide +kernel, by decide +kernel,
    .last (by constructor <;> decide +kernel) (by unfold Store.Stop; decide +kernel),
    by decide +kernel, by decide +kernel, ?_⟩
  have hname : fatBuildDIRName [0x45] =
      some ((renameDE.after (mkdirE.after (smallMkdir.after eight))).view.entry 2 1).dirName := by
    decide +kernel
  refine Option.some.inj (hname.symm.trans ?_)
  decide +kernel

end DiegOS.Fat
