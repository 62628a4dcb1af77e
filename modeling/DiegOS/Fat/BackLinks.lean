import DiegOS.Fat.Growth

/-!
# Back-links of directories

A new directory opens with an entry for itself and one for its parent.
`FAT_create_entry` takes the cluster of the parent from a field that none of
its searches sets once a free slot is found, so the link leads back exactly when
the stack happens to hold the parent's cluster there.

Main results:

- Theorem `backLinked_of_tidy`: on a tidy volume the path through the parent link leads
  back to the parent.
- Theorem `back_links_of_run`: in every run of directory creations that find the parent's
  cluster on the stack, all directories are linked back.
-/

namespace DiegOS.Fat

open Lib

/-! ## Parent links are directories -/

namespace Store

variable {s s' : Store}

/-- The parent link of every directory but the root has the attribute of a directory. -/
def DotDirs (s : Store) : Prop := ∀ d, s.IsDir d → d ≠ s.root → (s.entry d 1).isDir = true

/-- An update keeps that when the link of a new directory has it. -/
lemma Update.dotDirs (hs : s.Sound) (h : s.DotDirs) {k i : Nat} {l l' : List Nat}
    (hu : Update s s' k i l l')
    (hnew : Live (s'.entry k i) → (s'.entry k i).isDir = true →
      (s'.entry (s'.entry k i).clus 1).isDir = true) : s'.DotDirs := by
  intro d hd hroot
  obtain ⟨m, hm⟩ := (hu.sound hs).exists_chain hd
  rcases hu.dir_cases hs hd hm with ⟨hd₀, hm₀, hsame⟩ | ⟨hlive, hattr, rfl, -⟩
  · rw [hu.root_eq] at hroot
    rw [hu.dot_entry_eq hs hd₀ hroot hm₀ hsame (by omega)]
    exact h d hd₀ hroot
  · exact hnew hlive hattr

/-- A new file or a new directory keeps it. -/
lemma Change.dotDirs (hs : s.Sound) (h : s.DotDirs) {a : Action} {d p : Nat}
    (ha : a = .create d ∨ a = .mkdir d p) (hc : Change s a s') : s'.DotDirs := by
  cases hc with
  | create hdir hin hfirst _ _ hclus hsize hattr =>
    refine (update_create hdir hin hfirst hclus hsize hattr).dotDirs hs h fun _ hd => ?_
    rw [entry_putEntry_self, hattr] at hd
    contradiction
  | mkdir hdir hin hfirst hname _ hnode hfree hclus hattr hsize =>
    have htwo := hs.two_le_slots
    refine (update_mkdir hs hdir hin hfirst hname hnode hfree hclus hsize).dotDirs hs h ?_
    intro _ _
    rw [entry_putEntry_self, hclus, entry_new_cluster hs ⟨_, hdir, hin⟩ hfree (by omega),
      entryOf_directoryBuffer_one]
    exact hattr
  | link | rename | truncate | delete | write => simp at ha

end Store

/-! ## Paths through a parent link -/

/-- Every directory in a directory opens with links to itself and to its parent, and its path
followed by the parent link leads to the parent and is found. -/
structure BackLinked (vol : FATVolume) : Prop where
  dot : ∀ d k i, vol.view.IsDir d → vol.view.InDir d k i → Live (vol.view.entry k i) →
    (vol.view.entry k i).isDir = true →
    (vol.view.entry (vol.view.entry k i).clus 0).dirName = dotName ∧
      (vol.view.entry (vol.view.entry k i).clus 0).clus = (vol.view.entry k i).clus
  dotdot : ∀ d k i, vol.view.IsDir d → vol.view.InDir d k i → Live (vol.view.entry k i) →
    (vol.view.entry k i).isDir = true →
    (vol.view.entry (vol.view.entry k i).clus 1).dirName = dotdotName ∧
      (vol.view.entry (vol.view.entry k i).clus 1).clus = d
  back : ∀ parent name d n k i, LeadsToDir vol parent d → name ≠ [] →
    fatBuildDIRName name = some n → vol.view.Named d n k i → ¬vol.view.DotSlot d k i →
    (vol.view.entry k i).isDir = true →
    LeadsToDir vol ((parent ++ separator :: name) ++ separator :: [0x2E, 0x2E]) d ∧
      (((parent ++ separator :: name) ++ separator :: [0x2E, 0x2E]).length ≤ FILENAME_MAX →
        ∀ junk, ∃ r, fatSearchDIREntry vol
          ((parent ++ separator :: name) ++ separator :: [0x2E, 0x2E]) junk = some r ∧
            r.entry.isDir = true ∧ r.entry.clus = d)

/-- A volume whose parent links are right leads back from every directory. -/
theorem backLinked_of_tidy {vol : FATVolume} (hw : Searchable vol) (ht : vol.view.Tidy)
    (hdots : vol.view.DotDirs) : BackLinked vol where
  dot := by
    intro d k i hd hin hlive hattr
    have hdir := Store.IsDir.sub hd hin hlive hattr
    have hroot := hw.sound.sub_ne_root hd hin hlive hattr
    exact ⟨(hw.sound.dots _ hdir hroot).1, ht.dot _ hdir hroot⟩
  dotdot := by
    intro d k i hd hin hlive hattr
    have hdir := Store.IsDir.sub hd hin hlive hattr
    have hroot := hw.sound.sub_ne_root hd hin hlive hattr
    exact ⟨(hw.sound.dots _ hdir hroot).2, ht.dotdot d k i hd hin hlive hattr⟩
  back := by
    intro parent name d n k i hparent hne hname hn hdot hattr
    have hin : vol.view.InDir d k i := ⟨hn.cluster, hn.lt, hdot⟩
    have hdir := Store.IsDir.sub hn.dir hin hn.live hattr
    have hroot := hw.sound.sub_ne_root hn.dir hin hn.live hattr
    have hname₁ := (hw.sound.dots _ hdir hroot).2
    have hclus : (vol.view.entry (vol.view.entry k i).clus 1).clus = d :=
      ht.dotdot d k i hn.dir hin hn.live hattr
    have hisDir := hdots _ hdir hroot
    have htwo := hw.sound.two_le_slots
    -- The parent link is an entry of the directory like any other.
    obtain ⟨l, hl⟩ := hw.sound.exists_chain hdir
    have hlink : vol.view.Named (vol.view.entry k i).clus dotdotName
        (vol.view.entry k i).clus 1 := by
      refine ⟨hdir, ⟨l, hl, hl.head_mem⟩, by omega, ?_, hname₁⟩
      apply LegalName.live
      rw [hname₁]
      exact legalName_dotdotName
    obtain ⟨names, hparse, hres⟩ := hparent.resolves hname hne hn
    have hparse' := fatParseDirectory_snoc (n := dotdotName) hparse
      (show fatBuildDIRName [0x2E, 0x2E] = some dotdotName by decide) (by simp)
    have hres' := hres.snoc hattr hlink
    refine ⟨⟨hparent.dir, .inr ⟨?_, _, _, _, _, hparse', hres', hisDir, hclus⟩⟩, ?_⟩
    · rw [List.getElem?_append_left (by simp)]
      exact hparent.absolute
    · intro hlen junk
      obtain ⟨r, hr, hent, -⟩ :=
        searchSplits_of_resolves hw hres' (legal_of_parse hparse') vol.view.root false junk
      refine ⟨r, ?_, by rw [hent, hisDir], by rw [hent, hclus]⟩
      rw [fatSearchDIREntry_eq hparse' (by simp at hlen ⊢; omega), hr]

/-! ## Runs of directory creations -/

/-- The call makes a directory in the directory `d` and finds `p` in the field for the
container that nothing has set. -/
inductive Call.MakesDir (vol : FATVolume) (d p : Nat) : Call → Prop
  | create {parent name : List UInt8} {attributes : UInt8} {now : Tm} {junk : Junk}
      (hattr : attributes &&& ATTR_DIRECTORY ≠ 0) (hname : separator ∉ name)
      (hparent : LeadsToDir vol parent d) (hjunk : junk.create.container = p) :
      MakesDir vol d p (.create (parent ++ separator :: name) attributes now junk)

/-- The container that the call looks up is the directory of the path. -/
lemma LeadsToDir.eq_of_parentCluster {vol : FATVolume} (hw : Searchable vol)
    {parent name : List UInt8} {d d' : Nat} (h : LeadsToDir vol parent d)
    (hname : separator ∉ name) {junk : SearchResult}
    (heq : parentCluster vol (parent ++ separator :: name) junk = some d') : d' = d := by
  by_cases hlen : parent.length ≤ FILENAME_MAX
  · rw [h.parentCluster_eq hw hname hlen] at heq
    exact (Option.some.inj heq).symm
  · have hnone : fatSearchDIREntry vol parent junk = none := by
      rw [fatSearchDIREntry, if_pos (.inr (by omega))]
    unfold parentCluster at heq
    rw [fatParseDirectoryLast_snoc hname h.absolute] at heq
    rw [if_neg (by omega), List.take_left, hnone] at heq
    contradiction

/-- The volume is in order, and its parent links are right. -/
structure Linked (vol : FATVolume) : Prop where
  ready : Ready vol
  tidy : vol.view.Tidy
  distinct : vol.view.Distinct
  dots : vol.view.DotDirs

/-- A new volume has no directory besides the root. -/
lemma linked_of_fresh {d : Disk} {part : FATPartition} {env : FormatEnv} {vol : FATVolume}
    (hw : part.WellSized d) (hfresh : Fresh d part env vol) : Linked vol := by
  have hview := hfresh.view hw
  refine ⟨hview.ready, hview.tidy hfresh.legal, hview.distinct, fun c hc hroot => ?_⟩
  exact absurd (hview.flat.isDir_eq hview.ready.sound.size_le hc) hroot

/-- Making a directory keeps the links when the parent's cluster is found on the stack. -/
lemma Linked.makeDir {vol : FATVolume} (h : Linked vol) {d : Nat} {c : Call}
    (hc : c.MakesDir vol d d) : Linked (c.after vol) := by
  cases hc with
  | @create parent name attributes now junk hattr hname hparent hjunk =>
    have hw := searchable_of_ready h.ready h.distinct
    have hdir : ∀ d', parentCluster vol (parent ++ separator :: name) junk.search = some d' →
        vol.view.IsDir d' := by
      intro d' hd'
      rw [hparent.eq_of_parentCluster hw hname hd']
      exact hparent.dir
    have hbelow := @fatCreateEntry_below vol h.ready _ attributes now junk hdir
    have hready := hbelow.ready h.ready
    rcases hbelow.store with heq | ⟨a, ⟨d', hd', ha⟩, hchange⟩
    · exact ⟨hready, heq ▸ h.tidy, heq ▸ h.distinct, heq ▸ h.dots⟩
    · obtain rfl := hparent.eq_of_parentCluster hw hname hd'
      refine ⟨hready, hchange.tidy h.ready.sound h.tidy fun d₁ p heq => ?_,
        hchange.distinct h.ready.sound h.distinct fun k i n heq => ?_,
        hchange.dotDirs h.ready.sound h.dots (ha.imp id And.right)⟩
      · rcases ha with rfl | ⟨-, rfl⟩
        · contradiction
        · cases heq
          exact hjunk
      · rcases ha with rfl | ⟨-, rfl⟩ <;> contradiction

/-- On a new volume, in every run of directory creations that find the cluster of the parent on
the stack, all directories open with the right links and can be left through them. -/
theorem back_links_of_run {d : Disk} {part : FATPartition} {env : FormatEnv}
    {vol vol' : FATVolume} (hw : part.WellSized d) (hfresh : Fresh d part env vol)
    (hrun : CallRuns (fun vol c => ∃ p, c.MakesDir vol p p) vol vol') : BackLinked vol' := by
  have hlinked : Linked vol' := by
    refine Runs.invariant (P := Linked) (fun vol c hinv hok => ?_) hrun (linked_of_fresh hw hfresh)
    obtain ⟨p, hp⟩ := hok
    exact hinv.makeDir hp
  exact backLinked_of_tidy (searchable_of_ready hlinked.ready hlinked.distinct) hlinked.tidy
    hlinked.dots

/-! ## Eight sectors -/

/-- The directory D is made in the root directory, cluster 2. -/
lemma smallMkdir_makes : smallMkdir.MakesDir eight 2 2 := by
  have hroot : eight.view.root = 2 := by decide +kernel
  exact @Call.MakesDir.create eight 2 2 [] [0x44] _ _ _ (by decide) (by decide)
    (hroot ▸ leadsToDir_root eight) rfl

/-- The new directory leads back to the root. -/
theorem back_links_eight : (smallMkdir.exec eight).2 = 0 ∧ BackLinked eightD :=
  ⟨by decide +kernel, back_links_of_run wellSized_eight fresh_eight
    (callRuns_single ⟨2, smallMkdir_makes⟩)⟩

/-- Making the same directory with a zero on the stack. -/
def strayMkdir : Call :=
  .create [separator, 0x44] ATTR_DIRECTORY ⟨0, 0, 0, 1, 0, 100⟩
    ⟨⟨smallFile, 0, 0, 0⟩, ⟨smallFile, 0, 0, 0⟩⟩

/-- With a zero on the stack the parent link of the new directory leads to no cluster. -/
theorem back_links_astray :
    Fresh (blankDisk 8) (plainPartition 7) plainEnv eight ∧ strayMkdir.MakesDir eight 2 0 ∧
      (strayMkdir.exec eight).2 = 0 ∧ (strayMkdir.after eight).view.root = 2 ∧
      ((strayMkdir.after eight).view.entry 2 1).clus = 3 ∧
      ((strayMkdir.after eight).view.entry 3 1).clus = 0 ∧
      (fatSearchDIREntry (strayMkdir.after eight)
        [separator, 0x44, separator, 0x2E, 0x2E] ⟨smallFile, 0, 0, 0⟩).map (·.entry.clus) =
          some 0 ∧
      ¬BackLinked (strayMkdir.after eight) := by
  have hroot₀ : eight.view.root = 2 := by decide +kernel
  have hroot : (strayMkdir.after eight).view.root = 2 := by decide +kernel
  have hclus : ((strayMkdir.after eight).view.entry 2 1).clus = 3 := by decide +kernel
  have hlink : ((strayMkdir.after eight).view.entry 3 1).clus = 0 := by decide +kernel
  refine ⟨fresh_eight, @Call.MakesDir.create eight 2 0 [] [0x44] _ _ _ (by decide) (by decide)
    (hroot₀ ▸ leadsToDir_root eight) rfl, by decide +kernel, hroot, hclus, hlink,
    by decide +kernel, fun hback => ?_⟩
  have hchain : (strayMkdir.after eight).view.Chain 2 [2] :=
    .last (by constructor <;> decide +kernel) (by unfold Store.Stop; decide +kernel)
  have hin : (strayMkdir.after eight).view.InDir 2 2 1 :=
    ⟨⟨[2], hchain, by simp⟩, by decide +kernel, fun hdot => hdot.1 hroot.symm⟩
  have hzero := (hback.dotdot 2 2 1 (hroot ▸ .root) hin (by decide +kernel)
    (by decide +kernel)).2
  rw [hclus, hlink] at hzero
  contradiction

end DiegOS.Fat
