import DiegOS.Fat.Calls

/-!
# Free space

What `FAT_available` counts, and what happens to it.  A balanced store has
exactly the clusters without an owner marked as free.  Operations that only take
clusters keep the balance; the ones that give clusters back do not mark them as
free, so the balance is lost with the first cluster that is given back.

Main results:

- Theorem `Store.Update.balanced`: an update that drops no cluster keeps
  the balance.
- Theorem `Store.Change.free_iff`: truncating and deleting never frees a
  cluster of the table.
- Theorem `freed_space`: a truncated or deleted entry gives its clusters
  back exactly when it has none.
-/

namespace DiegOS.Fat

open Lib

namespace Store

variable {s s' : Store}

/-- The cluster belongs to the root directory or to a live entry. -/
def Owned (s : Store) (c : Nat) : Prop := ∃ o l, s.Owns o l ∧ c ∈ l

/-- A cluster is marked as free exactly when it belongs to nobody. -/
def Balanced (s : Store) : Prop := ∀ c, s.Node c → (s.next c = 0 ↔ ¬s.Owned c)

/-- The number of clusters that belong to somebody. -/
noncomputable def ownedCount (s : Store) : Nat := by
  classical exact ((Finset.Ico 2 s.fatSize).filter s.Owned).card

/-- The number of clusters marked as free. -/
def freeCount (s : Store) : Nat := ((Finset.Ico 2 s.fatSize).filter fun c => s.next c = 0).card

lemma freeCount_of_balanced (h : s.Balanced) : s.freeCount = (s.fatSize - 2) - s.ownedCount := by
  classical
  have hfilter : (Finset.Ico 2 s.fatSize).filter (fun c => s.next c = 0) =
      (Finset.Ico 2 s.fatSize).filter (fun c => ¬s.Owned c) := by
    refine Finset.filter_congr fun c hc => h c ?_
    rw [Finset.mem_Ico] at hc
    exact hc
  have hsum := Finset.card_filter_add_card_filter_not (s := Finset.Ico 2 s.fatSize) s.Owned
  rw [Nat.card_Ico] at hsum
  have howned : s.ownedCount = ((Finset.Ico 2 s.fatSize).filter s.Owned).card := by
    congr
  rw [freeCount, hfilter, howned]
  omega

/-! ## Taking clusters -/

/-- An update that drops no cluster keeps the balance. -/
theorem Update.balanced (hs : s.Sound) {k i : Nat} {l l' : List Nat} (hu : Update s s' k i l l')
    (hsub : l ⊆ l')
    (hkeep : Live (s.entry k i) → (s.entry k i).isDir = true →
      Live (s'.entry k i) ∧ (s'.entry k i).isDir = true ∧ s.KeptDir s' k i)
    (h : s.Balanced) : s'.Balanced := by
  intro c hc
  have hnode : s.Node c := by
    rw [← hu.node_eq]
    exact hc
  by_cases hcl : c ∈ l'
  · -- The clusters of the slot are in use and linked.
    have hlive : Live (s'.entry k i) := by
      by_contra hnot
      rw [hu.new.2 hnot] at hcl
      simp at hcl
    have hclusters := hu.new.1 hlive
    have hitem : s'.Item k i := by
      obtain ⟨d, hd, hin⟩ := hu.slot
      obtain ⟨hd', hslots⟩ := hu.isDir_mono hs hkeep hd
      exact ⟨⟨d, hd', (hslots k i hin).1⟩, hlive⟩
    refine iff_of_false (fun hzero => ?_) (not_not.mpr ⟨some (k, i), l', ⟨hitem, hclusters⟩, hcl⟩)
    exact unowned_of_free hzero (some (k, i)) l' ⟨hitem, hclusters⟩ hcl
  · rw [hu.next_frame c (fun hmem => hcl (hsub hmem)) hcl, h c hnode]
    refine not_congr ⟨?_, ?_⟩
    · rintro ⟨o, m, ho, hm⟩
      refine ⟨o, m, hu.owns_mono hs hkeep ho ?_, hm⟩
      rintro rfl
      obtain rfl := hs.clusters_unique ho.2 (hu.old.1 ho.1.2)
      exact hcl (hsub hm)
    · rintro ⟨o, m, ho, hm⟩
      rcases hu.owns_cases hs ho with ⟨-, rfl⟩ | ⟨-, ho⟩
      · exact absurd hm hcl
      · exact ⟨o, m, ho, hm⟩

/-- An operation that gives no cluster back. -/
def Action.Keeps (s : Store) : Action → Prop
  | .truncate k i => ∀ l, s.Clusters (s.entry k i) l → l = []
  | .delete k i => ∀ l, s.Clusters (s.entry k i) l → l = []
  | _ => True

/-- Such an operation keeps the balance. -/
theorem Change.balanced (hs : s.Sound) {a : Action} (ha : a.Keeps s) (h : Change s a s')
    (hb : s.Balanced) : s'.Balanced := by
  cases h with
  | create hdir hin hfirst _ _ hclus hsize hattr =>
    exact (update_create hdir hin hfirst hclus hsize hattr).balanced hs (by simp)
      (fun hlive => absurd hlive hfirst.1) hb
  | link hdir hin hfirst hname _ hnode hfree hclus hattr hlink =>
    exact (update_link hs _ hdir hin hfirst hname hnode hfree hclus hattr hlink).balanced hs
      (by simp) (fun hlive => absurd hlive hfirst.1) hb
  | mkdir hdir hin hfirst hname _ hnode hfree hclus _ hsize =>
    exact (update_mkdir hs hdir hin hfirst hname hnode hfree hclus hsize).balanced hs
      (by simp) (fun hlive => absurd hlive hfirst.1) hb
  | @rename k i n hitem hname =>
    obtain ⟨l, hl, -⟩ := hs.item_chain k i hitem
    refine (update_rename hs hitem hname hl).balanced hs (fun _ h => h) (fun hlive hattr => ?_) hb
    have hkeep := rename_eqs (s.entry k i) n
    rw [KeptDir, entry_putEntry_self, hkeep.1, hkeep.2.1]
    exact ⟨hname.live_rename _, hattr, hlive, hattr, rfl, rfl,
      fun c hc => byte_putEntry_ne i _ hc⟩
  | @truncate k i l m hitem hattr hl hm =>
    refine (update_truncate hitem hattr hl hm).balanced hs (by simp [ha l hl])
      (fun _ hdir => ?_) hb
    rw [hattr] at hdir
    contradiction
  | @delete k i l m hitem hl hm =>
    refine (update_delete hitem hl hm).balanced hs (by simp [ha l hl]) (fun _ hdir => ?_) hb
    -- A directory has a cluster.
    obtain ⟨l', hl', hne, -⟩ := hs.item_chain k i hitem
    exact absurd (ha l' hl') (hne hdir)
  | @write _ k i l new _ hattr hu _ _ _ =>
    refine hu.balanced hs (by simp) (fun _ hdir => ?_) hb
    rw [hattr] at hdir
    contradiction

/-! ## Giving clusters back -/

/-- Truncating and deleting leave every cluster as free or as used as it was. -/
theorem Change.free_iff {a : Action} (h : Change s a s') {k i : Nat}
    (ha : a = .truncate k i ∨ a = .delete k i) (c : Nat) : s'.next c = 0 ↔ s.next c = 0 := by
  have hclear : ∀ {l m : List Nat} {e : DirEntry}, s.Clusters (s.entry k i) l → m ⊆ l →
      (((s.clear m).putEntry k i e).next c = 0 ↔ s.next c = 0) := by
    intro l m e hl hm
    by_cases hc : c ∈ m
    · have hcleared : ((s.clear m).putEntry k i e).next c = FAT_CLEARED := if_pos hc
      rw [hcleared]
      refine iff_of_false (by decide) fun hzero => ?_
      rcases hl with ⟨-, rfl⟩ | hchain
      · exact absurd (hm hc) (by simp)
      · rcases hchain.next_of_mem (hm hc) with hnode | hstop
        · rw [hzero] at hnode
          exact absurd hnode.1 (by omega)
        · rw [hzero] at hstop
          exact not_stop_zero hstop
    · have hkept : ((s.clear m).putEntry k i e).next c = s.next c := if_neg hc
      rw [hkept]
  cases h with
  | truncate hitem hattr hl hm | delete hitem hl hm =>
    obtain ⟨rfl, rfl⟩ : _ = k ∧ _ = i := by simpa using ha
    exact hclear hl hm
  | _ => simp at ha

end Store

/-! ## The free count -/

/-- `FAT_available` reports the clusters marked as free. -/
lemma fatAvailable_eq {vol : FATVolume} (hm : vol.Mounted) :
    (fatAvailable vol).2 = vol.view.freeCount := by
  have hcount : (List.range' 2 (vol.fatSize - 2)).countP
      (fun i => fatClusterIsFREE (vol.fat i).toNat) = vol.view.freeCount := by
    have hpred : ∀ c ∈ List.range' 2 (vol.fatSize - 2),
        fatClusterIsFREE (vol.fat c).toNat = decide (vol.view.next c = 0) := by
      intro c hc
      have hlt : c < vol.fatSize := by
        have := List.mem_range'_1.mp hc
        omega
      rw [Bool.eq_iff_iff, fatClusterIsFREE_iff, decide_eq_true_eq]
      simp [FATVolume.view, fatGetClusterFromTable, hlt]
    rw [List.countP_congr fun c hc => by rw [hpred c hc], List.countP_eq_length_filter]
    rfl
  have hle : vol.view.freeCount < 2 ^ 16 := by
    have hcard : vol.view.freeCount ≤ (Finset.Ico 2 vol.fatSize).card := Finset.card_filter_le _ _
    have hsize := hm.fatSize_le
    rw [Nat.card_Ico] at hcard
    unfold FAT_BAD at hsize
    omega
  rw [fatAvailable]
  rw [hcount, Nat.mod_eq_of_lt hle]

/-- The clusters of the list are free afterwards, and the free count has grown by them. -/
def FreesClusters (vol vol' : FATVolume) (l : List Nat) : Prop :=
  (∀ c ∈ l, vol'.view.next c = 0) ∧ (fatAvailable vol').2 = (fatAvailable vol).2 + l.length

/-- A call gives no cluster back: what it truncates or deletes has none. -/
def Call.Keeps (vol : FATVolume) : Call → Prop
  | .truncate path junk => ∀ k i l, Leads vol path junk k i →
      vol.view.Clusters (vol.view.entry k i) l → l = []
  | .delete path junk => ∀ k i l, Leads vol path junk k i →
      vol.view.Clusters (vol.view.entry k i) l → l = []
  | _ => True

lemma freesClusters_iff {vol vol' : FATVolume} (hv : Ready vol) {a : Store.Action} {k i : Nat}
    (ha : a = .truncate k i ∨ a = .delete k i) (href : Refines vol vol' (· = a)) {l : List Nat}
    (hl : vol.view.Clusters (vol.view.entry k i) l) : FreesClusters vol vol' l ↔ l = [] := by
  have hfree : ∀ c, vol'.view.next c = 0 ↔ vol.view.next c = 0 := by
    intro c
    rcases href.store with heq | ⟨b, rfl, hchange⟩
    · rw [heq]
    · exact hchange.free_iff ha c
  have hcount : (fatAvailable vol').2 = (fatAvailable vol).2 := by
    have hsize : vol'.view.fatSize = vol.view.fatSize := href.same.fatSize
    rw [fatAvailable_eq href.mounted, fatAvailable_eq hv.mounted, Store.freeCount,
      Store.freeCount, hsize]
    simp only [hfree]
  rw [FreesClusters, hcount]
  constructor
  · rintro ⟨-, hlen⟩
    exact List.length_eq_zero_iff.mp (by omega)
  · rintro rfl
    simp

/-- A successful truncation or deletion gives the clusters of the entry back exactly when
the entry has none; and in every run of calls in which nothing with clusters is truncated
or deleted, the free clusters are those that belong to nobody. -/
theorem freed_space {vol : FATVolume} (hv : Ready vol) :
    (∀ (path : List UInt8) (junk : SearchResult) (k i : Nat) (l : List Nat),
      Leads vol path junk k i → vol.view.Clusters (vol.view.entry k i) l →
      ((fatTruncateEntry vol path junk).2 = 0 →
        (FreesClusters vol (fatTruncateEntry vol path junk).1 l ↔ l = [])) ∧
      ((fatDeleteEntry vol path junk).2 = 0 →
        (FreesClusters vol (fatDeleteEntry vol path junk).1 l ↔ l = []))) ∧
    (∀ vol' : FATVolume, vol.view.Balanced →
      CallRuns (fun vol c => c.Proper vol ∧ c.Keeps vol) vol vol' →
      (fatAvailable vol').2 = (vol'.fatSize - 2) - vol'.view.ownedCount) := by
  constructor
  · intro path junk k i l hlead hl
    exact ⟨fun _ => freesClusters_iff hv (.inl rfl) (fatTruncateEntry_leads hv hlead) hl,
      fun _ => freesClusters_iff hv (.inr rfl) (fatDeleteEntry_leads hv hlead) hl⟩
  · intro vol' hb hrun
    obtain ⟨hv', hb'⟩ := @CallRuns.keeps (fun vol c => c.Keeps vol) Store.Balanced
      (fun vol c a s hv hb _ hok hperf hchange => by
        refine hchange.balanced hv.sound ?_ hb
        cases c with
        | create =>
          obtain ⟨d, -, rfl | ⟨-, rfl⟩⟩ := hperf <;> trivial
        | link =>
          obtain ⟨d, -, rfl⟩ := hperf
          trivial
        | rename =>
          obtain ⟨k, i, n, -, -, rfl⟩ := hperf
          trivial
        | truncate =>
          obtain ⟨k, i, hlead, rfl⟩ := hperf
          exact fun l hl => hok k i l hlead hl
        | delete =>
          obtain ⟨k, i, hlead, rfl⟩ := hperf
          exact fun l hl => hok k i l hlead hl
        | write =>
          obtain ⟨k, i, -, rfl⟩ := hperf
          trivial) _ _ hv hb hrun
    rw [fatAvailable_eq hv'.mounted]
    exact Store.freeCount_of_balanced hb'

lemma small_balanced : small.view.Balanced := by
  intro c hc
  by_cases hzero : small.view.next c = 0
  · refine iff_of_true hzero fun ⟨o, l, ho, hl⟩ => ?_
    exact Store.unowned_of_free hzero o l ho hl
  · refine iff_of_false hzero (not_not.mpr ?_)
    have hitem : small.view.Item 2 0 := by
      obtain ⟨r, -, hfound⟩ := small_leads ⟨smallFile, 0, 0, 0⟩
      exact hfound.item
    have hlt : c < 8 := hc.2
    have hlo := hc.1
    have hused : c = 2 ∨ c = 3 ∨ c = 4 := by
      by_contra hnot
      refine hzero ?_
      rw [small_view]
      interval_cases c <;> first | rfl | simp at hnot
    rcases hused with rfl | hfile
    · exact ⟨none, [2], small_root_chain, by simp⟩
    · exact ⟨some (2, 0), [3, 4], ⟨hitem, small_clusters⟩, by simpa using hfile⟩

/-- On the small volume the truncated file does not give its two clusters back; creating a
directory takes one of the three free clusters and keeps the count right. -/
theorem freed_space_small :
    ¬FreesClusters small (fatTruncateEntry small smallPath ⟨smallFile, 0, 0, 0⟩).1 [3, 4] ∧
    (fatAvailable (Call.after small smallMkdir)).2 =
      (8 - 2) - (Call.after small smallMkdir).view.ownedCount := by
  have hret : (fatTruncateEntry small smallPath ⟨smallFile, 0, 0, 0⟩).2 = 0 := by decide +kernel
  have hiff := ((freed_space small_ready).1 smallPath ⟨smallFile, 0, 0, 0⟩ 2 0 [3, 4]
    (small_leads _) small_clusters).1 hret
  refine ⟨fun h => absurd (hiff.mp h) (by decide), ?_⟩
  have hsize : (Call.after small smallMkdir).fatSize = 8 := by decide +kernel
  have hcount := (freed_space small_ready).2 (Call.after small smallMkdir) small_balanced
    (callRuns_single ⟨smallMkdir_proper small, trivial⟩)
  rwa [hsize] at hcount

/-- Deleting the file of the small volume succeeds and leaves its two clusters marked as
used: the marker is 0xFFE5. -/
theorem fatDeleteEntry_leaks :
    Ready small ∧ Leads small smallPath ⟨smallFile, 0, 0, 0⟩ 2 0 ∧
      small.view.Clusters (small.view.entry 2 0) [3, 4] ∧
      (fatDeleteEntry small smallPath ⟨smallFile, 0, 0, 0⟩).2 = 0 ∧
      (fatDeleteEntry small smallPath ⟨smallFile, 0, 0, 0⟩).1.view.next 3 = 0xFFE5 ∧
      (fatDeleteEntry small smallPath ⟨smallFile, 0, 0, 0⟩).1.view.next 4 = 0xFFE5 ∧
      (fatAvailable small).2 = 3 ∧
      (fatAvailable (fatDeleteEntry small smallPath ⟨smallFile, 0, 0, 0⟩).1).2 = 3 ∧
      ¬FreesClusters small (fatDeleteEntry small smallPath ⟨smallFile, 0, 0, 0⟩).1 [3, 4] := by
  refine ⟨small_ready, small_leads _, small_clusters, by decide +kernel, by decide +kernel,
    by decide +kernel, by decide +kernel, by decide +kernel, fun h => ?_⟩
  have hthree := h.1 3 (by simp)
  revert hthree
  decide +kernel

end DiegOS.Fat
