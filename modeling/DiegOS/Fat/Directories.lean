import DiegOS.Fat.Changes

/-!
# Directories under updates

What an update of one slot does to the directories of a store, and two
properties of them that the operations keep: a tidy store has dot entries that
name the directory and its parent and holds nothing but entries in its
directories, and a distinct store has no directory with two live entries of one
name.

Main results:

- Theorem `Store.Update.dir_cases`: a directory after an update was one
  before and differs in one slot at most, or is the new one.
- Theorem `Store.Change.tidy`: the operations keep a store tidy when a new
  directory is told its parent.
- Theorem `Store.Change.distinct`: the operations keep names distinct when
  no entry is renamed to a name in use.
-/

namespace DiegOS.Fat

open Lib

namespace Store

variable {s s' : Store}

namespace Update

variable {k i : Nat} {l l' : List Nat}

/-- A directory after an update was one before with the same clusters, and differs at most
in the updated slot; or it is the new one that the slot names. -/
theorem dir_cases (hs : s.Sound) (hu : Update s s' k i l l') {d : Nat} {m : List Nat}
    (hd : s'.IsDir d) (hm : s'.Chain d m) :
    (s.IsDir d ∧ s.Chain d m ∧ ∀ k₂ ∈ m, ∀ i₂ < s.slots, (k₂, i₂) ≠ (k, i) →
      s'.entry k₂ i₂ = s.entry k₂ i₂) ∨
    (Live (s'.entry k i) ∧ (s'.entry k i).isDir = true ∧ (s'.entry k i).clus = d ∧
      l' = [d] ∧ m = [d] ∧ s.Unowned d) := by
  rcases hu.isDir_cases hs hd with ⟨o, ho, hne⟩ | ⟨rfl, hlive, hattr⟩
  · left
    obtain ⟨m₀, hm₀, hom₀⟩ := hs.owns_of_dirOwner ho
    obtain rfl := hu.chain_unique hs hm (hu.chain_other hs hom₀ hne hm₀)
    exact ⟨Sound.isDir_of_dirOwner ho, hm₀, fun k₂ hk i₂ hi hslot =>
      hu.entry_other hs hom₀ hne hk hi hslot⟩
  · rcases hu.dir hlive hattr with ⟨hlive₀, hattr₀, hclus, hnext, hbyte⟩ | ⟨f, hl', hf, -⟩
    · left
      obtain ⟨dk, hdk, hink⟩ := hu.slot
      have hown : s.DirOwner (some (k, i)) (s.entry k i).clus :=
        ⟨⟨⟨dk, hdk, hink⟩, hlive₀⟩, hattr₀, rfl⟩
      obtain ⟨m₀, hm₀, hom₀⟩ := hs.owns_of_dirOwner hown
      have hm' : s'.Chain (s.entry k i).clus m₀ := by
        rw [Chain, hnext, hu.node_eq]
        exact hm₀
      rw [hclus] at hm ⊢
      obtain rfl := hu.chain_unique hs hm hm'
      refine ⟨Sound.isDir_of_dirOwner hown, hm₀, fun k₂ hk i₂ _ _ => ?_⟩
      have hk₂ : k₂ ≠ k := by
        rintro rfl
        exact hs.slot_not_mem hdk hink hom₀ (hs.not_dirOwner_self hdk k₂ i hink) hk
      rw [entry, hbyte k₂ hk₂, entry]
    · right
      have hf' : s'.Chain (s'.entry k i).clus [f] := by
        rcases hu.new.1 hlive with ⟨-, hnil⟩ | hchain
        · rw [hl'] at hnil
          contradiction
        · rwa [hl'] at hchain
      have hhead : (s'.entry k i).clus = f := by simpa using hf'.head_mem
      have hmf := hu.chain_unique hs hm hf'
      rw [← hhead] at hl' hmf hf
      exact ⟨hlive, hattr, rfl, hl', hmf, hf⟩

/-- The updated slot is no dot entry. -/
lemma slot_ne_dot (hs : s.Sound) (hu : Update s s' k i l l') {d j : Nat} (hd : s.IsDir d)
    (hroot : d ≠ s.root) (hj : j < 2) : (d, j) ≠ (k, i) := by
  intro heq
  obtain ⟨rfl, rfl⟩ : d = k ∧ j = i := by simpa using heq
  obtain ⟨dk, hdk, ⟨mk, hmk, hkmk⟩, -, hdot⟩ := hu.slot
  obtain ⟨m, hm⟩ := hs.exists_chain hd
  obtain rfl := hs.dir_eq_of_mem hdk hd hmk hm hkmk hm.head_mem
  exact hdot ⟨hroot, rfl, hj⟩

/-- The dot entries of an old directory are untouched. -/
lemma dot_entry_eq (hs : s.Sound) (hu : Update s s' k i l l') {d j : Nat} {m : List Nat}
    (hd : s.IsDir d) (hroot : d ≠ s.root) (hm : s.Chain d m)
    (hsame : ∀ k₂ ∈ m, ∀ i₂ < s.slots, (k₂, i₂) ≠ (k, i) → s'.entry k₂ i₂ = s.entry k₂ i₂)
    (hj : j < 2) : s'.entry d j = s.entry d j := by
  have htwo := hs.two_le_slots
  exact hsame d hm.head_mem j (by omega) (hu.slot_ne_dot hs hd hroot hj)

end Update

/-! ## Tidy stores -/

/-- A slot of a directory holds an entry: never used, deleted, or with a legal name. -/
def EntrySlot (e : DirEntry) : Prop :=
  e.mark = DIR_ENTRY_LAST_FREE ∨ e.mark = DIR_ENTRY_FREE ∨ LegalName e.dirName

/-- The dot entries name the directory and its parent, and the clusters of directories hold
nothing but entries. -/
structure Tidy (s : Store) : Prop where
  dot : ∀ d, s.IsDir d → d ≠ s.root → (s.entry d 0).clus = d
  dotdot : ∀ d k i, s.IsDir d → s.InDir d k i → Live (s.entry k i) →
    (s.entry k i).isDir = true → (s.entry (s.entry k i).clus 1).clus = d
  slots : ∀ d m k i, s.IsDir d → s.Chain d m → k ∈ m → i < s.slots → EntrySlot (s.entry k i)

/-- The first cluster of a new directory: the dot entries, and never used slots. -/
structure NewCluster (s : Store) (f p : Nat) : Prop where
  dot : (s.entry f 0).clus = f
  dotdot : (s.entry f 1).clus = p
  rest : ∀ j, 2 ≤ j → j < s.slots → (s.entry f j).mark = DIR_ENTRY_LAST_FREE

/-- A directory entry leads to a directory other than the root. -/
lemma Sound.sub_ne_root (hs : s.Sound) {d k i : Nat} (hd : s.IsDir d) (hin : s.InDir d k i)
    (hlive : Live (s.entry k i)) (hattr : (s.entry k i).isDir = true) :
    (s.entry k i).clus ≠ s.root := by
  intro heq
  have hown : s.DirOwner (some (k, i)) s.root := ⟨⟨⟨d, hd, hin⟩, hlive⟩, hattr, heq⟩
  have h := hs.dirOwner_unique hown (show s.DirOwner none s.root from rfl)
  simp at h

/-- A cluster without an owner starts no directory. -/
lemma Sound.not_isDir_of_unowned (hs : s.Sound) {f : Nat} (hf : s.Unowned f) : ¬s.IsDir f := by
  intro hd
  obtain ⟨o, ho⟩ := Sound.dirOwner_of_isDir f hd
  obtain ⟨m, hm, hom⟩ := hs.owns_of_dirOwner ho
  exact hf o m hom hm.head_mem

/-- An update keeps a store tidy when the new entry is one and a new directory is told its
parent. -/
theorem Update.tidy (hs : s.Sound) (ht : s.Tidy) {k i : Nat} {l l' : List Nat}
    (hu : Update s s' k i l l') (hentry : EntrySlot (s'.entry k i))
    (hnew : ∀ d, s.IsDir d → s.InDir d k i → Live (s'.entry k i) →
      (s'.entry k i).isDir = true → s.Unowned (s'.entry k i).clus →
      s'.NewCluster (s'.entry k i).clus d) : s'.Tidy := by
  have hs' := hu.sound hs
  obtain ⟨dk, hdk, hink⟩ := hu.slot
  constructor
  case dot =>
    intro d hd hroot
    obtain ⟨m, hm⟩ := hs'.exists_chain hd
    rcases hu.dir_cases hs hd hm with ⟨hd₀, hm₀, hsame⟩ | ⟨hlive, hattr, rfl, -, -, hf⟩
    · rw [hu.root_eq] at hroot
      rw [hu.dot_entry_eq hs hd₀ hroot hm₀ hsame (by omega)]
      exact ht.dot d hd₀ hroot
    · exact (hnew dk hdk hink hlive hattr hf).dot
  case dotdot =>
    intro d k₂ i₂ hd hin hlive hattr
    obtain ⟨m, hm, hk₂⟩ := hin.1
    obtain ⟨mc, hmc⟩ := hs'.exists_chain (.sub hd hin hlive hattr)
    have hi₂ : i₂ < s.slots := by
      have hlt := hin.2.1
      rwa [hu.slots_eq] at hlt
    rcases hu.dir_cases hs hd hm with ⟨hd₀, hm₀, hsame⟩ | ⟨hlive', hattr', hclus, -, rfl, hf⟩
    · have hin₀ : s.InDir d k₂ i₂ := by
        refine ⟨⟨m, hm₀, hk₂⟩, hi₂, ?_⟩
        simpa [DotSlot, hu.root_eq] using hin.2.2
      rcases hu.dir_cases hs (.sub hd hin hlive hattr) hmc with
        ⟨hc₀, hmc₀, hsamec⟩ | ⟨hlivek, hattrk, hclusk, -, -, hfc⟩
      · -- The subdirectory is an old one, and so is its entry or the slot that was kept.
        have hrootc : (s'.entry k₂ i₂).clus ≠ s.root := by
          rw [← hu.root_eq]
          exact hs'.sub_ne_root hd hin hlive hattr
        rw [hu.dot_entry_eq hs hc₀ hrootc hmc₀ hsamec (by omega)]
        by_cases hslot : (k₂, i₂) = (k, i)
        · obtain ⟨rfl, rfl⟩ : k₂ = k ∧ i₂ = i := by simpa using hslot
          rcases hu.dir hlive hattr with ⟨hlive₀, hattr₀, hclus, -⟩ | ⟨f, rfl, hf, -⟩
          · rw [hclus]
            exact ht.dotdot d k₂ i₂ hd₀ hin₀ hlive₀ hattr₀
          · have hhead : (s'.entry k₂ i₂).clus = f := by
              rcases hu.new.1 hlive with ⟨-, hnil⟩ | hchain
              · contradiction
              · simpa using hchain.head_mem
            rw [hhead] at hc₀
            exact absurd hc₀ (hs.not_isDir_of_unowned hf)
        · have hent := hsame k₂ hk₂ i₂ hi₂ hslot
          rw [hent] at hlive hattr ⊢
          exact ht.dotdot d k₂ i₂ hd₀ hin₀ hlive hattr
      · by_cases hslot : (k₂, i₂) = (k, i)
        · obtain ⟨rfl, rfl⟩ : k₂ = k ∧ i₂ = i := by simpa using hslot
          exact (hnew d hd₀ hin₀ hlive hattr hfc).dotdot
        · -- An old entry cannot name a cluster that was not in use.
          have hent := hsame k₂ hk₂ i₂ hi₂ hslot
          rw [hent] at hlive hattr hfc
          exact absurd (.sub hd₀ hin₀ hlive hattr) (hs.not_isDir_of_unowned hfc)
    · -- A new directory has no live entry besides the dots.
      obtain rfl : k₂ = d := by simpa using hk₂
      have hroot : k₂ ≠ s.root := fun heq =>
        hs.not_isDir_of_unowned hf (by rw [heq]; exact .root)
      have htwo : 2 ≤ i₂ := by
        by_contra hlt
        exact hin.2.2 ⟨by rwa [hu.root_eq], rfl, by omega⟩
      have hcluster := hnew dk hdk hink hlive' hattr' (by rwa [hclus])
      rw [hclus] at hcluster
      exact absurd (hcluster.rest i₂ htwo hin.2.1) hlive.2
  case slots =>
    intro d m k₂ i₂ hd hm hk₂ hi₂
    rcases hu.dir_cases hs hd hm with ⟨hd₀, hm₀, hsame⟩ | ⟨hlive, hattr, hclus, -, rfl, hf⟩
    · by_cases hslot : (k₂, i₂) = (k, i)
      · obtain ⟨rfl, rfl⟩ : k₂ = k ∧ i₂ = i := by simpa using hslot
        exact hentry
      · rw [hu.slots_eq] at hi₂
        rw [hsame k₂ hk₂ i₂ hi₂ hslot]
        exact ht.slots d m k₂ i₂ hd₀ hm₀ hk₂ hi₂
    · obtain rfl : k₂ = d := by simpa using hk₂
      have hroot : k₂ ≠ s'.root := by
        rw [hu.root_eq]
        exact fun heq => hs.not_isDir_of_unowned hf (by rw [heq]; exact .root)
      have hcluster := hnew dk hdk hink hlive hattr (by rwa [hclus])
      rw [hclus] at hcluster
      obtain ⟨hdot, hdotdot⟩ := hs'.dots k₂ hd hroot
      rcases Nat.lt_or_ge i₂ 2 with hlt | hge
      · interval_cases i₂
        · exact .inr (.inr (by rw [hdot]; exact legalName_dotName))
        · exact .inr (.inr (by rw [hdotdot]; exact legalName_dotdotName))
      · exact .inl (hcluster.rest i₂ hge hi₂)

lemma EntrySlot.congr {e e' : DirEntry} (h : EntrySlot e) (hname : e'.dirName = e.dirName) :
    EntrySlot e' := by
  rw [EntrySlot, DirEntry.mark, hname]
  exact h

/-- The clusters of a directory entry belong to it. -/
lemma Sound.owned_of_item (hs : s.Sound) {k i : Nat} (hitem : s.Item k i)
    (hattr : (s.entry k i).isDir = true) : ¬s.Unowned (s.entry k i).clus := by
  intro hf
  obtain ⟨⟨d, hd, hin⟩, hlive⟩ := hitem
  exact hs.not_isDir_of_unowned hf (.sub hd hin hlive hattr)

/-- A slot that holds an item of a tidy store holds an entry. -/
lemma Tidy.entrySlot (ht : s.Tidy) {k i : Nat} (hitem : s.Item k i) :
    EntrySlot (s.entry k i) := by
  obtain ⟨⟨d, hd, ⟨m, hm, hk⟩, hi, -⟩, -⟩ := hitem
  exact ht.slots d m k i hd hm hk hi

/-- The slots of a new cluster, next to a changed one. -/
lemma entry_new_cluster (hs : s.Sound) {k i f : Nat} {e : DirEntry} {buf : Bytes}
    (hslot : s.Slot k i) (hfree : s.next f = 0) {j : Nat} (hj : j < s.slots) :
    ((s.alloc f buf).putEntry k i e).entry f j = entryOf buf j := by
  have hfk : f ≠ k := hs.ne_of_unowned hslot (unowned_of_free hfree)
  rw [entry_putEntry_ne e (by simp [hfk]), entry_alloc_self hs.slots_fit hj]

/-- The cluster a new directory starts with. -/
lemma newCluster_mkdir (hs : s.Sound) {d k i f : Nat} {e : DirEntry} (hdir : s.IsDir d)
    (hin : s.InDir d k i) (hfree : s.next f = 0) (hclus : e.clus = f) :
    ((s.alloc f (directoryBuffer e d)).putEntry k i e).NewCluster f d := by
  have hentry : ∀ j < s.slots, ((s.alloc f (directoryBuffer e d)).putEntry k i e).entry f j =
      entryOf (directoryBuffer e d) j := fun j hj => entry_new_cluster hs ⟨d, hdir, hin⟩ hfree hj
  have htwo := hs.two_le_slots
  obtain ⟨m, hm⟩ := hs.exists_chain hdir
  have hlt := hm.node_head.2
  have hsize := hs.size_le
  unfold FAT_BAD at hsize
  constructor
  · rw [hentry 0 (by omega), entryOf_directoryBuffer_zero]
    exact hclus
  · rw [hentry 1 (by omega), entryOf_directoryBuffer_one]
    exact UInt16.toNat_ofNat_of_lt' (by change d < 2 ^ 16; omega)
  · intro j hj hlt
    rw [hentry j hlt]
    exact mark_directoryBuffer_rest e d hj

/-- Every operation keeps a store tidy when a new directory is told its parent. -/
theorem Change.tidy (hs : s.Sound) (ht : s.Tidy) {a : Action} (h : Change s a s')
    (hp : ∀ d p, a = .mkdir d p → p = d) : s'.Tidy := by
  cases h with
  | create hdir hin hfirst hname _ hclus hsize hattr =>
    refine (update_create hdir hin hfirst hclus hsize hattr).tidy hs ht ?_ ?_
    · rw [entry_putEntry_self]
      exact .inr (.inr hname)
    · intro _ _ _ _ hd
      rw [entry_putEntry_self, hattr] at hd
      contradiction
  | link hdir hin hfirst hname _ hnode hfree hclus hattr hlink =>
    refine (update_link hs _ hdir hin hfirst hname hnode hfree hclus hattr hlink).tidy hs ht ?_ ?_
    · rw [entry_putEntry_self]
      exact .inr (.inr hname)
    · intro _ _ _ _ hd
      rw [entry_putEntry_self, hattr] at hd
      contradiction
  | @mkdir d k i f p e hdir hin hfirst hname _ hnode hfree hclus _ hsize =>
    obtain rfl := hp d p rfl
    refine (update_mkdir hs hdir hin hfirst hname hnode hfree hclus hsize).tidy hs ht ?_ ?_
    · rw [entry_putEntry_self]
      exact .inr (.inr hname)
    · intro d' hd' hin' _ _ _
      obtain rfl := hs.inDir_unique hd' hdir hin' hin
      rw [entry_putEntry_self, hclus]
      exact newCluster_mkdir hs hdir hin hfree hclus
  | @rename k i n hitem hname =>
    obtain ⟨l, hl, -⟩ := hs.item_chain k i hitem
    refine (update_rename hs hitem hname hl).tidy hs ht ?_ ?_
    · rw [entry_putEntry_self]
      exact .inr (.inr hname)
    · intro _ _ _ _ hd hf
      rw [entry_putEntry_self] at hd hf
      exact absurd hf (hs.owned_of_item hitem hd)
  | @truncate k i l m hitem hattr hl hm =>
    refine (update_truncate hitem hattr hl hm).tidy hs ht ?_ ?_
    · rw [entry_putEntry_self]
      exact (ht.entrySlot hitem).congr rfl
    · intro _ _ _ _ hd
      rw [entry_putEntry_self, (truncate_eqs (s.entry k i)).2.1, hattr] at hd
      contradiction
  | @delete k i l m hitem hl hm =>
    refine (update_delete hitem hl hm).tidy hs ht ?_ ?_
    · rw [entry_putEntry_self]
      exact .inr (.inl (by simp [DirEntry.mark]))
    · intro _ _ _ hlive
      rw [entry_putEntry_self] at hlive
      exact absurd hlive (not_live_freed _)
  | write hitem hattr hu hname hkeep _ =>
    refine hu.tidy hs ht ((ht.entrySlot hitem).congr hname) ?_
    intro _ _ _ _ hd
    rw [DirEntry.isDir, DirEntry.hasAttr, hkeep] at hd
    rw [DirEntry.isDir, DirEntry.hasAttr] at hattr
    rw [hattr] at hd
    contradiction

/-! ## Distinct names -/

/-- No directory has two live entries of one name, and never used slots are the last ones of
their cluster. -/
structure Distinct (s : Store) : Prop where
  names : ∀ d m k i k₂ i₂, s.IsDir d → s.Chain d m → k ∈ m → i < s.slots → k₂ ∈ m →
    i₂ < s.slots → Live (s.entry k i) → Live (s.entry k₂ i₂) →
    (s.entry k i).dirName = (s.entry k₂ i₂).dirName → (k, i) = (k₂, i₂)
  tail : ∀ d m k i j, s.IsDir d → s.Chain d m → k ∈ m → i < j → j < s.slots →
    (s.entry k i).mark = DIR_ENTRY_LAST_FREE → (s.entry k j).mark = DIR_ENTRY_LAST_FREE

/-- The name belongs to no other live entry of the directory. -/
def NameFree (s : Store) (k i : Nat) (n : DirName) : Prop :=
  ∀ d m, s.IsDir d → s.Chain d m → k ∈ m → ∀ k₂ ∈ m, ∀ i₂ < s.slots, (k₂, i₂) ≠ (k, i) →
    Live (s.entry k₂ i₂) → (s.entry k₂ i₂).dirName ≠ n

/-- An update keeps names distinct when the new entry brings no name that is in use and goes
behind no never used slot. -/
theorem Update.distinct (hs : s.Sound) (hd : s.Distinct) {k i : Nat} {l l' : List Nat}
    (hu : Update s s' k i l l') (hmark : (s'.entry k i).mark ≠ DIR_ENTRY_LAST_FREE)
    (hfront : ∀ j < i, (s.entry k j).mark ≠ DIR_ENTRY_LAST_FREE)
    (hname : Live (s'.entry k i) → s.NameFree k i (s'.entry k i).dirName)
    (hrest : Live (s'.entry k i) → (s'.entry k i).isDir = true →
      s.Unowned (s'.entry k i).clus → ∀ j, 2 ≤ j → j < s.slots →
      (s'.entry (s'.entry k i).clus j).mark = DIR_ENTRY_LAST_FREE) : s'.Distinct := by
  have hs' := hu.sound hs
  -- The slots of a new directory: two names in front of never used slots.
  have hnew : ∀ d m, s'.IsDir d → s'.Chain d m → Live (s'.entry k i) →
      (s'.entry k i).isDir = true → (s'.entry k i).clus = d → s.Unowned d →
      (s'.entry d 0).dirName = dotName ∧ (s'.entry d 1).dirName = dotdotName ∧
      ∀ j, 2 ≤ j → j < s.slots → (s'.entry d j).mark = DIR_ENTRY_LAST_FREE := by
    rintro d m hdir hm hlive hattr rfl hf
    have hroot : (s'.entry k i).clus ≠ s'.root := by
      rw [hu.root_eq]
      exact fun heq => hs.not_isDir_of_unowned hf (by rw [heq]; exact .root)
    obtain ⟨hdot, hdotdot⟩ := hs'.dots _ hdir hroot
    exact ⟨hdot, hdotdot, hrest hlive hattr hf⟩
  constructor
  case names =>
    intro d m k₁ i₁ k₂ i₂ hdir hm hk₁ hi₁ hk₂ hi₂ hlive₁ hlive₂ heq
    rw [hu.slots_eq] at hi₁ hi₂
    rcases hu.dir_cases hs hdir hm with ⟨hd₀, hm₀, hsame⟩ | ⟨hlive, hattr, hclus, -, rfl, hf⟩
    · by_cases hslot₁ : (k₁, i₁) = (k, i) <;> by_cases hslot₂ : (k₂, i₂) = (k, i)
      · rw [hslot₁, hslot₂]
      · obtain ⟨rfl, rfl⟩ : k₁ = k ∧ i₁ = i := by simpa using hslot₁
        rw [hsame k₂ hk₂ i₂ hi₂ hslot₂] at hlive₂ heq
        exact absurd heq.symm (hname hlive₁ d m hd₀ hm₀ hk₁ k₂ hk₂ i₂ hi₂ hslot₂ hlive₂)
      · obtain ⟨rfl, rfl⟩ : k₂ = k ∧ i₂ = i := by simpa using hslot₂
        rw [hsame k₁ hk₁ i₁ hi₁ hslot₁] at hlive₁ heq
        exact absurd heq (hname hlive₂ d m hd₀ hm₀ hk₂ k₁ hk₁ i₁ hi₁ hslot₁ hlive₁)
      · rw [hsame k₁ hk₁ i₁ hi₁ hslot₁] at hlive₁ heq
        rw [hsame k₂ hk₂ i₂ hi₂ hslot₂] at hlive₂ heq
        exact hd.names d m k₁ i₁ k₂ i₂ hd₀ hm₀ hk₁ hi₁ hk₂ hi₂ hlive₁ hlive₂ heq
    · obtain ⟨hdot, hdotdot, hzero⟩ := hnew d _ hdir hm hlive hattr hclus hf
      obtain rfl : k₁ = d := by simpa using hk₁
      obtain rfl : k₂ = k₁ := by simpa using hk₂
      have hlt : ∀ j < s.slots, Live (s'.entry k₂ j) → j < 2 := by
        intro j hj hlivej
        by_contra hge
        exact hlivej.2 (hzero j (by omega) hj)
      have hlt₁ := hlt i₁ hi₁ hlive₁
      have hlt₂ := hlt i₂ hi₂ hlive₂
      interval_cases i₁ <;> interval_cases i₂
      · rfl
      · rw [hdot, hdotdot] at heq
        exact absurd heq dotName_ne_dotdotName
      · rw [hdot, hdotdot] at heq
        exact absurd heq.symm dotName_ne_dotdotName
      · rfl
  case tail =>
    intro d m k₂ i₁ j hdir hm hk₂ hij hj hzero
    rw [hu.slots_eq] at hj
    rcases hu.dir_cases hs hdir hm with ⟨hd₀, hm₀, hsame⟩ | ⟨hlive, hattr, hclus, -, rfl, hf⟩
    · by_cases hslot₁ : (k₂, i₁) = (k, i)
      · obtain ⟨rfl, rfl⟩ : k₂ = k ∧ i₁ = i := by simpa using hslot₁
        exact absurd hzero hmark
      · rw [hsame k₂ hk₂ i₁ (by omega) hslot₁] at hzero
        by_cases hslot₂ : (k₂, j) = (k, i)
        · obtain ⟨rfl, rfl⟩ : k₂ = k ∧ j = i := by simpa using hslot₂
          exact absurd hzero (hfront i₁ hij)
        · rw [hsame k₂ hk₂ j hj hslot₂]
          exact hd.tail d m k₂ i₁ j hd₀ hm₀ hk₂ hij hj hzero
    · obtain ⟨hdot, hdotdot, hrestz⟩ := hnew d _ hdir hm hlive hattr hclus hf
      obtain rfl : k₂ = d := by simpa using hk₂
      rcases Nat.lt_or_ge i₁ 2 with hlt | hge
      · -- A dot entry is in use.
        have hused : Live (s'.entry k₂ i₁) := by
          interval_cases i₁
          · exact LegalName.live (by rw [hdot]; exact legalName_dotName)
          · exact LegalName.live (by rw [hdotdot]; exact legalName_dotdotName)
        exact absurd hzero hused.2
      · exact hrestz j (by omega) hj

namespace Distinct

/-- No never used slot stands in front of an item. -/
lemma front (hd : s.Distinct) {k i : Nat} (hitem : s.Item k i) :
    ∀ j < i, (s.entry k j).mark ≠ DIR_ENTRY_LAST_FREE := by
  obtain ⟨⟨d, hdir, ⟨m, hm, hk⟩, hi, -⟩, hlive⟩ := hitem
  intro j hj hzero
  exact hlive.2 (hd.tail d m k j i hdir hm hk hj hi hzero)

/-- The name of an item is its own. -/
lemma nameFree_self (hd : s.Distinct) {k i : Nat} (hitem : s.Item k i) :
    s.NameFree k i (s.entry k i).dirName := by
  intro d m hdir hm hk k₂ hk₂ i₂ hi₂ hne hlive heq
  exact hne (hd.names d m k₂ i₂ k i hdir hm hk₂ hi₂ hk hitem.1.choose_spec.2.2.1 hlive hitem.2 heq)

/-- The duplicate check of a new entry covers all live entries. -/
lemma nameFree_of_admits (hs : s.Sound) (hd : s.Distinct) {d k i : Nat} {n : DirName}
    (hdir : s.IsDir d) (hin : s.InDir d k i) (h : s.Admits d n) : s.NameFree k i n := by
  intro d' m hdir' hm hk k₂ hk₂ i₂ hi₂ _ hlive
  obtain ⟨⟨m₀, hm₀, hk₀⟩, -⟩ := hin
  obtain rfl := hs.dir_eq_of_mem hdir' hdir hm hm₀ hk hk₀
  refine h m k₂ i₂ hm hk₂ hi₂ hlive fun j hj hzero => ?_
  rcases Nat.lt_or_eq_of_le hj with hlt | rfl
  · exact hlive.2 (hd.tail d' m k₂ j i₂ hdir' hm hk₂ hlt hi₂ hzero)
  · exact hlive.2 hzero

end Distinct

lemma FirstFree.front {k i : Nat} (h : s.FirstFree k i) :
    ∀ j < i, (s.entry k j).mark ≠ DIR_ENTRY_LAST_FREE := fun j hj => (h.2 j hj).2

/-- Every operation keeps names distinct when no entry is renamed to a name that another
entry of its directory carries. -/
theorem Change.distinct (hs : s.Sound) (hd : s.Distinct) {a : Action} (h : Change s a s')
    (hr : ∀ k i n, a = .rename k i n → s.NameFree k i n) : s'.Distinct := by
  cases h with
  | create hdir hin hfirst hname hadmits hclus hsize hattr =>
    refine (update_create hdir hin hfirst hclus hsize hattr).distinct hs hd ?_ hfirst.front ?_ ?_
    · rw [entry_putEntry_self]
      exact hname.live.2
    · rw [entry_putEntry_self]
      exact fun _ => Distinct.nameFree_of_admits hs hd hdir hin hadmits
    · intro _ hdir'
      rw [entry_putEntry_self, hattr] at hdir'
      contradiction
  | link hdir hin hfirst hname hadmits hnode hfree hclus hattr hlink =>
    refine (update_link hs _ hdir hin hfirst hname hnode hfree hclus hattr hlink).distinct hs hd
      ?_ hfirst.front ?_ ?_
    · rw [entry_putEntry_self]
      exact hname.live.2
    · rw [entry_putEntry_self]
      exact fun _ => Distinct.nameFree_of_admits hs hd hdir hin hadmits
    · intro _ hdir'
      rw [entry_putEntry_self, hattr] at hdir'
      contradiction
  | @mkdir d k i f p e hdir hin hfirst hname hadmits hnode hfree hclus _ hsize =>
    refine (update_mkdir hs hdir hin hfirst hname hnode hfree hclus hsize).distinct hs hd
      ?_ hfirst.front ?_ ?_
    · rw [entry_putEntry_self]
      exact hname.live.2
    · rw [entry_putEntry_self]
      exact fun _ => Distinct.nameFree_of_admits hs hd hdir hin hadmits
    · intro _ _ _ j hj hlt
      rw [entry_putEntry_self, hclus, entry_new_cluster hs ⟨d, hdir, hin⟩ hfree hlt]
      exact mark_directoryBuffer_rest e p hj
  | @rename k i n hitem hname =>
    obtain ⟨l, hl, -⟩ := hs.item_chain k i hitem
    refine (update_rename hs hitem hname hl).distinct hs hd ?_ (hd.front hitem) ?_ ?_
    · rw [entry_putEntry_self]
      exact (hname.live_rename _).2
    · rw [entry_putEntry_self]
      exact fun _ => hr k i n rfl
    · intro _ hdir' hf
      rw [entry_putEntry_self] at hdir' hf
      exact absurd hf (hs.owned_of_item hitem hdir')
  | @truncate k i l m hitem hattr hl hm =>
    refine (update_truncate hitem hattr hl hm).distinct hs hd ?_ (hd.front hitem) ?_ ?_
    · rw [entry_putEntry_self]
      exact hitem.2.2
    · rw [entry_putEntry_self]
      exact fun _ => hd.nameFree_self hitem
    · intro _ hdir'
      rw [entry_putEntry_self, (truncate_eqs (s.entry k i)).2.1, hattr] at hdir'
      contradiction
  | @delete k i l m hitem hl hm =>
    refine (update_delete hitem hl hm).distinct hs hd ?_ (hd.front hitem) ?_ ?_
    · rw [entry_putEntry_self]
      simp [DirEntry.mark, DIR_ENTRY_FREE, DIR_ENTRY_LAST_FREE]
    · intro hlive
      rw [entry_putEntry_self] at hlive
      exact absurd hlive (not_live_freed _)
    · intro hlive
      rw [entry_putEntry_self] at hlive
      exact absurd hlive (not_live_freed _)
  | @write _ k i _ _ hitem hattr hu hname hkeep _ =>
    refine hu.distinct hs hd ?_ (hd.front hitem) ?_ ?_
    · rw [DirEntry.mark, hname]
      exact hitem.2.2
    · rw [hname]
      exact fun _ => hd.nameFree_self hitem
    · intro _ hdir'
      rw [DirEntry.isDir, DirEntry.hasAttr, hkeep] at hdir'
      rw [DirEntry.isDir, DirEntry.hasAttr] at hattr
      rw [hattr] at hdir'
      contradiction

end Store

end DiegOS.Fat
