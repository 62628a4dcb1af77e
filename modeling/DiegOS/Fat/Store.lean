import DiegOS.Fat.Directory
import DiegOS.Lib.LinkChain

/-!
# The cluster store

What a volume stores, without sectors and addresses: a link table and the bytes
of every data cluster.  Directories are the clusters reached from the root
through live directory entries.  A sound store gives every live entry a chain
of its own.

All entry operations change one directory slot together with the clusters it
owns.  `Update` says what such a step may do, and soundness is proved once
for it.

Main results:

- Theorem `Update.sound`: an update of one slot keeps the store sound.
- Theorem `Update.owns_cases`: the owners of an updated store are the old
  owners and the updated slot.
- Theorem `Update.isDir_mono`: directories survive an update that does not
  remove one.
-/

namespace DiegOS.Fat

open Lib

/-- The link table and the cluster contents of a volume. -/
structure Store where
  fatSize : Nat
  root : Nat
  slots : Nat
  bpc : Nat
  next : Nat → Nat
  byte : Nat → Bytes

/-- An entry in use. -/
def Live (e : DirEntry) : Prop := e.mark ≠ DIR_ENTRY_FREE ∧ e.mark ≠ DIR_ENTRY_LAST_FREE

instance (e : DirEntry) : Decidable (Live e) := inferInstanceAs (Decidable (_ ∧ _))

/-- A directory entry that names a directory. -/
def DirEntry.isDir (e : DirEntry) : Bool := e.hasAttr ATTR_DIRECTORY

/-- A directory entry that names a link. -/
def DirEntry.isLink (e : DirEntry) : Bool := e.hasAttr ATTR_LINK

namespace Store

/-- Data clusters. -/
def Node (s : Store) (c : Nat) : Prop := 2 ≤ c ∧ c < s.fatSize

/-- End-of-chain values. -/
def Stop (v : Nat) : Prop := FAT_EOC ≤ v

/-- `s.Chain c l`: the chain that starts at cluster `c` is `l`. -/
def Chain (s : Store) : Nat → List Nat → Prop := LinkChain s.next s.Node Stop

/-- The `i`-th directory entry of cluster `k`. -/
def entry (s : Store) (k i : Nat) : DirEntry := entryOf (s.byte k) i

/-- The two entries that open every directory but the root. -/
def DotSlot (s : Store) (d k i : Nat) : Prop := d ≠ s.root ∧ k = d ∧ i < 2

/-- `(k, i)` is an ordinary slot of the directory that starts at `d`. -/
def InDir (s : Store) (d k i : Nat) : Prop :=
  (∃ l, s.Chain d l ∧ k ∈ l) ∧ i < s.slots ∧ ¬s.DotSlot d k i

/-- The cluster of a slot is a data cluster. -/
lemma InDir.node {s : Store} {d k i : Nat} (h : s.InDir d k i) : s.Node k := by
  obtain ⟨⟨l, hl, hk⟩, -⟩ := h
  exact hl.node_of_mem k hk

/-- First clusters of the directories reached from the root. -/
inductive IsDir (s : Store) : Nat → Prop
  | root : IsDir s s.root
  | sub {d k i : Nat} (hdir : IsDir s d) (hin : s.InDir d k i) (hlive : Live (s.entry k i))
      (hattr : (s.entry k i).isDir = true) : IsDir s (s.entry k i).clus

/-- An ordinary slot of some directory. -/
def Slot (s : Store) (k i : Nat) : Prop := ∃ d, s.IsDir d ∧ s.InDir d k i

/-- An ordinary live entry of some directory. -/
def Item (s : Store) (k i : Nat) : Prop := s.Slot k i ∧ Live (s.entry k i)

/-- The clusters of an entry; an entry without clusters stores zero. -/
def Clusters (s : Store) (e : DirEntry) (l : List Nat) : Prop :=
  (e.clus = 0 ∧ l = []) ∨ s.Chain e.clus l

/-- `s.Owns o l`: the chain of the root (`none`) or of the entry at a slot. -/
def Owns (s : Store) : Option (Nat × Nat) → List Nat → Prop
  | none, l => s.Chain s.root l
  | some (k, i), l => s.Item k i ∧ s.Clusters (s.entry k i) l

/-- `s.DirOwner o d`: the root or the entry that makes `d` a directory. -/
def DirOwner (s : Store) : Option (Nat × Nat) → Nat → Prop
  | none, d => d = s.root
  | some (k, i), d => s.Item k i ∧ (s.entry k i).isDir = true ∧ (s.entry k i).clus = d

/-- Every live entry has a chain of its own that is long enough for its size, and the
directories open with their dot entries. -/
structure Sound (s : Store) : Prop where
  size_le : s.fatSize ≤ FAT_BAD
  two_le_slots : 2 ≤ s.slots
  slots_fit : entrySize * s.slots ≤ s.bpc
  root_chain : ∃ l, s.Chain s.root l
  item_chain : ∀ k i, s.Item k i → ∃ l, s.Clusters (s.entry k i) l ∧
    ((s.entry k i).isDir = true → l ≠ []) ∧
    ((s.entry k i).isLink = false → (s.entry k i).size ≤ l.length * s.bpc)
  disjoint : ∀ o o' l l', s.Owns o l → s.Owns o' l' → o ≠ o' → l.Disjoint l'
  dots : ∀ d, s.IsDir d → d ≠ s.root →
    (s.entry d 0).dirName = dotName ∧ (s.entry d 1).dirName = dotdotName

variable {s s' : Store}

lemma separated (hsize : s.fatSize ≤ FAT_BAD) : Separated s.Node Stop := by
  intro x hx hstop
  simp only [Node, Stop, FAT_BAD, FAT_EOC] at *
  omega

/-- The clusters of an entry are determined. -/
lemma Clusters.unique (hsize : s.fatSize ≤ FAT_BAD) {e : DirEntry} {l l' : List Nat}
    (h : s.Clusters e l) (h' : s.Clusters e l') : l = l' := by
  rcases h with ⟨hz, rfl⟩ | h <;> rcases h' with ⟨hz', rfl⟩ | h'
  · rfl
  · have := h'.node_head
    simp only [Node] at this
    omega
  · have := h.node_head
    simp only [Node] at this
    omega
  · exact LinkChain.unique (separated hsize) h h'

namespace Sound

lemma chain_unique (hs : s.Sound) {c : Nat} {l l' : List Nat} (h : s.Chain c l)
    (h' : s.Chain c l') : l = l' :=
  LinkChain.unique (separated hs.size_le) h h'

lemma clusters_unique (hs : s.Sound) {e : DirEntry} {l l' : List Nat}
    (h : s.Clusters e l) (h' : s.Clusters e l') : l = l' :=
  Clusters.unique hs.size_le h h'

/-- A directory is owned by the root or by an entry. -/
lemma dirOwner_of_isDir (d : Nat) (hd : s.IsDir d) : ∃ o, s.DirOwner o d := by
  cases hd with
  | root => exact ⟨none, rfl⟩
  | @sub d k i hdir hin hlive hattr =>
    exact ⟨some (k, i), ⟨⟨d, hdir, hin⟩, hlive⟩, hattr, rfl⟩

lemma isDir_of_dirOwner {o : Option (Nat × Nat)} {d : Nat} (h : s.DirOwner o d) :
    s.IsDir d := by
  rcases o with _ | ⟨k, i⟩
  · obtain rfl : d = s.root := h
    exact .root
  · obtain ⟨⟨⟨d', hdir, hin⟩, hlive⟩, hattr, rfl⟩ := h
    exact .sub hdir hin hlive hattr

variable (hs : s.Sound)
include hs

/-- The owner of a directory owns its chain. -/
lemma owns_of_dirOwner {o : Option (Nat × Nat)} {d : Nat}
    (h : s.DirOwner o d) : ∃ l, s.Chain d l ∧ s.Owns o l := by
  rcases o with _ | ⟨k, i⟩
  · obtain rfl : d = s.root := h
    obtain ⟨l, hl⟩ := hs.root_chain
    exact ⟨l, hl, hl⟩
  · obtain ⟨hitem, hattr, rfl⟩ := h
    obtain ⟨l, hl, hne, -⟩ := hs.item_chain k i hitem
    rcases hl with ⟨-, rfl⟩ | hl
    · exact absurd rfl (hne hattr)
    · exact ⟨l, hl, hitem, .inr hl⟩

lemma exists_chain {d : Nat} (hd : s.IsDir d) : ∃ l, s.Chain d l := by
  obtain ⟨o, ho⟩ := dirOwner_of_isDir d hd
  obtain ⟨l, hl, -⟩ := hs.owns_of_dirOwner ho
  exact ⟨l, hl⟩

/-- Owners that share a cluster are the same. -/
lemma owner_eq_of_mem {o o' : Option (Nat × Nat)} {l l' : List Nat} {c : Nat}
    (h : s.Owns o l) (h' : s.Owns o' l') (hc : c ∈ l) (hc' : c ∈ l') : o = o' := by
  by_contra hne
  exact hs.disjoint o o' l l' h h' hne hc hc'

/-- A directory has one owner. -/
lemma dirOwner_unique {o o' : Option (Nat × Nat)} {d : Nat}
    (h : s.DirOwner o d) (h' : s.DirOwner o' d) : o = o' := by
  obtain ⟨l, hl, ho⟩ := hs.owns_of_dirOwner h
  obtain ⟨l', hl', ho'⟩ := hs.owns_of_dirOwner h'
  exact hs.owner_eq_of_mem ho ho' hl.head_mem hl'.head_mem

/-- Directories that share a cluster are the same. -/
lemma dir_eq_of_mem {d d' c : Nat} {l l' : List Nat} (hd : s.IsDir d)
    (hd' : s.IsDir d') (hl : s.Chain d l) (hl' : s.Chain d' l') (hc : c ∈ l) (hc' : c ∈ l') :
    d = d' := by
  obtain ⟨o, ho⟩ := dirOwner_of_isDir d hd
  obtain ⟨o', ho'⟩ := dirOwner_of_isDir d' hd'
  obtain ⟨m, hm, hom⟩ := hs.owns_of_dirOwner ho
  obtain ⟨m', hm', hom'⟩ := hs.owns_of_dirOwner ho'
  obtain rfl := hs.chain_unique hl hm
  obtain rfl := hs.chain_unique hl' hm'
  obtain rfl := hs.owner_eq_of_mem hom hom' hc hc'
  rcases o with _ | ⟨k, i⟩
  · exact Eq.trans ho (Eq.symm ho')
  · exact ho.2.2.symm.trans ho'.2.2

/-- A slot belongs to one directory. -/
lemma inDir_unique {d d' k i i' : Nat} (hd : s.IsDir d) (hd' : s.IsDir d')
    (h : s.InDir d k i) (h' : s.InDir d' k i') : d = d' := by
  obtain ⟨⟨l, hl, hk⟩, -⟩ := h
  obtain ⟨⟨l', hl', hk'⟩, -⟩ := h'
  exact hs.dir_eq_of_mem hd hd' hl hl' hk hk'

/-- No directory is owned by one of its own slots. -/
lemma not_dirOwner_self {d : Nat} (hd : s.IsDir d) :
    ∀ k i, s.InDir d k i → ¬s.DirOwner (some (k, i)) d := by
  induction hd with
  | root =>
    intro k i _ hown
    have := hs.dirOwner_unique (o := none) rfl hown
    contradiction
  | @sub d k₁ i₁ hdir hin hlive hattr ih =>
    intro k i hki hown
    have hown₁ : s.DirOwner (some (k₁, i₁)) (s.entry k₁ i₁).clus :=
      ⟨⟨⟨d, hdir, hin⟩, hlive⟩, hattr, rfl⟩
    have heq := hs.dirOwner_unique hown hown₁
    obtain ⟨rfl, rfl⟩ : k = k₁ ∧ i = i₁ := by simpa using heq
    have hsub := isDir_of_dirOwner hown
    have hd : d = (s.entry k i).clus := hs.inDir_unique hdir hsub hin hki
    exact ih k i hin (hd ▸ hown)

/-- A cluster of a directory is only in the chain of the directory's owner. -/
lemma slot_not_mem {d k i : Nat} {o : Option (Nat × Nat)} {l : List Nat}
    (hd : s.IsDir d) (hin : s.InDir d k i) (ho : s.Owns o l) (hne : ¬s.DirOwner o d) :
    k ∉ l := by
  intro hk
  obtain ⟨⟨m, hm, hkm⟩, -⟩ := hin
  obtain ⟨o', ho'⟩ := dirOwner_of_isDir d hd
  obtain ⟨m', hm', hom'⟩ := hs.owns_of_dirOwner ho'
  obtain rfl := hs.chain_unique hm hm'
  obtain rfl := hs.owner_eq_of_mem ho hom' hk hkm
  exact hne ho'

end Sound

/-! ## Updating one slot -/

/-- The clusters held by whatever is stored at a slot: those of a live entry, none for a
free one. -/
def Holds (s : Store) (k i : Nat) (l : List Nat) : Prop :=
  (Live (s.entry k i) → s.Clusters (s.entry k i) l) ∧ (¬Live (s.entry k i) → l = [])

/-- No live entry and not the root holds the cluster. -/
def Unowned (s : Store) (c : Nat) : Prop := ∀ o l, s.Owns o l → c ∉ l

/-- The entry at the slot names the same directory before and after, and nothing but the
entry has changed. -/
def KeptDir (s s' : Store) (k i : Nat) : Prop :=
  Live (s.entry k i) ∧ (s.entry k i).isDir = true ∧
    (s'.entry k i).clus = (s.entry k i).clus ∧ s'.next = s.next ∧
    ∀ c, c ≠ k → s'.byte c = s.byte c

/-- The entry at the slot names a directory made of one cluster that was not in use, with
nothing in it but its dot entries. -/
def NewDir (s s' : Store) (l' : List Nat) : Prop :=
  ∃ f, l' = [f] ∧ s.Unowned f ∧
    (s'.entry f 0).dirName = dotName ∧ (s'.entry f 1).dirName = dotdotName ∧
    ∀ j, 2 ≤ j → j < s.slots → ¬Live (s'.entry f j)

/-- `Update s s' k i l l'`: the entry at slot `(k, i)` is replaced, its clusters
change from `l` to `l'`, and nothing else happens. -/
structure Update (s s' : Store) (k i : Nat) (l l' : List Nat) : Prop where
  fatSize_eq : s'.fatSize = s.fatSize
  root_eq : s'.root = s.root
  slots_eq : s'.slots = s.slots
  bpc_eq : s'.bpc = s.bpc
  slot : s.Slot k i
  old : s.Holds k i l
  new : s'.Holds k i l'
  fresh : ∀ c ∈ l', c ∉ l → s.Unowned c
  next_frame : ∀ c, c ∉ l → c ∉ l' → s'.next c = s.next c
  byte_frame : ∀ c, c ∉ l' → c ≠ k → s'.byte c = s.byte c
  slot_frame : ∀ j, j ≠ i → j < s.slots → s'.entry k j = s.entry k j
  dir : Live (s'.entry k i) → (s'.entry k i).isDir = true →
    s.KeptDir s' k i ∨ s.NewDir s' l'
  size : Live (s'.entry k i) → (s'.entry k i).isLink = false →
    (s'.entry k i).size ≤ l'.length * s.bpc

namespace Update

variable {k i : Nat} {l l' : List Nat}

/-- Another owner shares no cluster with the slot, before or after. -/
lemma disjoint_other (hs : s.Sound) (hu : Update s s' k i l l') {o : Option (Nat × Nat)}
    {lo : List Nat} (ho : s.Owns o lo) (hne : o ≠ some (k, i)) :
    lo.Disjoint l ∧ lo.Disjoint l' := by
  have hold : lo.Disjoint l := by
    by_cases hlive : Live (s.entry k i)
    · exact hs.disjoint o (some (k, i)) lo l ho ⟨⟨hu.slot, hlive⟩, hu.old.1 hlive⟩ hne
    · rw [hu.old.2 hlive]
      simp
  refine ⟨hold, fun c hc hc' => ?_⟩
  by_cases hcl : c ∈ l
  · exact hold hc hcl
  · exact hu.fresh c hc' hcl o lo ho hc

/-- Chains owned elsewhere are not affected. -/
lemma chain_other (hs : s.Sound) (hu : Update s s' k i l l') {o : Option (Nat × Nat)}
    {lo : List Nat} {c : Nat} (ho : s.Owns o lo) (hne : o ≠ some (k, i)) (hc : s.Chain c lo) :
    s'.Chain c lo := by
  obtain ⟨hold, hnew⟩ := hu.disjoint_other hs ho hne
  have hcongr : LinkChain s'.next s.Node Stop c lo :=
    LinkChain.congr hc fun x hx => hu.next_frame x (hold hx) (hnew hx)
  have hnode : s'.Node = s.Node := by
    funext x
    simp [Node, hu.fatSize_eq]
  rw [Chain, hnode]
  exact hcongr

/-- Entries in directories owned elsewhere are not affected, the slot itself apart. -/
lemma entry_other (hs : s.Sound) (hu : Update s s' k i l l') {o : Option (Nat × Nat)}
    {lo : List Nat} {k₂ i₂ : Nat} (ho : s.Owns o lo) (hne : o ≠ some (k, i)) (hk : k₂ ∈ lo)
    (hi : i₂ < s.slots) (hslot : (k₂, i₂) ≠ (k, i)) : s'.entry k₂ i₂ = s.entry k₂ i₂ := by
  obtain ⟨-, hnew⟩ := hu.disjoint_other hs ho hne
  by_cases hkk : k₂ = k
  · subst hkk
    exact hu.slot_frame i₂ (fun h => hslot (by rw [h])) hi
  · rw [entry, hu.byte_frame k₂ (hnew hk) hkk, entry]

lemma node_eq (hu : Update s s' k i l l') : s'.Node = s.Node := by
  funext x
  simp [Node, hu.fatSize_eq]

lemma chain_unique (hs : s.Sound) (hu : Update s s' k i l l') {c : Nat} {m m' : List Nat}
    (h : s'.Chain c m) (h' : s'.Chain c m') : m = m' := by
  have hsize : s'.fatSize ≤ FAT_BAD := by
    rw [hu.fatSize_eq]
    exact hs.size_le
  exact LinkChain.unique (separated hsize) h h'

/-- How a directory of the updated store relates to the old one: it had another owner, or
it is the one the slot names. -/
def DirCase (s s' : Store) (k i d : Nat) : Prop :=
  (∃ o, s.DirOwner o d ∧ o ≠ some (k, i)) ∨
    (d = (s'.entry k i).clus ∧ Live (s'.entry k i) ∧ (s'.entry k i).isDir = true)

variable (hs : s.Sound)
include hs

/-- A live entry of such a directory, the slot itself apart, is an old entry. -/
lemma item_of_dirCase (hu : Update s s' k i l l') {d k₂ i₂ : Nat}
    (hd : DirCase s s' k i d) (hin : s'.InDir d k₂ i₂) (hlive : Live (s'.entry k₂ i₂))
    (hslot : (k₂, i₂) ≠ (k, i)) :
    s.IsDir d ∧ s.InDir d k₂ i₂ ∧ s'.entry k₂ i₂ = s.entry k₂ i₂ := by
  obtain ⟨⟨m, hm, hkm⟩, hi₂, hdot⟩ := hin
  rw [hu.slots_eq] at hi₂
  have hdot' : ¬s.DotSlot d k₂ i₂ := by simpa [DotSlot, hu.root_eq] using hdot
  rcases hd with ⟨o, ho, hne⟩ | ⟨rfl, hlive', hattr'⟩
  · -- The directory has another owner, so its chain and its slots are the old ones.
    obtain ⟨m₀, hm₀, hom₀⟩ := hs.owns_of_dirOwner ho
    obtain rfl := hu.chain_unique hs hm (hu.chain_other hs hom₀ hne hm₀)
    exact ⟨Sound.isDir_of_dirOwner ho, ⟨⟨m, hm₀, hkm⟩, hi₂, hdot'⟩,
      hu.entry_other hs hom₀ hne hkm hi₂ hslot⟩
  · rcases hu.dir hlive' hattr' with hkept | ⟨f, rfl, hf, -, -, hvoid⟩
    · obtain ⟨hlive₀, hattr₀, hclus, hnext, hbyte⟩ := hkept
      obtain ⟨dk, hdk, hink⟩ := hu.slot
      have hown : s.DirOwner (some (k, i)) (s.entry k i).clus :=
        ⟨⟨⟨dk, hdk, hink⟩, hlive₀⟩, hattr₀, rfl⟩
      obtain ⟨m₀, hm₀, hom₀⟩ := hs.owns_of_dirOwner hown
      have hm' : s'.Chain (s.entry k i).clus m₀ := by
        rw [Chain, hnext, hu.node_eq]
        exact hm₀
      rw [hclus] at hm hdot' ⊢
      obtain rfl := hu.chain_unique hs hm hm'
      have hk₂ : k₂ ≠ k := by
        rintro rfl
        exact hs.slot_not_mem hdk hink hom₀ (hs.not_dirOwner_self hdk k₂ i hink) hkm
      exact ⟨Sound.isDir_of_dirOwner hown, ⟨⟨m, hm₀, hkm⟩, hi₂, hdot'⟩,
        by rw [entry, hbyte k₂ hk₂, entry]⟩
    · -- A new directory holds nothing but its dot entries.
      have hf' : s'.Chain (s'.entry k i).clus [f] := by
        rcases hu.new.1 hlive' with ⟨-, hnil⟩ | hchain
        · simp at hnil
        · exact hchain
      obtain rfl := hu.chain_unique hs hm hf'
      have hhead : (s'.entry k i).clus = f := by simpa using hf'.head_mem
      obtain rfl : k₂ = f := by simpa using hkm
      obtain ⟨lr, hlr⟩ := hs.root_chain
      have hroot : k₂ ≠ s.root := fun heq => hf none lr hlr (heq ▸ hlr.head_mem)
      have htwo : 2 ≤ i₂ := by
        by_contra hlt
        exact hdot' ⟨by rw [hhead]; exact hroot, hhead.symm, by omega⟩
      exact absurd hlive (hvoid i₂ htwo hi₂)

/-- A directory after the update was one before with another owner, or is the one the
slot names. -/
lemma isDir_cases (hu : Update s s' k i l l') {d : Nat} (hd : s'.IsDir d) :
    DirCase s s' k i d := by
  induction hd with
  | root => exact .inl ⟨none, hu.root_eq, by simp⟩
  | @sub d k₂ i₂ hdir hin hlive hattr ih =>
    by_cases hslot : (k₂, i₂) = (k, i)
    · obtain ⟨rfl, rfl⟩ : k₂ = k ∧ i₂ = i := by simpa using hslot
      exact .inr ⟨rfl, hlive, hattr⟩
    · obtain ⟨hd, hin', hent⟩ := hu.item_of_dirCase hs ih hin hlive hslot
      rw [hent] at hlive hattr ⊢
      exact .inl ⟨some (k₂, i₂), ⟨⟨⟨d, hd, hin'⟩, hlive⟩, hattr, rfl⟩, by simpa using hslot⟩

/-- A live entry after the update is the updated one or an old one. -/
lemma item_cases (hu : Update s s' k i l l') {k₂ i₂ : Nat}
    (h : s'.Item k₂ i₂) :
    (k₂, i₂) = (k, i) ∨
      ((k₂, i₂) ≠ (k, i) ∧ s.Item k₂ i₂ ∧ s'.entry k₂ i₂ = s.entry k₂ i₂) := by
  by_cases hslot : (k₂, i₂) = (k, i)
  · exact .inl hslot
  · obtain ⟨⟨d, hdir, hin⟩, hlive⟩ := h
    obtain ⟨hd, hin', hent⟩ :=
      hu.item_of_dirCase hs (hu.isDir_cases hs hdir) hin hlive hslot
    rw [hent] at hlive
    exact .inr ⟨hslot, ⟨⟨d, hd, hin'⟩, hlive⟩, hent⟩

/-- The clusters of an entry owned elsewhere do not change. -/
lemma clusters_other (hu : Update s s' k i l l') {k₂ i₂ : Nat} {m : List Nat}
    (hitem : s.Item k₂ i₂) (hslot : (k₂, i₂) ≠ (k, i))
    (hm : s.Clusters (s.entry k₂ i₂) m) : s'.Clusters (s.entry k₂ i₂) m := by
  rcases hm with ⟨hz, rfl⟩ | hm
  · exact .inl ⟨hz, rfl⟩
  · exact .inr (hu.chain_other hs (o := some (k₂, i₂)) ⟨hitem, .inr hm⟩ (by simpa using hslot) hm)

lemma clusters_unique (hu : Update s s' k i l l') {e : DirEntry}
    {m m' : List Nat} (h : s'.Clusters e m) (h' : s'.Clusters e m') : m = m' := by
  have hsize : s'.fatSize ≤ FAT_BAD := by
    rw [hu.fatSize_eq]
    exact hs.size_le
  exact Clusters.unique hsize h h'

/-- The owners of an updated store are the updated slot and the old owners. -/
theorem owns_cases (hu : Update s s' k i l l') {o : Option (Nat × Nat)}
    {m : List Nat} (h : s'.Owns o m) :
    (o = some (k, i) ∧ m = l') ∨ (o ≠ some (k, i) ∧ s.Owns o m) := by
  rcases o with _ | ⟨k₂, i₂⟩
  · right
    obtain ⟨lr, hlr⟩ := hs.root_chain
    have hlr' := hu.chain_other hs (o := none) hlr (by simp) hlr
    have hm : s'.Chain s'.root m := h
    rw [hu.root_eq] at hm
    obtain rfl := hu.chain_unique hs hm hlr'
    exact ⟨by simp, hlr⟩
  · obtain ⟨hitem, hm⟩ := h
    rcases hu.item_cases hs hitem with hslot | ⟨hslot, hitem₀, hent⟩
    · left
      obtain ⟨rfl, rfl⟩ : k₂ = k ∧ i₂ = i := by simpa using hslot
      exact ⟨rfl, hu.clusters_unique hs hm (hu.new.1 hitem.2)⟩
    · right
      obtain ⟨m₀, hm₀, -⟩ := hs.item_chain k₂ i₂ hitem₀
      have hm₀' := hu.clusters_other hs hitem₀ hslot hm₀
      rw [hent] at hm
      obtain rfl := hu.clusters_unique hs hm hm₀'
      exact ⟨by simpa using hslot, hitem₀, hm₀⟩

/-- The dot entries of a directory stay in place. -/
lemma dots (hu : Update s s' k i l l') {d : Nat} (hd : s'.IsDir d)
    (hroot : d ≠ s'.root) :
    (s'.entry d 0).dirName = dotName ∧ (s'.entry d 1).dirName = dotdotName := by
  have htwo := hs.two_le_slots
  have hroot' : d ≠ s.root := by rwa [← hu.root_eq]
  obtain ⟨dk, hdk, hink⟩ := hu.slot
  rcases hu.isDir_cases hs hd with ⟨o, ho, hne⟩ | ⟨rfl, hlive, hattr⟩
  · have hd₀ := Sound.isDir_of_dirOwner ho
    obtain ⟨m, hm, hom⟩ := hs.owns_of_dirOwner ho
    have hkeep : ∀ j < 2, s'.entry d j = s.entry d j := by
      intro j hj
      refine hu.entry_other hs hom hne hm.head_mem (by omega) fun heq => ?_
      -- The updated slot is an ordinary one, so it is no dot entry of its directory.
      obtain ⟨rfl, rfl⟩ : d = k ∧ j = i := by simpa using heq
      obtain ⟨⟨mk, hmk, hkmk⟩, -, hdot⟩ := hink
      obtain rfl := hs.dir_eq_of_mem hdk hd₀ hmk hm hkmk hm.head_mem
      exact hdot ⟨hroot', rfl, hj⟩
    rw [hkeep 0 (by omega), hkeep 1 (by omega)]
    exact hs.dots d hd₀ hroot'
  · rcases hu.dir hlive hattr with hkept | ⟨f, rfl, -, hdot, hdotdot, -⟩
    · obtain ⟨hlive₀, hattr₀, hclus, -, hbyte⟩ := hkept
      have hown : s.DirOwner (some (k, i)) (s.entry k i).clus :=
        ⟨⟨⟨dk, hdk, hink⟩, hlive₀⟩, hattr₀, rfl⟩
      obtain ⟨m, hm, hom⟩ := hs.owns_of_dirOwner hown
      have hk : (s.entry k i).clus ≠ k := fun heq =>
        hs.slot_not_mem hdk hink hom (hs.not_dirOwner_self hdk k i hink) (heq ▸ hm.head_mem)
      have hbyte' := hbyte _ hk
      rw [hclus] at hroot' ⊢
      simp only [entry, hbyte'] at *
      exact hs.dots _ (Sound.isDir_of_dirOwner hown) hroot'
    · have hf : s'.Chain (s'.entry k i).clus [f] := by
        rcases hu.new.1 hlive with ⟨-, hnil⟩ | hchain
        · simp at hnil
        · exact hchain
      have hhead : (s'.entry k i).clus = f := by simpa using hf.head_mem
      rw [hhead]
      exact ⟨hdot, hdotdot⟩

/-- An update of one slot keeps the store sound. -/
theorem sound (hu : Update s s' k i l l') : s'.Sound where
  size_le := by
    rw [hu.fatSize_eq]
    exact hs.size_le
  two_le_slots := by
    rw [hu.slots_eq]
    exact hs.two_le_slots
  slots_fit := by
    rw [hu.slots_eq, hu.bpc_eq]
    exact hs.slots_fit
  root_chain := by
    obtain ⟨lr, hlr⟩ := hs.root_chain
    rw [hu.root_eq]
    exact ⟨lr, hu.chain_other hs (o := none) hlr (by simp) hlr⟩
  item_chain := by
    intro k₂ i₂ hitem
    rcases hu.item_cases hs hitem with hslot | ⟨hslot, hitem₀, hent⟩
    · obtain ⟨rfl, rfl⟩ : k₂ = k ∧ i₂ = i := by simpa using hslot
      refine ⟨l', hu.new.1 hitem.2, fun hattr => ?_, fun hlink => ?_⟩
      · rcases hu.dir hitem.2 hattr with ⟨hlive₀, hattr₀, hclus, -⟩ | ⟨f, rfl, -⟩
        · obtain ⟨m, hm, hne, -⟩ := hs.item_chain k₂ i₂ ⟨hu.slot, hlive₀⟩
          have hchain : s.Chain (s.entry k₂ i₂).clus m := by
            rcases hm with ⟨-, rfl⟩ | hm
            · exact absurd rfl (hne hattr₀)
            · exact hm
          have hnode := hchain.node_head
          rw [← hclus] at hnode
          rcases hu.new.1 hitem.2 with ⟨hz, -⟩ | hnew
          · rw [hz] at hnode
            simp [Node] at hnode
          · exact hnew.ne_nil
        · simp
      · rw [hu.bpc_eq]
        exact hu.size hitem.2 hlink
    · obtain ⟨m, hm, hdir, hsize⟩ := hs.item_chain k₂ i₂ hitem₀
      rw [hent, hu.bpc_eq]
      exact ⟨m, hu.clusters_other hs hitem₀ hslot hm, hdir, hsize⟩
  disjoint := by
    intro o o' m m' ho ho' hne
    rcases hu.owns_cases hs ho with ⟨rfl, rfl⟩ | ⟨hneo, ho⟩ <;>
      rcases hu.owns_cases hs ho' with ⟨rfl, rfl⟩ | ⟨hneo', ho'⟩
    · exact absurd rfl hne
    · exact (hu.disjoint_other hs ho' hneo').2.symm
    · exact (hu.disjoint_other hs ho hneo).2
    · exact hs.disjoint o o' m m' ho ho' hne
  dots := fun _ hd hroot => hu.dots hs hd hroot

/-- The directories of the old store are still there, unless the slot stopped naming one. -/
theorem isDir_mono (hu : Update s s' k i l l')
    (hkeep : Live (s.entry k i) → (s.entry k i).isDir = true →
      Live (s'.entry k i) ∧ (s'.entry k i).isDir = true ∧ s.KeptDir s' k i)
    {d : Nat} (hd : s.IsDir d) :
    s'.IsDir d ∧ ∀ k₂ i₂, s.InDir d k₂ i₂ → s'.InDir d k₂ i₂ ∧
      ((k₂, i₂) ≠ (k, i) → s'.entry k₂ i₂ = s.entry k₂ i₂) := by
  -- A directory keeps its chain, and with it its slots.
  have hslots : ∀ {d : Nat}, s.IsDir d → ∀ k₂ i₂, s.InDir d k₂ i₂ → s'.InDir d k₂ i₂ ∧
      ((k₂, i₂) ≠ (k, i) → s'.entry k₂ i₂ = s.entry k₂ i₂) := by
    intro d hd k₂ i₂ hin
    obtain ⟨⟨m, hm, hkm⟩, hi₂, hdot⟩ := hin
    have hi₂' : i₂ < s'.slots := by rwa [hu.slots_eq]
    have hdot' : ¬s'.DotSlot d k₂ i₂ := by simpa [DotSlot, hu.root_eq] using hdot
    obtain ⟨o, ho⟩ := Sound.dirOwner_of_isDir d hd
    obtain ⟨m₀, hm₀, hom₀⟩ := hs.owns_of_dirOwner ho
    obtain rfl := hs.chain_unique hm hm₀
    by_cases hne : o = some (k, i)
    · subst hne
      obtain ⟨hitem, hattr, rfl⟩ := ho
      obtain ⟨-, -, -, -, -, hnext, hbyte⟩ := hkeep hitem.2 hattr
      obtain ⟨dk, hdk, hink⟩ := hu.slot
      have hk₂ : k₂ ≠ k := by
        rintro rfl
        exact hs.slot_not_mem hdk hink hom₀ (hs.not_dirOwner_self hdk k₂ i hink) hkm
      have hm' : s'.Chain (s.entry k i).clus m := by
        rw [Chain, hnext, hu.node_eq]
        exact hm
      exact ⟨⟨⟨m, hm', hkm⟩, hi₂', hdot'⟩, fun _ => by rw [entry, hbyte k₂ hk₂, entry]⟩
    · exact ⟨⟨⟨m, hu.chain_other hs hom₀ hne hm, hkm⟩, hi₂', hdot'⟩,
        hu.entry_other hs hom₀ hne hkm hi₂⟩
  refine ⟨?_, hslots hd⟩
  induction hd with
  | root =>
    rw [← hu.root_eq]
    exact .root
  | @sub d k₂ i₂ hdir hin hlive hattr ih =>
    obtain ⟨hin', hent⟩ := hslots hdir k₂ i₂ hin
    by_cases hslot : (k₂, i₂) = (k, i)
    · obtain ⟨rfl, rfl⟩ : k₂ = k ∧ i₂ = i := by simpa using hslot
      obtain ⟨hlive', hattr', -, -, hclus, -⟩ := hkeep hlive hattr
      rw [← hclus]
      exact .sub ih hin' hlive' hattr'
    · rw [← hent hslot] at hlive hattr ⊢
      exact .sub ih hin' hlive hattr

/-- The other owners are still there, unless the slot stopped naming a directory. -/
lemma owns_mono (hu : Update s s' k i l l')
    (hkeep : Live (s.entry k i) → (s.entry k i).isDir = true →
      Live (s'.entry k i) ∧ (s'.entry k i).isDir = true ∧ s.KeptDir s' k i)
    {o : Option (Nat × Nat)} {m : List Nat} (h : s.Owns o m) (hne : o ≠ some (k, i)) :
    s'.Owns o m := by
  rcases o with _ | ⟨k₂, i₂⟩
  · have hm : s.Chain s.root m := h
    have hm' := hu.chain_other hs h hne hm
    rwa [← hu.root_eq] at hm'
  · obtain ⟨⟨⟨d, hd, hin⟩, hlive⟩, hm⟩ := h
    obtain ⟨hd', hslots⟩ := hu.isDir_mono hs hkeep hd
    obtain ⟨hin', hent⟩ := hslots k₂ i₂ hin
    have hslot : (k₂, i₂) ≠ (k, i) := by simpa using hne
    have hm' := hu.clusters_other hs ⟨⟨d, hd, hin⟩, hlive⟩ hslot hm
    rw [← hent hslot] at hlive hm'
    exact ⟨⟨⟨d, hd', hin'⟩, hlive⟩, hm'⟩

end Update

end Store

end DiegOS.Fat
