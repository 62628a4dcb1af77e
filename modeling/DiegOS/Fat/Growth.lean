import DiegOS.Fat.Paths
import DiegOS.Fat.Space

/-!
# Adding an entry to a directory

What `FAT_create_entry` should do to a directory that does not hold the name
yet: the new entry is found on its path, and everything that was there is still
found.  A full directory should grow by a cluster.  The branch for it links the
new cluster from the end mark of the chain and not from its last cluster, so it
fails.

Main results:

- Theorem `Store.Resolves.update`: filling a free slot keeps what paths lead to.
- Theorem `directory_grows_iff`: the entry is added exactly if the directory has a free
  slot and the path is not too long to be looked up.
-/

namespace DiegOS.Fat

open Lib

/-! ## Filling a free slot -/

namespace Store

variable {s s' : Store} {k i : Nat} {l : List Nat}

/-- Filling a free slot keeps the live entries of all directories. -/
theorem Named.update (hs : s.Sound) (hu : Update s s' k i [] l) (hfree : ¬Live (s.entry k i))
    {d k₂ i₂ : Nat} {n : DirName} (h : s.Named d n k₂ i₂) :
    s'.Named d n k₂ i₂ ∧ s'.entry k₂ i₂ = s.entry k₂ i₂ := by
  have hdir := (hu.isDir_mono hs (fun hlive => absurd hlive hfree) h.dir).1
  obtain ⟨m, hm, hk⟩ := h.cluster
  obtain ⟨o, ho⟩ := Sound.dirOwner_of_isDir d h.dir
  obtain ⟨m', hm', hown⟩ := hs.owns_of_dirOwner ho
  obtain rfl := hs.chain_unique hm hm'
  have hne : o ≠ some (k, i) := by
    rintro rfl
    exact hfree ho.1.2
  have hslot : (k₂, i₂) ≠ (k, i) := by
    intro heq
    cases heq
    exact hfree h.live
  have hent := hu.entry_other hs hown hne hk h.lt hslot
  refine ⟨⟨hdir, ⟨m, hu.chain_other hs hown hne hm, hk⟩, ?_, ?_, ?_⟩, hent⟩
  · rw [hu.slots_eq]
    exact h.lt
  · rw [hent]
    exact h.live
  · rw [hent]
    exact h.name

/-- Filling a free slot keeps what names lead to. -/
theorem Resolves.update (hs : s.Sound) (hu : Update s s' k i [] l)
    (hfree : ¬Live (s.entry k i)) {d d' k₂ i₂ : Nat} {names : List DirName}
    (h : s.Resolves d names d' k₂ i₂) :
    s'.Resolves d names d' k₂ i₂ ∧ s'.entry k₂ i₂ = s.entry k₂ i₂ := by
  induction h with
  | last h =>
    have hkeep := h.update hs hu hfree
    exact ⟨.last hkeep.1, hkeep.2⟩
  | inner h hattr _ ih =>
    have hkeep := h.update hs hu hfree
    refine ⟨.inner hkeep.1 ?_ ?_, ih.2⟩
    · rw [hkeep.2]
      exact hattr
    · rw [hkeep.2]
      exact ih.1

/-- Below the directory that names lead to, one more name leads to its entry. -/
lemma Resolves.snoc {d d' k₂ i₂ k₃ i₃ : Nat} {names : List DirName} {n : DirName}
    (h : s.Resolves d names d' k₂ i₂) (hattr : (s.entry k₂ i₂).isDir = true)
    (hn : s.Named (s.entry k₂ i₂).clus n k₃ i₃) :
    s.Resolves d (names ++ [n]) (s.entry k₂ i₂).clus k₃ i₃ := by
  induction h with
  | last h => exact .inner h hattr (.last hn)
  | inner h hattr' _ ih => exact .inner h hattr' (ih hattr hn)

end Store

/-! ## Paths of new entries -/

lemma separator_not_mem {name : List UInt8} {n : DirName} (h : fatBuildDIRName name = some n) :
    separator ∉ name := by
  intro hmem
  rw [fatBuildDIRName] at h
  have hany : name.any check = true := List.any_eq_true.mpr ⟨separator, hmem, by decide⟩
  simp [hany] at h

lemma length_of_build {name : List UInt8} {n : DirName} (h : fatBuildDIRName name = some n) :
    name.length ≤ DIR_NAMELEN := by
  rw [fatBuildDIRName] at h
  by_contra hlong
  rw [if_pos (by omega)] at h
  contradiction

/-- One more name behind a path. -/
lemma fatParseDirectory_snoc {parent name : List UInt8} {names : List DirName} {n : DirName}
    (hparse : fatParseDirectory parent = some names) (hname : fatBuildDIRName name = some n)
    (hne : name ≠ []) : fatParseDirectory (parent ++ separator :: name) = some (names ++ [n]) := by
  rw [fatParseDirectory_eq_mapM] at hparse ⊢
  rw [runs_append_separator, runs_of_not_mem (separator_not_mem hname) hne, List.mapM_append,
    hparse, List.mapM_cons, hname, List.mapM_nil]
  rfl

/-- The last separator of a path is the one in front of its last name. -/
lemma fatParseDirectoryLast_snoc {parent name : List UInt8} (hname : separator ∉ name)
    (habs : (parent ++ separator :: name)[0]? = some separator) :
    fatParseDirectoryLast (parent ++ separator :: name) (parent ++ separator :: name).length =
      parent.length := by
  obtain ⟨hlt, hat, hafter⟩ := fatParseDirectoryLast_spec le_rfl (by simp) habs
  generalize fatParseDirectoryLast (parent ++ separator :: name)
    (parent ++ separator :: name).length = pos at *
  rcases Nat.lt_trichotomy pos parent.length with hbefore | heq | hbehind
  · refine absurd ?_ (hafter parent.length hbefore (by simp))
    rw [List.getElem?_append_right le_rfl, Nat.sub_self]
    rfl
  · exact heq
  · rw [List.getElem?_append_right (by omega)] at hat
    obtain ⟨j, hj⟩ : ∃ j, pos - parent.length = j + 1 := ⟨pos - parent.length - 1, by omega⟩
    rw [hj, List.getElem?_cons_succ] at hat
    exact absurd (List.mem_of_getElem? hat) hname

/-- The path leads to a directory; the path of the root is empty. -/
structure LeadsToDir (vol : FATVolume) (path : List UInt8) (d : Nat) : Prop where
  dir : vol.view.IsDir d
  leads : (path = [] ∧ d = vol.view.root) ∨
    path[0]? = some separator ∧ ∃ names d' k i, fatParseDirectory path = some names ∧
      vol.view.Resolves vol.view.root names d' k i ∧ (vol.view.entry k i).isDir = true ∧
      (vol.view.entry k i).clus = d

namespace LeadsToDir

variable {vol : FATVolume} {parent name : List UInt8} {d : Nat}

variable (h : LeadsToDir vol parent d)
include h

lemma absolute :
    (parent ++ separator :: name)[0]? = some separator := by
  rcases h.leads with ⟨rfl, -⟩ | ⟨habs, -⟩
  · rfl
  · rw [List.getElem?_append_left]
    · exact habs
    · exact (List.getElem?_eq_some_iff.mp habs).1

/-- An entry of the directory is what its path leads to. -/
lemma resolves {n : DirName} {k i : Nat}
    (hname : fatBuildDIRName name = some n) (hne : name ≠ []) (hn : vol.view.Named d n k i) :
    ∃ names, fatParseDirectory (parent ++ separator :: name) = some names ∧
      vol.view.Resolves vol.view.root names d k i := by
  rcases h.leads with ⟨rfl, rfl⟩ | ⟨-, names, d', k₂, i₂, hparse, hres, hattr, rfl⟩
  · exact ⟨_, fatParseDirectory_snoc rfl hname hne, .last hn⟩
  · exact ⟨_, fatParseDirectory_snoc hparse hname hne, hres.snoc hattr hn⟩

/-- The container the creating operations look up. -/
lemma parentCluster_eq (hw : Searchable vol)
    (hname : separator ∉ name) (hlen : parent.length ≤ FILENAME_MAX) (junk : SearchResult) :
    parentCluster vol (parent ++ separator :: name) junk = some d := by
  unfold parentCluster
  rw [fatParseDirectoryLast_snoc hname h.absolute]
  rcases h.leads with ⟨rfl, rfl⟩ | ⟨habs, names, d', k, i, hparse, hres, -, rfl⟩
  · rfl
  · have hpos : parent.length ≠ 0 := by
      intro hzero
      rw [List.length_eq_zero_iff.mp hzero] at habs
      simp at habs
    obtain ⟨r, hr, hent, -⟩ :=
      searchSplits_of_resolves hw hres (legal_of_parse hparse) vol.view.root false junk
    rw [if_neg hpos, List.take_left, fatSearchDIREntry_eq hparse (by omega), hr,
      Option.map_some, hent]

/-- A name that is new in the directory passes all checks of the creating operations. -/
lemma locateEntry_eq (hw : Searchable vol) {n : DirName}
    (hname : fatBuildDIRName name = some n) (hlen : parent.length ≤ FILENAME_MAX)
    (hnew : ∀ k i, ¬vol.view.Named d n k i) (junk : Junk) :
    locateEntry vol (parent ++ separator :: name) junk =
      some ⟨n, d, scanDirectory vol fatSearchFreeLoop junk.create d⟩ := by
  have hnot := separator_not_mem hname
  have hpos := fatParseDirectoryLast_snoc hnot h.absolute
  have hdir := h.parentCluster_eq hw hnot hlen junk.search
  have hshort := length_of_build hname
  have hscan : scanDirectory vol (fatSearchLoop n) junk.create d = none := by
    cases hscan : scanDirectory vol (fatSearchLoop n) junk.create d with
    | none => rfl
    | some r =>
      obtain ⟨k, i, hnamed, -⟩ := named_of_scan hw (fatBuildDIRName_legal hname) h.dir hscan
      exact absurd hnamed (hnew k i)
  have hdrop : (parent ++ separator :: name).drop (parent.length + 1) = name := by
    rw [List.drop_append, List.drop_eq_nil_of_le (by omega), Nat.add_sub_cancel_left]
    rfl
  unfold parentCluster at hdir
  unfold locateEntry
  rw [hpos] at hdir ⊢
  dsimp only at hdir ⊢
  rw [hdir, hdrop, hname, if_neg (by simp; omega)]
  simp [hscan]

end LeadsToDir

/-! ## The new entry -/

/-- `FAT_get_entry` finds what a path leads to. -/
lemma fatGetEntry_of_resolves {vol : FATVolume} (hw : Searchable vol) {path : List UInt8}
    {names : List DirName} {d k i : Nat} (hparse : fatParseDirectory path = some names)
    (hres : vol.view.Resolves vol.view.root names d k i) (hlen : path.length ≤ FILENAME_MAX)
    (junk : SearchResult) :
    fatGetEntry vol path junk = if 0 < fatCheckDIREntry (vol.view.entry k i) then
      some (vol.view.entry k i) else none := by
  have hpos : path.length ≠ 0 := by
    intro hzero
    rw [List.length_eq_zero_iff.mp hzero] at hparse
    obtain rfl : [] = names := Option.some.inj hparse
    exact Store.not_resolves_nil hres
  obtain ⟨r, hr, hent, -⟩ :=
    searchSplits_of_resolves hw hres (legal_of_parse hparse) vol.view.root false junk
  rw [fatGetEntry, if_neg hpos, fatSearchDIREntry_eq hparse (by omega), hr]
  dsimp only
  rw [hent]

/-- A path that is too long is not looked up. -/
lemma fatGetEntry_long {vol : FATVolume} {path : List UInt8}
    (hlen : ¬path.length ≤ FILENAME_MAX) (junk : SearchResult) :
    fatGetEntry vol path junk = none := by
  have hnone : fatSearchDIREntry vol path junk = none := by
    rw [fatSearchDIREntry, if_pos (.inr (by omega))]
  rw [fatGetEntry, hnone]
  split <;> rfl

/-- Creating an entry on a path works: it is found there with the given attributes and no
bytes, and all that was found before is found unchanged. -/
structure EntryAdded (vol : FATVolume) (path : List UInt8) (attributes : UInt8) (now : Tm)
    (junk : Junk) : Prop where
  code : (fatCreateEntry vol path attributes now junk).2 = 0
  found : ∀ junk', ∃ e,
    fatGetEntry (fatCreateEntry vol path attributes now junk).1 path junk' = some e ∧
      e.dirAttr = attributes ∧ e.size = 0
  kept : ∀ d n k i, vol.view.Named d n k i →
    (fatCreateEntry vol path attributes now junk).1.view.Named d n k i ∧
      (fatCreateEntry vol path attributes now junk).1.view.entry k i = vol.view.entry k i
  paths : ∀ p names d k i, fatParseDirectory p = some names →
    vol.view.Resolves vol.view.root names d k i → ∀ junk',
      fatGetEntry (fatCreateEntry vol path attributes now junk).1 p junk' =
        fatGetEntry vol p junk'

section Added

variable {vol vol' : FATVolume} (hv : Ready vol) (hd : vol.view.Distinct)
include hv hd

lemma searchable_of_ready : Searchable vol := ⟨hv.mounted, hv.reads, hv.sound, hd⟩

/-- A volume with a new entry can be searched. -/
lemma Created.searchable {d p k i : Nat} {n : DirName} {attributes : UInt8}
    (h : Created vol vol' d p n attributes k i) : Searchable vol' where
  mounted := h.mounted
  reads := h.same.serves hv.reads
  sound := h.change.sound hv.sound
  distinct := by
    refine h.change.distinct hv.sound hd fun k₂ i₂ n₂ heq => ?_
    split at heq <;> cases heq

/-- When the entry is stored in the directory, the creation has worked. -/
lemma entryAdded_of_created {parent name : List UInt8} {d p k i : Nat} {n : DirName}
    {attributes : UInt8} {now : Tm} {junk : Junk} (hparent : LeadsToDir vol parent d)
    (hname : fatBuildDIRName name = some n) (hne : name ≠ [])
    (hlen : (parent ++ separator :: name).length ≤ FILENAME_MAX)
    (hattr : fatCheckAttrib attributes = 0)
    (heq : fatCreateEntry vol (parent ++ separator :: name) attributes now junk = (vol', 0))
    (h : Created vol vol' d p n attributes k i) :
    EntryAdded vol (parent ++ separator :: name) attributes now junk := by
  obtain ⟨l, hu⟩ := h.update
  have hw' := h.searchable hv hd
  have hkept : ∀ d n k₂ i₂, vol.view.Named d n k₂ i₂ → vol'.view.Named d n k₂ i₂ ∧
      vol'.view.entry k₂ i₂ = vol.view.entry k₂ i₂ :=
    fun d n k₂ i₂ hn => hn.update hv.sound hu h.first.1
  have hdir := hu.isDir_mono hv.sound (fun hlive => absurd hlive h.first.1) hparent.dir
  have hlegal : LegalName (vol'.view.entry k i).dirName := by
    rw [h.name]
    exact fatBuildDIRName_legal hname
  have hparent' : LeadsToDir vol' parent d := by
    refine ⟨hdir.1, ?_⟩
    rcases hparent.leads with ⟨hnil, hroot⟩ | ⟨habs, names, d', k₂, i₂, hparse, hres, hisDir, hclus⟩
    · exact .inl ⟨hnil, by rw [hu.root_eq, hroot]⟩
    · obtain ⟨hres', hent⟩ := hres.update hv.sound hu h.first.1
      rw [← hu.root_eq] at hres'
      rw [← hent] at hisDir hclus
      exact .inr ⟨habs, names, d', k₂, i₂, hparse, hres', hisDir, hclus⟩
  obtain ⟨hchain, hlt, -⟩ := (hdir.2 k i h.slot).1
  have hnamed : vol'.view.Named d n k i := ⟨hdir.1, hchain, hlt, hlegal.live, h.name⟩
  have hcheck : 0 < fatCheckDIREntry (vol'.view.entry k i) := by
    have hused : (vol'.view.entry k i).mark ≠ 0 := hlegal.live.2
    have hmask : attributes &&& (ATTR_DIRECTORY ||| ATTR_VOLUME_ID) ≠
        ATTR_DIRECTORY ||| ATTR_VOLUME_ID := by
      intro hmask
      rw [fatCheckAttrib, if_neg (not_not_intro hmask)] at hattr
      contradiction
    rw [fatCheckDIREntry, if_neg hused, h.attr, if_pos ⟨hlegal.live.1, hmask⟩]
    decide
  constructor
  case code => rw [heq]
  case found =>
    intro junk'
    obtain ⟨names, hparse, hres⟩ := hparent'.resolves hname hne hnamed
    rw [heq]
    refine ⟨vol'.view.entry k i, ?_, h.attr, h.size⟩
    rw [fatGetEntry_of_resolves hw' hparse hres hlen, if_pos hcheck]
  case kept =>
    rw [heq]
    exact hkept
  case paths =>
    intro q names d₂ k₂ i₂ hparse hres junk'
    rw [heq]
    obtain ⟨hres', hent⟩ := hres.update hv.sound hu h.first.1
    rw [← hu.root_eq] at hres'
    by_cases hshort : q.length ≤ FILENAME_MAX
    · rw [fatGetEntry_of_resolves hw' hparse hres' hshort,
        fatGetEntry_of_resolves (searchable_of_ready hv hd) hparse hres hshort, hent]
    · rw [fatGetEntry_long hshort, fatGetEntry_long hshort]

/-- On a sound volume, creating a new legal name in an existing directory works exactly if
some slot of the directory is free and the path can be looked up; a full directory does not
grow. -/
theorem directory_grows_iff {parent name : List UInt8} {d : Nat} {n : DirName}
    {attributes : UInt8} (hparent : LeadsToDir vol parent d)
    (hname : fatBuildDIRName name = some n) (hne : name ≠ [])
    (hnew : ∀ k i, ¬vol.view.Named d n k i) (hattr : fatCheckAttrib attributes = 0)
    (hlink : attributes &&& ATTR_LINK = 0)
    (hfree : attributes &&& ATTR_DIRECTORY ≠ 0 → ∃ c, vol.view.Node c ∧ vol.view.next c = 0)
    (now : Tm) (junk : Junk) :
    EntryAdded vol (parent ++ separator :: name) attributes now junk ↔
      vol.view.HasRoom d ∧ (parent ++ separator :: name).length ≤ FILENAME_MAX := by
  by_cases hlen : (parent ++ separator :: name).length ≤ FILENAME_MAX
  · have hw := searchable_of_ready hv hd
    have hargs : ¬((parent ++ separator :: name).length < 2 ∨
        (parent ++ separator :: name).getD 0 0 ≠ separator) := by
      have habs : (parent ++ separator :: name)[0]? = some separator := hparent.absolute
      have hpos := List.length_pos_of_ne_nil hne
      rw [not_or, List.getD_eq_getElem?_getD, habs]
      simp
      omega
    have hloc := hparent.locateEntry_eq hw hname (by simp at hlen; omega) hnew junk
    have hrefused : ¬(fatCheckAttrib attributes ≠ 0 ∨ attributes &&& ATTR_LINK ≠ 0) := by
      simp [hattr, hlink]
    have hlegal := fatBuildDIRName_legal hname
    have hadmits : vol.view.Admits d n := by
      intro l k i hl hk hi hlive _ heq
      exact hnew k i ⟨hparent.dir, ⟨l, hl, hk⟩, hi, hlive, heq⟩
    rcases @fatCreateEntry_cases vol hv _ attributes now junk _ hargs hrefused hloc hparent.dir
      hlegal hadmits rfl fun _ => True with ⟨vol', k, i, heq, hst⟩ | ⟨vol', heq, -, hfail⟩
    · have hroom : vol.view.HasRoom d := by
        obtain ⟨⟨l, hl, hk⟩, hi, -⟩ := hst.slot
        exact ⟨l, k, i, hl, hk, hi, hst.first.1⟩
      exact ⟨fun _ => ⟨hroom, hlen⟩, fun _ =>
        entryAdded_of_created hv hd hparent hname hne hlen hattr heq hst⟩
    · constructor
      · intro hadded
        have hcode := hadded.code
        rw [heq] at hcode
        contradiction
      · intro hcond
        obtain ⟨hdir, hnone⟩ := hfail hcond.1
        obtain ⟨c, hc, hzero⟩ := hfree hdir
        exact absurd hzero (hnone c hc)
  · constructor
    · intro hadded
      obtain ⟨e, he, -⟩ := hadded.found junk.search
      rw [fatGetEntry_long hlen] at he
      contradiction
    · intro hcond
      exact absurd hcond.2 hlen

end Added

/-! ## The small volume -/

lemma small_distinct : small.view.Distinct := by
  have hslots : small.view.slots = 2 := by
    rw [small_view]
    rfl
  have hmem : ∀ {d : Nat} {m : List Nat} {k i : Nat}, small.view.IsDir d → small.view.Chain d m →
      k ∈ m → i < small.view.slots → Live (small.view.entry k i) → (k, i) = (2, 0) := by
    intro d m k i hdir hm hk hi hlive
    obtain rfl := small_flat.isDir_eq small_mounted.fatSize_le hdir
    obtain rfl := small_ready.sound.chain_unique hm small_root_chain
    obtain rfl := List.mem_singleton.mp hk
    rw [hslots] at hi
    interval_cases i
    · rfl
    · exact absurd hlive small_not_live_one
  constructor
  · intro d m k i k₂ i₂ hdir hm hk hi hk₂ hi₂ hlive hlive₂ _
    rw [hmem hdir hm hk hi hlive, hmem hdir hm hk₂ hi₂ hlive₂]
  · intro d m k i j hdir hm hk hij hj hzero
    obtain rfl := small_flat.isDir_eq small_mounted.fatSize_le hdir
    obtain rfl := small_ready.sound.chain_unique hm small_root_chain
    obtain rfl := List.mem_singleton.mp hk
    rw [hslots] at hj
    obtain ⟨rfl, rfl⟩ : i = 0 ∧ j = 1 := by omega
    rw [small_entry_zero] at hzero
    exact absurd hzero (by decide)

/-- The root directory is reached by the empty path. -/
lemma leadsToDir_root (vol : FATVolume) : LeadsToDir vol [] vol.view.root :=
  ⟨.root, .inl ⟨rfl, rfl⟩⟩

/-- A directory is added to the root of the small volume, which has one free slot. -/
theorem directory_grows_small :
    EntryAdded small [separator, 0x44] ATTR_DIRECTORY ⟨0, 0, 0, 1, 0, 100⟩
      ⟨⟨smallFile, 0, 0, 0⟩, ⟨smallFile, 0, 0, 2⟩⟩ := by
  have hnew : ∀ k i, ¬small.view.Named small.view.root nameD k i := by
    intro k i hn
    obtain ⟨l, hl, hk⟩ := hn.cluster
    obtain rfl := small_ready.sound.chain_unique hl small_root_chain
    obtain rfl := List.mem_singleton.mp hk
    have hi : i < 2 := by
      rw [← show small.view.slots = 2 by rw [small_view]; rfl]
      exact hn.lt
    interval_cases i
    · have hname := hn.name
      rw [small_entry_zero] at hname
      exact absurd hname (by decide)
    · exact small_not_live_one hn.live
  have hname : fatBuildDIRName [0x44] = some nameD := by decide
  refine (directory_grows_iff small_ready small_distinct (leadsToDir_root small) hname (by decide)
    hnew (by decide) (by decide) (fun _ => ⟨5, by constructor <;> decide, by decide⟩) _ _).mpr
    ⟨?_, by decide⟩
  exact ⟨[2], 2, 1, small_root_chain, by simp, by decide, small_not_live_one⟩

/-- The small volume with a second entry: its root directory is full. -/
def smallFull : FATVolume := smallMkdir.after small

/-- The name of the entry for which the root directory has no slot. -/
def nameC : DirName := Vector.ofFn fun i : Fin 39 => if i.val = 0 then 0x43 else 0x20

lemma smallFull_kept : Ready smallFull ∧ smallFull.view.Distinct := by
  have hrun : CallRuns (fun vol c => c.Proper vol ∧ c.PicksFreeName vol) small smallFull :=
    callRuns_single ⟨smallMkdir_proper small, trivial⟩
  exact CallRuns.keeps (P := Store.Distinct)
    (fun vol c a s hv hP _ hok hperf hchange => hchange.distinct hv.sound hP (hok.rename hperf))
    small_ready small_distinct hrun

/-- The root directory of the small volume does not grow for a third entry, though two
clusters are free. -/
theorem directory_does_not_grow :
    Ready smallFull ∧ smallFull.view.Distinct ∧ LeadsToDir smallFull [] 2 ∧
      fatBuildDIRName [0x43] = some nameC ∧ (∀ k i, ¬smallFull.view.Named 2 nameC k i) ∧
      smallFull.view.freeCount = 2 ∧
      (fatCreateEntry smallFull [separator, 0x43] 0 ⟨0, 0, 0, 1, 0, 100⟩
        ⟨⟨smallFile, 0, 0, 0⟩, ⟨smallFile, 0, 0, 0⟩⟩).2 = -1 ∧
      ¬EntryAdded smallFull [separator, 0x43] 0 ⟨0, 0, 0, 1, 0, 100⟩
        ⟨⟨smallFile, 0, 0, 0⟩, ⟨smallFile, 0, 0, 0⟩⟩ := by
  have hcode : (fatCreateEntry smallFull [separator, 0x43] 0 ⟨0, 0, 0, 1, 0, 100⟩
      ⟨⟨smallFile, 0, 0, 0⟩, ⟨smallFile, 0, 0, 0⟩⟩).2 = -1 := by decide +kernel
  have hroot : smallFull.view.root = 2 := by decide +kernel
  have hchain : smallFull.view.Chain 2 [2] :=
    .last (by constructor <;> decide +kernel) (by unfold Store.Stop; decide +kernel)
  refine ⟨smallFull_kept.1, smallFull_kept.2, hroot ▸ leadsToDir_root smallFull, by decide, ?_,
    by decide +kernel, hcode, fun hadded => ?_⟩
  · intro k i hn
    obtain ⟨l, hl, hk⟩ := hn.cluster
    obtain rfl := smallFull_kept.1.sound.chain_unique hl hchain
    obtain rfl := List.mem_singleton.mp hk
    have hi : i < 2 := by
      rw [← show smallFull.view.slots = 2 by decide +kernel]
      exact hn.lt
    have hname := hn.name
    interval_cases i
    · exact absurd hname (by decide +kernel)
    · exact absurd hname (by decide +kernel)
  · rw [hadded.code] at hcode
    contradiction

end DiegOS.Fat
