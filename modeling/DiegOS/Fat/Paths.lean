import DiegOS.Fat.Consistency

/-!
# Resolving paths

What a path leads to, told without the loops of `FAT_search_DIR_entry`: every
component is a live entry of the directory before it.  The dot entries take part
in this like all others.

Main results:

- Theorem `searchSplits_iff`: the loops find exactly the entry a path leads to.
- Theorem `path_resolution_iff`: for which paths `FAT_search_DIR_entry` returns the
  entry together with its directory.
-/

namespace DiegOS.Fat

open Lib

namespace Store

/-- A live entry of a directory with a name, dot entries included. -/
structure Named (s : Store) (d : Nat) (n : DirName) (k i : Nat) : Prop where
  dir : s.IsDir d
  cluster : ∃ l, s.Chain d l ∧ k ∈ l
  lt : i < s.slots
  live : Live (s.entry k i)
  name : (s.entry k i).dirName = n

/-- `s.Resolves d names d' k i`: from the directory `d` on, the names lead to the
entry at the slot `(k, i)` of the directory `d'`. -/
inductive Resolves (s : Store) : Nat → List DirName → Nat → Nat → Nat → Prop
  | last {d k i : Nat} {n : DirName} (h : s.Named d n k i) : Resolves s d [n] d k i
  | inner {d k i d' k' i' : Nat} {n m : DirName} {rest : List DirName} (h : s.Named d n k i)
      (hattr : (s.entry k i).isDir = true)
      (hrest : Resolves s (s.entry k i).clus (m :: rest) d' k' i') :
      Resolves s d (n :: m :: rest) d' k' i'

variable {s : Store}

/-- Two live entries of a directory with the same name are one. -/
lemma Named.unique (hs : s.Sound) (hd : s.Distinct) {d k i k' i' : Nat} {n : DirName}
    (h : s.Named d n k i) (h' : s.Named d n k' i') : (k, i) = (k', i') := by
  obtain ⟨l, hl, hk⟩ := h.cluster
  obtain ⟨l', hl', hk'⟩ := h'.cluster
  obtain rfl := hs.chain_unique hl hl'
  exact hd.names d l k i k' i' h.dir hl hk h.lt hk' h'.lt h.live h'.live
    (h.name.trans h'.name.symm)

/-- A path leads to one entry. -/
lemma Resolves.unique (hs : s.Sound) (hd : s.Distinct) {d d₁ k₁ i₁ d₂ k₂ i₂ : Nat}
    {names : List DirName} (h : s.Resolves d names d₁ k₁ i₁)
    (h' : s.Resolves d names d₂ k₂ i₂) : d₁ = d₂ ∧ k₁ = k₂ ∧ i₁ = i₂ := by
  induction h with
  | last h =>
    cases h' with
    | last h' =>
      have heq := h.unique hs hd h'
      exact ⟨rfl, (Prod.mk.inj heq).1, (Prod.mk.inj heq).2⟩
  | inner h _ _ ih =>
    cases h' with
    | inner h' _ hrest' =>
      obtain ⟨rfl, rfl⟩ := Prod.mk.inj (h.unique hs hd h')
      exact ih hrest'

lemma not_resolves_nil {d d' k i : Nat} : ¬s.Resolves d [] d' k i := by
  intro h
  cases h

end Store

/-- A mounted volume whose media can be read and whose directories hold each name once. -/
structure Searchable (vol : FATVolume) : Prop where
  mounted : vol.Mounted
  reads : vol.ctx.Serves .read
  sound : vol.view.Sound
  distinct : vol.view.Distinct

/-- The dot entries that name directories lead to some, too. -/
structure Orderly (vol : FATVolume) : Prop extends Searchable vol where
  dots : ∀ d, vol.view.IsDir d → d ≠ vol.view.root → ∀ j < 2,
    (vol.view.entry d j).isDir = true → vol.view.IsDir (vol.view.entry d j).clus

/-- A tidy store has its dot entries in order. -/
lemma orderly_of_tidy {vol : FATVolume} (hv : Ready vol) (ht : vol.view.Tidy)
    (hd : vol.view.Distinct) : Orderly vol where
  mounted := hv.mounted
  reads := hv.reads
  sound := hv.sound
  distinct := hd
  dots := by
    intro d hdir hroot j hj _
    have hcases : j = 0 ∨ j = 1 := by omega
    cases hcases with
    | inl hzero =>
      rw [hzero, ht.dot d hdir hroot]
      exact hdir
    | inr hone =>
      cases hdir with
      | root => exact absurd rfl hroot
      | @sub p k i hp hin hlive hattr =>
        rw [hone, ht.dotdot p k i hp hin hlive hattr]
        exact hp

section Search

variable {vol : FATVolume}

/-- The entry of a directory leads to a directory when it names one. -/
lemma Store.Named.isDir_clus (hw : Orderly vol) {d k i : Nat} {n : DirName}
    (h : vol.view.Named d n k i) (hattr : (vol.view.entry k i).isDir = true) :
    vol.view.IsDir (vol.view.entry k i).clus := by
  by_cases hdot : vol.view.DotSlot d k i
  · obtain ⟨hroot, rfl, hi⟩ := hdot
    exact hw.dots k h.dir hroot i hi hattr
  · exact .sub h.dir ⟨h.cluster, h.lt, hdot⟩ h.live hattr

section Searchable

variable (hw : Searchable vol)
include hw

/-- The scan of a directory finds the live entry with a name. -/
lemma scanDirectory_named {d k i : Nat} {n : DirName} (hn : LegalName n)
    (h : vol.view.Named d n k i) (r₀ : SearchResult) :
    ∃ r, scanDirectory vol (fatSearchLoop n) r₀ d = some r ∧ r.entry = vol.view.entry k i ∧
      vol.At r k i := by
  obtain ⟨l, hl, hk⟩ := h.cluster
  cases hscan : scanDirectory vol (fatSearchLoop n) r₀ d with
  | none =>
    refine absurd h.name (scanName_none hw.mounted hw.reads hn hl hscan hk h.lt h.live ?_)
    intro m hm hzero
    rcases Nat.lt_or_eq_of_le hm with hlt | rfl
    · exact h.live.2 (hw.distinct.tail d l k m i h.dir hl hk hlt h.lt hzero)
    · exact h.live.2 hzero
  | some r =>
    obtain ⟨k', i', hk', hi', hlive, hname, hent, hat⟩ :=
      scanName_some hw.mounted hw.reads hn hl hscan
    have hnamed : vol.view.Named d n k' i' := ⟨h.dir, ⟨l, hl, hk'⟩, hi', hlive, hname⟩
    obtain ⟨rfl, rfl⟩ := Prod.mk.inj (h.unique hw.sound hw.distinct hnamed)
    exact ⟨r, rfl, hent, hat⟩

/-- What the scan of a directory finds has the name. -/
lemma named_of_scan {d : Nat} {n : DirName} {r₀ r : SearchResult} (hn : LegalName n)
    (hd : vol.view.IsDir d) (h : scanDirectory vol (fatSearchLoop n) r₀ d = some r) :
    ∃ k i, vol.view.Named d n k i ∧ r.entry = vol.view.entry k i ∧ vol.At r k i := by
  obtain ⟨l, hl⟩ := hw.sound.exists_chain hd
  obtain ⟨k, i, hk, hi, hlive, hname, hent, hat⟩ :=
    scanName_some hw.mounted hw.reads hn hl h
  exact ⟨k, i, ⟨hd, ⟨l, hl, hk⟩, hi, hlive, hname⟩, hent, hat⟩

/-- A directory does not start with an end mark. -/
lemma isDir_not_isEOC {d : Nat} (hd : vol.view.IsDir d) : fatClusterIsEOC d = false := by
  obtain ⟨l, hl⟩ := hw.sound.exists_chain hd
  exact not_isEOC hw.mounted.fatSize_le hl.node_head

/-- What names lead to is found. -/
lemma searchSplits_of_resolves {names : List DirName} {d d' k i : Nat}
    (h : vol.view.Resolves d names d' k i) (hlegal : ∀ n ∈ names, LegalName n) :
    ∀ (cont : Nat) (found : Bool) (r₀ : SearchResult),
      ∃ r, searchSplits vol names d found r₀ cont = some r ∧ r.entry = vol.view.entry k i ∧
        vol.At r k i ∧ r.container = (vol.view.entry k i).clus := by
  induction h with
  | @last d k i n hnamed =>
    intro cont found r₀
    obtain ⟨r, hscan, hent, hat⟩ :=
      scanDirectory_named hw (hlegal n (by simp)) hnamed r₀
    refine ⟨{ r with container := r.entry.clus }, ?_, hent, hat, congrArg DirEntry.clus hent⟩
    simp [searchSplits, isDir_not_isEOC hw hnamed.dir, hscan]
  | @inner d k i d' k' i' n m rest hnamed hattr _ ih =>
    intro cont found r₀
    obtain ⟨r, hscan, hent, -⟩ := scanDirectory_named hw (hlegal n (by simp)) hnamed r₀
    obtain ⟨r', hrest, hfound⟩ := ih (fun x hx => hlegal x (by simp [hx]))
      (vol.view.entry k i).clus true r
    refine ⟨r', ?_, hfound⟩
    have hdir : r.entry.hasAttr ATTR_DIRECTORY = true := by
      rw [hent]
      exact hattr
    rw [searchSplits]
    simp only [isDir_not_isEOC hw hnamed.dir, hscan, Option.isSome_some, Option.getD_some,
      hdir, Bool.not_true, and_false, if_false, Bool.false_eq_true]
    rw [hent]
    exact hrest

end Searchable

section Orderly

variable (hw : Orderly vol)
include hw

/-- What the loops find is what the names lead to. -/
lemma resolves_of_searchSplits {names : List DirName} {d cont : Nat} {found : Bool}
    {r₀ r : SearchResult} (hne : names ≠ []) (hlegal : ∀ n ∈ names, LegalName n)
    (hd : vol.view.IsDir d) (h : searchSplits vol names d found r₀ cont = some r) :
    ∃ d' k i, vol.view.Resolves d names d' k i ∧ r.entry = vol.view.entry k i ∧ vol.At r k i ∧
      r.container = (vol.view.entry k i).clus := by
  induction names generalizing d cont found r₀ with
  | nil => exact absurd rfl hne
  | cons name rest ih =>
    simp only [searchSplits, isDir_not_isEOC hw.toSearchable hd] at h
    cases hscan : scanDirectory vol (fatSearchLoop name) r₀ d with
    | none => simp [hscan] at h
    | some r₁ =>
      obtain ⟨k, i, hnamed, hent, hat⟩ :=
        named_of_scan hw.toSearchable (hlegal name (by simp)) hd hscan
      simp only [hscan, Option.isSome_some, Option.getD_some, hent] at h
      cases rest with
      | nil =>
        simp only [searchSplits, ne_eq, not_true_eq_false, false_and, if_false] at h
        obtain rfl : _ = r := by simpa using h
        exact ⟨d, k, i, .last hnamed, hent, hat, rfl⟩
      | cons name' rest =>
        by_cases hattr : (vol.view.entry k i).hasAttr ATTR_DIRECTORY = true
        · simp only [hattr, Bool.not_true, and_false, if_false, Bool.false_eq_true] at h
          obtain ⟨d', k', i', hres, hfound⟩ := ih (by simp)
            (fun n hn => hlegal n (by simp [hn])) (hnamed.isDir_clus hw hattr) h
          exact ⟨d', k', i', .inner hnamed hattr hres, hfound⟩
        · simp [hattr] at h

/-- The loops find exactly the entry that names lead to, and call its own first cluster the
container. -/
theorem searchSplits_iff {names : List DirName} {d : Nat} (hne : names ≠ [])
    (hlegal : ∀ n ∈ names, LegalName n) (hd : vol.view.IsDir d) (r₀ : SearchResult) :
    (∃ r, searchSplits vol names d false r₀ d = some r) ↔
      ∃ d' k i, vol.view.Resolves d names d' k i := by
  constructor
  · intro hfound
    obtain ⟨r, hr⟩ := hfound
    obtain ⟨d', k, i, hres, -⟩ := resolves_of_searchSplits hw hne hlegal hd hr
    exact ⟨d', k, i, hres⟩
  · intro hleads
    obtain ⟨d', k, i, hres⟩ := hleads
    obtain ⟨r, hr, -⟩ := searchSplits_of_resolves hw.toSearchable hres hlegal d false r₀
    exact ⟨r, hr⟩

end Orderly

end Search

/-- Parsed names are legal. -/
lemma legal_of_parse {path : List UInt8} {names : List DirName}
    (h : fatParseDirectory path = some names) : ∀ n ∈ names, LegalName n := by
  intro n hn
  rw [fatParseDirectory_eq_mapM] at h
  obtain ⟨x, -, hx⟩ := exists_of_mem_mapM h hn
  exact fatBuildDIRName_legal hx

lemma fatSearchDIREntry_eq {vol : FATVolume} {path : List UInt8} {names : List DirName}
    (hparse : fatParseDirectory path = some names)
    (hlen : ¬(path.length = 0 ∨ FILENAME_MAX < path.length)) (junk : SearchResult) :
    fatSearchDIREntry vol path junk =
      searchSplits vol names vol.view.root false junk vol.view.root := by
  rw [fatSearchDIREntry, if_neg hlen, hparse]
  rfl

/-- `FAT_search_DIR_entry` returns an entry exactly if the names lead to one, and then the
entry, its place, and as the container the directory that holds it. -/
structure FindsWhatResolves (vol : FATVolume) (path : List UInt8) (names : List DirName)
    (junk : SearchResult) : Prop where
  found : ∀ r, fatSearchDIREntry vol path junk = some r → names ≠ [] ∧ ∃ d k i,
    vol.view.Resolves vol.view.root names d k i ∧ r.entry = vol.view.entry k i ∧
      vol.At r k i ∧ r.container = d
  finds : (∃ d k i, vol.view.Resolves vol.view.root names d k i) →
    ∃ r, fatSearchDIREntry vol path junk = some r

/-- For which paths `FAT_search_DIR_entry` does so: the path has a component or is refused
for its length; and where it leads to an entry, it is short enough and the first cluster of the
entry is that of the directory that holds it. -/
theorem path_resolution_iff {vol : FATVolume} (hw : Orderly vol) {path : List UInt8}
    {names : List DirName} (hparse : fatParseDirectory path = some names)
    (junk : SearchResult) :
    FindsWhatResolves vol path names junk ↔
      (names = [] → path.length = 0 ∨ FILENAME_MAX < path.length) ∧
      ∀ d k i, vol.view.Resolves vol.view.root names d k i →
        path.length ≤ FILENAME_MAX ∧ (vol.view.entry k i).clus = d := by
  have hlegal := legal_of_parse hparse
  by_cases hlen : path.length = 0 ∨ FILENAME_MAX < path.length
  · have hnone : fatSearchDIREntry vol path junk = none := by rw [fatSearchDIREntry, if_pos hlen]
    have hempty : path.length = 0 → names = [] := by
      intro hzero
      rw [List.length_eq_zero_iff.mp hzero] at hparse
      exact (Option.some.inj hparse).symm
    constructor
    · intro hfinds
      refine ⟨fun _ => hlen, fun d k i hres => ?_⟩
      obtain ⟨r, hr⟩ := hfinds.finds ⟨d, k, i, hres⟩
      rw [hnone] at hr
      contradiction
    · intro hcond
      constructor
      · intro r hr
        rw [hnone] at hr
        contradiction
      · intro hleads
        obtain ⟨d, k, i, hres⟩ := hleads
        cases hlen with
        | inl hzero =>
          rw [hempty hzero] at hres
          exact absurd hres Store.not_resolves_nil
        | inr hlong => exact absurd (hcond.2 d k i hres).1 (Nat.not_le.mpr hlong)
  · have heq := @fatSearchDIREntry_eq vol _ _ hparse hlen junk
    rw [not_or, Nat.not_lt] at hlen
    constructor
    · intro hfinds
      constructor
      · intro hnil
        rw [hnil] at heq
        exact absurd hnil (hfinds.found _ heq).1
      · intro d k i hres
        obtain ⟨r, hr, -, -, hcont⟩ :=
          searchSplits_of_resolves hw.toSearchable hres hlegal vol.view.root false junk
        obtain ⟨-, d', k', i', hres', -, -, hcont'⟩ := hfinds.found r (heq.trans hr)
        obtain ⟨rfl, rfl, rfl⟩ := hres.unique hw.sound hw.distinct hres'
        exact ⟨hlen.2, hcont.symm.trans hcont'⟩
    · intro hcond
      have hne : names ≠ [] := by
        intro hnil
        cases hcond.1 hnil with
        | inl hzero => exact hlen.1 hzero
        | inr hlong => exact absurd hlen.2 (Nat.not_le.mpr hlong)
      constructor
      · intro r hr
        rw [heq] at hr
        obtain ⟨d, k, i, hres, hent, hat, hcont⟩ :=
          resolves_of_searchSplits hw hne hlegal .root hr
        exact ⟨hne, d, k, i, hres, hent, hat, hcont.trans (hcond.2 d k i hres).2⟩
      · intro hleads
        rw [heq]
        exact (searchSplits_iff hw hne hlegal .root junk).mpr hleads

/-! ## Runs -/

section Run

variable {d : Disk} {part : FATPartition} {env : FormatEnv} {vol vol' : FATVolume}

/-- On a new volume, calls that tell new directories their parent and rename to unused names
keep the directories in order. -/
lemma orderly_of_run (hw : part.WellSized d) (hfresh : Fresh d part env vol)
    (hrun : CallRuns (fun vol c => c.Proper vol ∧ c.TellsParent vol ∧ c.PicksFreeName vol)
      vol vol') : Ready vol' ∧ vol'.view.Tidy ∧ vol'.view.Distinct := by
  have hview := hfresh.view hw
  exact CallRuns.keeps (P := fun s => s.Tidy ∧ s.Distinct)
    (fun vol c a s hv hP _ hok hperf hchange =>
      ⟨hchange.tidy hv.sound hP.1 (hok.1.mkdir hperf),
        hchange.distinct hv.sound hP.2 (hok.2.rename hperf)⟩)
    hview.ready ⟨hview.tidy hfresh.legal, hview.distinct⟩ hrun

end Run

/-- The name of the directory on the volume of eight sectors. -/
def nameD : DirName := Vector.ofFn fun i : Fin 39 => if i.val = 0 then 0x44 else 0x20

/-- The volume of eight sectors with one directory. -/
def eightD : FATVolume := smallMkdir.after eight

lemma eightD_orderly : Orderly eightD := by
  obtain ⟨hv, ht, hd⟩ := orderly_of_run wellSized_eight fresh_eight
    (callRuns_single ⟨smallMkdir_proper eight, smallMkdir_tells, trivial⟩)
  exact orderly_of_tidy hv ht hd

/-- The way to the dot entry of the directory. -/
lemma eightD_resolves : eightD.view.Resolves eightD.view.root [nameD, dotName] 3 3 0 := by
  have hroot : eightD.view.root = 2 := by decide +kernel
  have hchain : eightD.view.Chain 2 [2] :=
    .last (by constructor <;> decide +kernel) (by unfold Store.Stop; decide +kernel)
  have hnamed : eightD.view.Named 2 nameD 2 1 :=
    ⟨hroot ▸ .root, ⟨[2], hchain, by simp⟩, by decide +kernel, by decide +kernel,
      by decide +kernel⟩
  have hattr : (eightD.view.entry 2 1).isDir = true := by decide +kernel
  have hclus : (eightD.view.entry 2 1).clus = 3 := by decide +kernel
  have hdir := hnamed.isDir_clus eightD_orderly hattr
  rw [hclus] at hdir
  have hsub : eightD.view.Chain 3 [3] :=
    .last (by constructor <;> decide +kernel) (by unfold Store.Stop; decide +kernel)
  rw [hroot]
  apply Store.Resolves.inner hnamed hattr
  rw [hclus]
  exact .last ⟨hdir, ⟨[3], hsub, by simp⟩, by decide +kernel, by decide +kernel,
    by decide +kernel⟩

/-- The dot entry of a directory is found with the right container. -/
theorem path_resolution_dot :
    FindsWhatResolves eightD [separator, 0x44, separator, 0x2E] [nameD, dotName]
      ⟨smallFile, 0, 0, 0⟩ := by
  refine (path_resolution_iff eightD_orderly (by decide +kernel) _).mpr ⟨by simp, ?_⟩
  intro d k i hres
  obtain ⟨rfl, rfl, rfl⟩ :=
    hres.unique eightD_orderly.sound eightD_orderly.distinct eightD_resolves
  exact ⟨by decide, by decide +kernel⟩

/-- A path without components is found, and a directory of the root is said to lie in
itself. -/
theorem path_resolution_wrong :
    Orderly eightD ∧ fatParseDirectory [separator] = some [] ∧
      ¬FindsWhatResolves eightD [separator] [] ⟨smallFile, 0, 0, 0⟩ ∧
      fatParseDirectory [separator, 0x44] = some [nameD] ∧
      (fatSearchDIREntry eightD [separator, 0x44] ⟨smallFile, 0, 0, 0⟩).map (·.container) =
        some 3 ∧ eightD.view.root = 2 ∧
      ¬FindsWhatResolves eightD [separator, 0x44] [nameD] ⟨smallFile, 0, 0, 0⟩ := by
  have hcont : (fatSearchDIREntry eightD [separator, 0x44] ⟨smallFile, 0, 0, 0⟩).map
      (·.container) = some 3 := by decide +kernel
  have hroot : eightD.view.root = 2 := by decide +kernel
  refine ⟨eightD_orderly, by decide, fun hfinds => ?_, by decide +kernel, hcont, hroot,
    fun hfinds => ?_⟩
  · have hsome : fatSearchDIREntry eightD [separator] ⟨smallFile, 0, 0, 0⟩ =
        some { (⟨smallFile, 0, 0, 0⟩ : SearchResult) with container := 2 } := by decide +kernel
    exact (hfinds.found _ hsome).1 rfl
  · obtain ⟨r, hr, hr3⟩ := Option.map_eq_some_iff.mp hcont
    obtain ⟨-, d, k, i, hres, -, -, hd⟩ := hfinds.found r hr
    cases hres with
    | last _ =>
      rw [hd, hroot] at hr3
      contradiction

end DiegOS.Fat
