import DiegOS.Fat.View

/-!
# Path resolution on a sound volume

The loops of `fat.c` that follow the table and scan directories, on a
mounted volume whose store is sound: a chain walk visits exactly the chain, a
scan returns the first match of a directory, and a path without dot components
is resolved to a live entry at its own place.

Main results:

- Theorem `chainOf_eq`: a walk visits the clusters of the chain.
- Theorem `scanDirectory_some` and `scanDirectory_none`: what a scan
  returns and what its failure means.
- Theorem `fatSearchDIREntry_found`: a plain path that is found names a
  live entry of some directory.
-/

namespace DiegOS.Fat

open Lib

/-! ## Comparing names -/

lemma strncmpEq_iff {a b : List UInt8} (hlen : a.length = b.length)
    (hzero : ∀ x ∈ b, x ≠ 0) : strncmpEq b.length a b = true ↔ a = b := by
  induction b generalizing a with
  | nil =>
    obtain rfl : a = [] := List.length_eq_zero_iff.mp hlen
    simp [strncmpEq]
  | cons y b ih =>
    cases a with
    | nil => simp at hlen
    | cons x a =>
      have hih := ih (a := a) (by simpa using hlen) fun z hz => hzero z (by simp [hz])
      have hy := hzero y (by simp)
      simp only [List.length_cons, strncmpEq, List.headD_cons, List.tail_cons]
      by_cases hxy : x = y
      · subst hxy
        simp [hy, hih]
      · simp [hxy]

/-- The comparison of padded names decides equality when one of them is legal. -/
lemma strncmpEq_name {a b : DirName} (hb : LegalName b) :
    strncmpEq DIR_NAMELEN a.toList b.toList = true ↔ a = b := by
  have hzero : ∀ x ∈ b.toList, x ≠ 0 := by
    intro x hx
    obtain ⟨i, hi, rfl⟩ := List.mem_iff_getElem.mp hx
    have hi' : i < 39 := by simpa using hi
    simpa using hb.ne_zero hi'
  have h := strncmpEq_iff (a := a.toList) (b := b.toList) (by simp) hzero
  rw [Vector.toList_inj] at h
  simpa [DIR_NAMELEN] using h

/-! ## The two scan loops -/

/-- A live entry of the buffer with the given name. -/
def Hit (name : DirName) (buffer : Bytes) (j : Nat) : Prop :=
  Live (entryOf buffer j) ∧
    strncmpEq DIR_NAMELEN (entryOf buffer j).dirName.toList name.toList = true

/-- What it means that a scan over `n` entries from `i` on returned `r`: a hit,
or no hit in front of the first entry never used. -/
def SearchOutcome (name : DirName) (buffer : Bytes) (n i r : Nat) : Prop :=
  (i ≤ r ∧ r < i + n ∧ Hit name buffer r) ∨
    (r = i + n ∧ ∀ j, i ≤ j → j < i + n →
      (∀ m, i ≤ m → m ≤ j → (entryOf buffer m).mark ≠ DIR_ENTRY_LAST_FREE) →
      ¬Hit name buffer j)

lemma SearchOutcome.skip {name : DirName} {buffer : Bytes} {n i r : Nat}
    (hno : ¬Hit name buffer i) (h : SearchOutcome name buffer n (i + 1) r) :
    SearchOutcome name buffer (n + 1) i r := by
  rcases h with ⟨hlo, hhi, hhit⟩ | ⟨hend, hall⟩
  · exact .inl ⟨by omega, by omega, hhit⟩
  · refine .inr ⟨by omega, fun j hlo hhi hmark => ?_⟩
    by_cases hj : j = i
    · rwa [hj]
    · exact hall j (by omega) (by omega) fun m hm hmj => hmark m (by omega) hmj

lemma fatSearchLoop_spec (name : DirName) (buffer : Bytes) (n i : Nat) :
    SearchOutcome name buffer n i (fatSearchLoop name buffer n i) := by
  induction n generalizing i with
  | zero => exact .inr ⟨rfl, fun j hlo hhi => by omega⟩
  | succ n ih =>
    unfold fatSearchLoop
    split <;> rename_i hfree
    · exact (ih (i + 1)).skip fun hhit => hhit.1.1 hfree
    · split <;> rename_i hlast
      · exact .inr ⟨rfl, fun j hlo _ hmark => absurd hlast (hmark i le_rfl hlo)⟩
      · split <;> rename_i hname
        · exact .inl ⟨le_rfl, by omega, ⟨hfree, hlast⟩, hname⟩
        · exact (ih (i + 1)).skip fun hhit => hname hhit.2

lemma fatSearchFreeLoop_spec (buffer : Bytes) (n i : Nat) :
    i ≤ fatSearchFreeLoop buffer n i ∧ fatSearchFreeLoop buffer n i ≤ i + n ∧
      (fatSearchFreeLoop buffer n i < i + n →
        ¬Live (entryOf buffer (fatSearchFreeLoop buffer n i))) ∧
      ∀ j, i ≤ j → j < fatSearchFreeLoop buffer n i → Live (entryOf buffer j) := by
  induction n generalizing i with
  | zero => exact ⟨le_rfl, le_rfl, fun h => by simp [fatSearchFreeLoop] at h,
      fun j hlo hhi => by simp [fatSearchFreeLoop] at hhi; omega⟩
  | succ n ih =>
    by_cases hfree : (entryOf buffer i).mark = DIR_ENTRY_FREE ∨
        (entryOf buffer i).mark = DIR_ENTRY_LAST_FREE
    · rw [fatSearchFreeLoop, if_pos hfree]
      refine ⟨le_rfl, by omega, fun _ hlive => ?_, fun j hlo hhi => by omega⟩
      rcases hfree with hfree | hfree
      · exact hlive.1 hfree
      · exact hlive.2 hfree
    · rw [fatSearchFreeLoop, if_neg hfree]
      obtain ⟨hlo, hhi, hfound, hbefore⟩ := ih (i + 1)
      refine ⟨by omega, by omega, fun h => hfound (by omega), fun j hj hjr => ?_⟩
      by_cases hji : j = i
      · subst hji
        rw [not_or] at hfree
        exact hfree
      · exact hbefore j (by omega) hjr

/-! ## Walking a chain -/

section Walk

variable {vol : FATVolume} {c d : Nat} {l : List Nat}

section

variable (hsize : vol.fatSize ≤ FAT_BAD)
include hsize

/-- A chain is no longer than the table. -/
lemma chain_length_le (h : vol.view.Chain c l) :
    l.length ≤ vol.fatSize := by
  have hnodup : l.Nodup := LinkChain.nodup (Store.separated (s := vol.view) hsize) h
  have hsub : l ⊆ List.range vol.fatSize := fun x hx =>
    List.mem_range.mpr (LinkChain.node_of_mem h x hx).2
  simpa using (List.subperm_of_subset hnodup hsub).length_le

lemma not_isEOC (hc : vol.view.Node c) :
    fatClusterIsEOC c = false := by
  have hhi : c < vol.fatSize := hc.2
  unfold FAT_BAD at hsize
  rw [← Bool.not_eq_true, fatClusterIsEOC_iff]
  omega

lemma isReadable (hc : vol.view.Node c) :
    fatClusterIsReadable c = true := by
  obtain ⟨hlo, hhi⟩ := hc
  have hhi' : c < vol.fatSize := hhi
  unfold FAT_BAD at hsize
  rw [fatClusterIsReadable_iff]
  omega

end

lemma isEOC_of_stop {v : Nat} (h : Store.Stop v) : fatClusterIsEOC v = true := by
  rw [fatClusterIsEOC_iff]
  exact h

section

variable (hsize : vol.fatSize ≤ FAT_BAD)
include hsize

/-- A walk along a chain visits its clusters and stops behind them. -/
lemma walkChain_chain (h : vol.view.Chain c l) {fuel : Nat}
    (hfuel : l.length < fuel) :
    (walkChain vol fuel c).1 = l ∧ Store.Stop (walkChain vol fuel c).2 := by
  induction h generalizing fuel with
  | @last c hnode hstop =>
    obtain ⟨fuel, rfl⟩ : ∃ m, fuel = m + 2 := ⟨fuel - 2, by simp at hfuel; omega⟩
    have hnext : fatClusterIsEOC (fatGetClusterFromTable vol c) = true := isEOC_of_stop hstop
    simp only [walkChain, not_isEOC hsize hnode, hnext, if_true]
    exact ⟨rfl, hstop⟩
  | @cons c l hnode hrest ih =>
    obtain ⟨fuel, rfl⟩ : ∃ m, fuel = m + 1 := ⟨fuel - 1, by simp at hfuel; omega⟩
    obtain ⟨hlist, hstop⟩ := ih (show l.length < fuel by simpa using hfuel)
    simp only [walkChain, not_isEOC hsize hnode]
    exact ⟨congrArg (c :: ·) hlist, hstop⟩

lemma chain_length_lt_fuel (h : vol.view.Chain c l) :
    l.length < chainFuel := by
  have hle := chain_length_le hsize h
  simp only [chainFuel, FAT_BAD] at *
  omega

/-- A walk visits the clusters of the chain. -/
theorem chainOf_eq (h : vol.view.Chain c l) :
    chainOf vol c = l :=
  (walkChain_chain hsize h (chain_length_lt_fuel hsize h)).1

/-- A walk stops at an end-of-chain value. -/
lemma chainStop_stop (h : vol.view.Chain c l) :
    Store.Stop (chainStop vol c) :=
  (walkChain_chain hsize h (chain_length_lt_fuel hsize h)).2

end

/-! ## Scanning a directory -/

variable (hm : vol.Mounted)
include hm

lemma hit_buffer {name : DirName} (hname : LegalName name) {k i : Nat}
    (hk : vol.view.Node k) (hi : i < vol.items) :
    Hit name (vol.buffer k) i ↔
      Live (vol.view.entry k i) ∧ (vol.view.entry k i).dirName = name := by
  rw [Hit, hm.entryOf_buffer hk hi, strncmpEq_name hname]

variable (hr : vol.ctx.Serves .read)
include hr

lemma fatDirForeach_eq {fn : Bytes → Nat → Nat → Nat} {result : SearchResult}
    (hc : vol.view.Node c) :
    fatDirForeach vol fn result c =
      if fn (vol.buffer c) vol.items 0 < vol.items then
        some { result with
          entry := vol.view.entry c (fn (vol.buffer c) vol.items 0)
          sector := fatFSoC vol c + fn (vol.buffer c) vol.items 0 / vol.fatEntriesPerSec
          offset := fn (vol.buffer c) vol.items 0 % vol.fatEntriesPerSec }
      else none := by
  rw [fatDirForeach, hm.readC_eq hr hc]
  dsimp only
  split <;> rename_i hlt
  · rw [hm.entryOf_buffer hc hlt]
  · rfl

/-- A successful scan returns a slot of the directory that the loop stopped at. -/
theorem scanDirectory_some {fn : Bytes → Nat → Nat → Nat} {result r : SearchResult}
    (hchain : vol.view.Chain d l) (h : scanDirectory vol fn result d = some r) :
    ∃ k ∈ l, fn (vol.buffer k) vol.items 0 < vol.items ∧
      r.entry = vol.view.entry k (fn (vol.buffer k) vol.items 0) ∧
      vol.At r k (fn (vol.buffer k) vol.items 0) ∧ r.container = result.container ∧
      ∀ k' ∈ l.takeWhile (· ≠ k), vol.items ≤ fn (vol.buffer k') vol.items 0 := by
  rw [scanDirectory, chainOf_eq hm.fatSize_le hchain] at h
  have hnode := hchain.node_of_mem
  clear hchain
  induction l with
  | nil => simp at h
  | cons k l ih =>
    rw [List.findSome?_cons, fatDirForeach_eq hm hr (hnode k (by simp))] at h
    by_cases hlt : fn (vol.buffer k) vol.items 0 < vol.items
    · rw [if_pos hlt] at h
      cases h
      exact ⟨k, by simp, hlt, rfl, ⟨rfl, rfl⟩, rfl, by simp⟩
    · rw [if_neg hlt] at h
      obtain ⟨k', hk', hlt', hent, hat, hcont, hbefore⟩ := ih h fun x hx => hnode x (by simp [hx])
      refine ⟨k', by simp [hk'], hlt', hent, hat, hcont, fun x hx => ?_⟩
      rw [List.takeWhile_cons] at hx
      split at hx
      · rcases List.mem_cons.mp hx with rfl | hx
        · omega
        · exact hbefore x hx
      · simp at hx

/-- A failed scan found nothing in any cluster of the directory. -/
theorem scanDirectory_none {fn : Bytes → Nat → Nat → Nat} {result : SearchResult}
    (hchain : vol.view.Chain d l) (h : scanDirectory vol fn result d = none) :
    ∀ k ∈ l, vol.items ≤ fn (vol.buffer k) vol.items 0 := by
  rw [scanDirectory, chainOf_eq hm.fatSize_le hchain, List.findSome?_eq_none_iff] at h
  intro k hk
  have hnone := h k hk
  rw [fatDirForeach_eq hm hr (hchain.node_of_mem k hk)] at hnone
  by_contra hlt
  rw [if_pos (by omega)] at hnone
  simp at hnone

/-- A successful scan for a name returns a live entry with that name. -/
lemma scanName_some {name : DirName} (hname : LegalName name) {result r : SearchResult}
    (hchain : vol.view.Chain d l) (h : scanDirectory vol (fatSearchLoop name) result d = some r) :
    ∃ k i, k ∈ l ∧ i < vol.items ∧ Live (vol.view.entry k i) ∧
      (vol.view.entry k i).dirName = name ∧ r.entry = vol.view.entry k i ∧ vol.At r k i := by
  obtain ⟨k, hk, hlt, hent, hat, -, -⟩ := scanDirectory_some hm hr hchain h
  have hnode := hchain.node_of_mem k hk
  rcases fatSearchLoop_spec name (vol.buffer k) vol.items 0 with ⟨-, -, hhit⟩ | ⟨hend, -⟩
  · obtain ⟨hlive, heq⟩ := (hit_buffer hm hname hnode hlt).mp hhit
    exact ⟨k, _, hk, hlt, hlive, heq, hent, hat⟩
  · omega

/-- A failed scan for a name means that no live entry in front of the never used ones
carries it. -/
lemma scanName_none {name : DirName} (hname : LegalName name) {result : SearchResult}
    (hchain : vol.view.Chain d l) (h : scanDirectory vol (fatSearchLoop name) result d = none)
    {k i : Nat} (hk : k ∈ l) (hi : i < vol.items) (hlive : Live (vol.view.entry k i))
    (hused : ∀ m ≤ i, (vol.view.entry k m).mark ≠ DIR_ENTRY_LAST_FREE) :
    (vol.view.entry k i).dirName ≠ name := by
  intro heq
  have hnode := hchain.node_of_mem k hk
  have hend := scanDirectory_none hm hr hchain h k hk
  rcases fatSearchLoop_spec name (vol.buffer k) vol.items 0 with ⟨-, hlt, -⟩ | ⟨-, hall⟩
  · omega
  · refine hall i (Nat.zero_le i) (by omega) (fun m _ hm' => ?_)
      ((hit_buffer hm hname hnode hi).mpr ⟨hlive, heq⟩)
    rw [hm.entryOf_buffer hnode (by omega)]
    exact hused m hm'

/-- A successful scan for a free entry returns the first one of some cluster. -/
lemma scanFree_some {result r : SearchResult} (hchain : vol.view.Chain d l)
    (h : scanDirectory vol fatSearchFreeLoop result d = some r) :
    ∃ k i, k ∈ l ∧ i < vol.items ∧ ¬Live (vol.view.entry k i) ∧
      (∀ j < i, Live (vol.view.entry k j)) ∧ vol.At r k i ∧ r.container = result.container := by
  obtain ⟨k, hk, hlt, -, hat, hcont, -⟩ := scanDirectory_some hm hr hchain h
  have hnode := hchain.node_of_mem k hk
  obtain ⟨-, -, hfree, hbefore⟩ := fatSearchFreeLoop_spec (vol.buffer k) vol.items 0
  refine ⟨k, _, hk, hlt, ?_, fun j hj => ?_, hat, hcont⟩
  · have hnot := hfree (by omega)
    rwa [hm.entryOf_buffer hnode hlt] at hnot
  · have hlive := hbefore j (Nat.zero_le j) hj
    rwa [hm.entryOf_buffer hnode (by omega)] at hlive

/-- A failed scan for a free entry means that all slots of the directory are in use. -/
lemma scanFree_none {result : SearchResult} (hchain : vol.view.Chain d l)
    (h : scanDirectory vol fatSearchFreeLoop result d = none) {k i : Nat} (hk : k ∈ l)
    (hi : i < vol.items) : Live (vol.view.entry k i) := by
  have hnode := hchain.node_of_mem k hk
  have hend := scanDirectory_none hm hr hchain h k hk
  obtain ⟨-, -, -, hbefore⟩ := fatSearchFreeLoop_spec (vol.buffer k) vol.items 0
  have hlive := hbefore i (Nat.zero_le i) (by omega)
  rwa [hm.entryOf_buffer hnode hi] at hlive

end Walk

/-! ## Resolving a path -/

/-- A search result that describes the live entry at a slot. -/
structure Found (vol : FATVolume) (r : SearchResult) (k i : Nat) : Prop where
  item : vol.view.Item k i
  entry_eq : r.entry = vol.view.entry k i
  place : vol.At r k i
  container_eq : r.container = (vol.view.entry k i).clus

namespace Found

variable {vol : FATVolume} {r : SearchResult} {k i : Nat}

lemma node (h : Found vol r k i) : vol.view.Node k := by
  obtain ⟨⟨d, -, ⟨l, hl, hk⟩, -⟩, -⟩ := h.item
  exact hl.node_of_mem k hk

lemma lt_items (h : Found vol r k i) : i < vol.items := by
  obtain ⟨⟨d, -, -, hi, -⟩, -⟩ := h.item
  exact hi

end Found

section Resolve

variable {vol : FATVolume} (hs : vol.view.Sound)
include hs

/-- An entry found under an ordinary name is an ordinary slot of its directory. -/
lemma item_of_scan {d k i : Nat} {l : List Nat} (hd : vol.view.IsDir d)
    (hchain : vol.view.Chain d l) (hk : k ∈ l) (hi : i < vol.items)
    (hlive : Live (vol.view.entry k i)) (hdot : (vol.view.entry k i).dirName ≠ dotName)
    (hdotdot : (vol.view.entry k i).dirName ≠ dotdotName) :
    vol.view.InDir d k i ∧ vol.view.Item k i := by
  have hin : vol.view.InDir d k i := by
    refine ⟨⟨l, hchain, hk⟩, hi, fun ⟨hroot, hkd, hi2⟩ => ?_⟩
    subst hkd
    obtain ⟨h0, h1⟩ := hs.dots k hd hroot
    interval_cases i
    · exact hdot h0
    · exact hdotdot h1
  exact ⟨hin, ⟨⟨d, hd, hin⟩, hlive⟩⟩

variable (hm : vol.Mounted) (hr : vol.ctx.Serves .read)
include hm hr

lemma searchSplits_found {names : List DirName} {d cont : Nat} {found : Bool}
    {r₀ r : SearchResult} (hd : vol.view.IsDir d) (hne : names ≠ [])
    (hlegal : ∀ n ∈ names, LegalName n) (hdot : dotName ∉ names) (hdotdot : dotdotName ∉ names)
    (h : searchSplits vol names d found r₀ cont = some r) :
    ∃ k i, Found vol r k i := by
  induction names generalizing d cont found r₀ with
  | nil => exact absurd rfl hne
  | cons name rest ih =>
    obtain ⟨l, hchain⟩ := hs.exists_chain hd
    have hnode := not_isEOC hm.fatSize_le hchain.node_head
    simp only [searchSplits, hnode] at h
    cases hscan : scanDirectory vol (fatSearchLoop name) r₀ d with
    | none => simp [hscan] at h
    | some r₁ =>
      obtain ⟨k, i, hk, hi, hlive, hname, hent, hat⟩ :=
        scanName_some hm hr (hlegal name (by simp)) hchain hscan
      obtain ⟨hin, hitem⟩ := item_of_scan hs hd hchain hk hi hlive
        (fun heq => hdot (by simp [← heq, hname]))
        (fun heq => hdotdot (by simp [← heq, hname]))
      simp only [hscan, Option.isSome_some, Option.getD_some, hent] at h
      cases rest with
      | nil =>
        simp only [searchSplits, ne_eq, not_true_eq_false, false_and, if_false] at h
        obtain rfl : _ = r := by simpa using h
        exact ⟨k, i, hitem, hent, hat, rfl⟩
      | cons name' rest =>
        -- An inner component has to be a directory, so the search goes on in one.
        by_cases hattr : (vol.view.entry k i).hasAttr ATTR_DIRECTORY = true
        · simp only [hattr, Bool.not_true, and_false, if_false, Bool.false_eq_true] at h
          exact ih (.sub hd hin hlive hattr) (by simp)
            (fun n hn => hlegal n (by simp [hn])) (fun hmem => hdot (by simp [hmem]))
            (fun hmem => hdotdot (by simp [hmem])) h
        · simp [hattr] at h

/-- A plain path that is found names a live entry. -/
theorem fatSearchDIREntry_found {path : List UInt8} (hplain : PlainPath path)
    {junk r : SearchResult} (h : fatSearchDIREntry vol path junk = some r) :
    ∃ k i, Found vol r k i := by
  unfold fatSearchDIREntry at h
  split at h
  · contradiction
  · rename_i hlen
    split at h
    · contradiction
    · rename_i names hparse
      have hpath : path ≠ [] := by
        rintro rfl
        simp at hlen
      obtain ⟨hdot, hdotdot⟩ := hplain.not_dot hparse
      have hmap := fatParseDirectory_eq_mapM path
      rw [hparse] at hmap
      have hne : names ≠ [] := by
        rintro rfl
        have hruns := hplain.runs_ne_nil hpath
        obtain ⟨x, xs, hx⟩ := List.exists_cons_of_ne_nil hruns
        rw [hx, List.mapM_cons] at hmap
        cases hb : fatBuildDIRName x <;> cases hb' : xs.mapM fatBuildDIRName <;>
          simp [hb, hb'] at hmap
      have hlegal : ∀ n ∈ names, LegalName n := by
        intro n hn
        obtain ⟨x, -, hx⟩ := exists_of_mem_mapM hmap.symm hn
        exact fatBuildDIRName_legal hx
      exact searchSplits_found hs hm hr .root hne hlegal hdot hdotdot h

end Resolve

end DiegOS.Fat
