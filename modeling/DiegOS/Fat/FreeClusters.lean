import DiegOS.Fat.Flat
import DiegOS.Lib.WhileLoops

/-!
# The search for a free cluster

`FAT_get_free_cluster_from_table` with its two loops as they run: a 16-bit index, entries read
from a table with an end, and the hint as the bound of the second loop.

Main results:

- Theorem `TableScan.scan`: what one of the loops finds.
- Theorem `free_cluster_search`: the search finds a free cluster if there is one, inside the
  table.
- Theorem `searchFreeCluster_eq`: the search is the one that the volume's calls make.
-/

namespace DiegOS.Fat

open Lib (runFor)

/-! ## The code -/

/-- How a loop over the table ends. -/
inductive TableScan where
  | found (N : UInt16)
  | passed
  | outside
deriving DecidableEq, Repr

/-- One round of a loop up to a bound. -/
def tableRound (table : List UInt16) (bound : Nat) (N : UInt16) : UInt16 ⊕ TableScan :=
  if N.toNat < bound then
    match table[N.toNat]? with
    | none => .inr .outside
    | some entry => if entry = 0 then .inr (.found N) else .inl (N + 1)
  else .inr .passed

/-- More rounds than there are 16-bit numbers. -/
def SCAN_ROUNDS : Nat := 0x10001

/-- `FAT_get_free_cluster_from_table`: the cluster and the new hint; none if an entry outside
the table is read or a loop does not end. -/
def searchFreeCluster (table : List UInt16) (fatSize lastFreeFATEntry : UInt16) :
    Option (UInt16 × UInt16) :=
  match runFor (tableRound table fatSize.toNat) SCAN_ROUNDS lastFreeFATEntry with
  | some (.found N) => some (N, N)
  | some .passed =>
    match runFor (tableRound table (lastFreeFATEntry.toNat + 1)) SCAN_ROUNDS 2 with
    | some (.found N) => some (N, N)
    | some .passed => some (0, lastFreeFATEntry)
    | _ => none
  | _ => none

/-! ## The loops -/

variable {table : List UInt16} {bound n : Nat} {N : UInt16}

/-- What a loop from an index to a bound inside the table finds. -/
inductive TableScan.Finds (table : List UInt16) (low bound : Nat) : TableScan → Prop where
  | found {N : UInt16} (hlow : low ≤ N.toNat) (hhigh : N.toNat < bound)
      (hfree : table[N.toNat]? = some 0)
      (hfirst : ∀ M, low ≤ M → M < N.toNat → table[M]? ≠ some 0) : Finds table low bound (.found N)
  | passed (hnone : ∀ M, low ≤ M → M < bound → table[M]? ≠ some 0) : Finds table low bound .passed

theorem TableScan.scan (hbound : bound ≤ table.length) (hword : bound < 2 ^ 16)
    (hn : bound < N.toNat + n) (hpos : 0 < n) :
    ∃ r, runFor (tableRound table bound) n N = some r ∧ Finds table N.toNat bound r := by
  induction n generalizing N with
  | zero => exact absurd hpos (Nat.lt_irrefl 0)
  | succ n ih =>
    rw [runFor, tableRound]
    by_cases hlt : N.toNat < bound
    · have hget : table[N.toNat]? = some table[N.toNat] := List.getElem?_eq_getElem (by omega)
      rw [if_pos hlt, hget]
      by_cases hfree : table[N.toNat] = 0
      · dsimp only
        rw [if_pos hfree]
        exact ⟨_, rfl, .found le_rfl hlt (by rw [hget, hfree]) fun M hM hM' =>
          absurd hM' (Nat.not_lt.mpr hM)⟩
      · have hnext : (N + 1).toNat = N.toNat + 1 := by
          rw [UInt16.toNat_add, UInt16.toNat_one, Nat.mod_eq_of_lt (by omega)]
        dsimp only
        rw [if_neg hfree]
        obtain ⟨r, hrun, hfinds⟩ := ih (N := N + 1) (by omega) (by omega)
        refine ⟨r, hrun, ?_⟩
        rw [hnext] at hfinds
        have hused : table[N.toNat]? ≠ some 0 := by
          rw [hget]
          exact fun hzero => hfree (Option.some.inj hzero)
        cases hfinds with
        | found hlow hhigh hzero hfirst =>
          refine .found (by omega) hhigh hzero fun M hM hM' => ?_
          rcases Nat.eq_or_lt_of_le hM with rfl | hM
          · exact hused
          · exact hfirst M hM hM'
        | passed hnone =>
          refine .passed fun M hM hM' => ?_
          rcases Nat.eq_or_lt_of_le hM with rfl | hM
          · exact hused
          · exact hnone M hM hM'
    · rw [if_neg hlt]
      exact ⟨_, rfl, .passed fun M hM hM' => absurd hM' (by omega)⟩

lemma scan_first {fatSize : UInt16} (hsize : table.length = fatSize.toNat) (hint : UInt16) :
    ∃ r, runFor (tableRound table fatSize.toNat) SCAN_ROUNDS hint = some r ∧
      TableScan.Finds table hint.toNat fatSize.toNat r := by
  have hword := fatSize.toNat_lt
  apply TableScan.scan (Nat.le_of_eq hsize.symm) hword
  · rw [SCAN_ROUNDS]
    omega
  · exact Nat.succ_pos _

lemma scan_second {fatSize hint : UInt16} (hsize : table.length = fatSize.toNat)
    (hhi : hint.toNat < fatSize.toNat) :
    ∃ r, runFor (tableRound table (hint.toNat + 1)) SCAN_ROUNDS 2 = some r ∧
      TableScan.Finds table 2 (hint.toNat + 1) r := by
  have hword := fatSize.toNat_lt
  apply TableScan.scan
  · omega
  · omega
  · rw [SCAN_ROUNDS]
    omega
  · exact Nat.succ_pos _

/-- The cluster `N` of the table is free. -/
def FreeCluster (table : List UInt16) (fatSize : UInt16) (N : Nat) : Prop :=
  2 ≤ N ∧ N < fatSize.toNat ∧ table[N]? = some 0

/-- What the two loops find together. -/
lemma searchFreeCluster_cases {fatSize hint : UInt16} (hsize : table.length = fatSize.toNat)
    (hlo : 2 ≤ hint.toNat) (hhi : hint.toNat < fatSize.toNat) :
    (∃ N, searchFreeCluster table fatSize hint = some (N, N) ∧
      FreeCluster table fatSize N.toNat) ∨
    (searchFreeCluster table fatSize hint = some (0, hint) ∧
      ∀ N, ¬FreeCluster table fatSize N) := by
  obtain ⟨first, hfirst, hfinds⟩ := scan_first hsize hint
  obtain ⟨second, hsecond, hfinds'⟩ := scan_second hsize hhi
  rw [searchFreeCluster, hfirst]
  cases hfinds with
  | @found N hlow hhigh hfree _ => exact .inl ⟨N, rfl, by omega, hhigh, hfree⟩
  | passed hnone =>
    rw [hsecond]
    cases hfinds' with
    | @found N hlow hhigh hfree _ => exact .inl ⟨N, rfl, hlow, by omega, hfree⟩
    | passed hnone' =>
      refine .inr ⟨rfl, fun N hN => ?_⟩
      obtain ⟨hlow, hhigh, hfree⟩ := hN
      by_cases hle : hint.toNat ≤ N
      · exact hnone N hle hhigh hfree
      · exact hnone' N hlow (by omega) hfree

/-- For every content of the table and every hint in range, the search reads no entry outside the
table and ends; it returns a free cluster if there is one and 0 if there is none, and leaves the
hint in range. -/
theorem free_cluster_search {table : List UInt16} {fatSize lastFreeFATEntry : UInt16}
    (hsize : table.length = fatSize.toNat) (hlo : 2 ≤ lastFreeFATEntry.toNat)
    (hhi : lastFreeFATEntry.toNat < fatSize.toNat) :
    ∃ N hint, searchFreeCluster table fatSize lastFreeFATEntry = some (N, hint) ∧
      ((∃ M, FreeCluster table fatSize M) → FreeCluster table fatSize N.toNat) ∧
      ((¬∃ M, FreeCluster table fatSize M) → N = 0) ∧
      2 ≤ hint.toNat ∧ hint.toNat < fatSize.toNat := by
  rcases searchFreeCluster_cases hsize hlo hhi with ⟨N, hsearch, hfree⟩ | ⟨hsearch, hnone⟩
  · exact ⟨N, N, hsearch, fun _ => hfree, fun hno => absurd ⟨_, hfree⟩ hno, hfree.1, hfree.2.1⟩
  · exact ⟨0, _, hsearch, fun ⟨M, hM⟩ => absurd hM (hnone M), fun _ => rfl, hlo, hhi⟩

/-- The last free cluster is in front of the hint. -/
theorem free_cluster_search_wraps : ∃ N hint,
    searchFreeCluster [0xFFF8, 0xFFFF, 0, 3, 4] 5 4 = some (N, hint) ∧
      FreeCluster [0xFFF8, 0xFFFF, 0, 3, 4] 5 N.toNat := by
  obtain ⟨N, hint, hsearch, hfree, -⟩ := @free_cluster_search [0xFFF8, 0xFFFF, 0, 3, 4] 5 4 rfl
    (by decide) (by decide)
  exact ⟨N, hint, hsearch, hfree ⟨2, by decide, by decide, rfl⟩⟩

/-! ## The search of a volume -/

/-- The table of a volume up to its end. -/
def entries (vol : FATVolume) : List UInt16 := (List.range vol.fatSize).map vol.fat

lemma entries_get {vol : FATVolume} {M : Nat} (h : M < vol.fatSize) :
    (entries vol)[M]? = some (vol.fat M) := by
  rw [entries, List.getElem?_map, List.getElem?_range h, Option.map_some]

/-- The list form of a loop. -/
lemma TableScan.Finds.find_eq {vol : FATVolume} {low : Nat} {r : TableScan}
    (h : Finds (entries vol) low bound r) (hbound : bound ≤ vol.fatSize) :
    (List.range' low (bound - low)).find? (fun M => vol.fat M == 0) =
      match r with
      | .found N => some N.toNat
      | _ => none := by
  cases h with
  | found hlow hhigh hfree hfirst =>
    rw [entries_get (by omega)] at hfree
    apply List.find?_range'_eq_some.mpr
    refine ⟨?_, List.mem_range'_1.mpr ⟨hlow, by omega⟩, fun M hM hM' => ?_⟩
    · rw [Option.some.inj hfree]
      rfl
    · have hused := hfirst M hM hM'
      rw [entries_get (by omega)] at hused
      simpa using hused
  | passed hnone =>
    apply List.find?_eq_none.mpr
    intro M hM hfree
    have hrange := List.mem_range'_1.mp hM
    apply hnone M hrange.1 (by omega)
    rw [entries_get (by omega)]
    exact congrArg some (by simpa using hfree)

/-- On a volume this is the search that its calls make. -/
theorem searchFreeCluster_eq {vol : FATVolume} (hword : vol.fatSize < 2 ^ 16)
    (hhi : vol.lastFreeFATEntry < vol.fatSize) :
    searchFreeCluster (entries vol) (UInt16.ofNat vol.fatSize)
      (UInt16.ofNat vol.lastFreeFATEntry) =
        some (UInt16.ofNat (fatGetFreeClusterFromTable vol).1,
          UInt16.ofNat (fatGetFreeClusterFromTable vol).2.lastFreeFATEntry) := by
  have hsize : (UInt16.ofNat vol.fatSize).toNat = vol.fatSize :=
    UInt16.toNat_ofNat_of_lt' hword
  have hhint : (UInt16.ofNat vol.lastFreeFATEntry).toNat = vol.lastFreeFATEntry :=
    UInt16.toNat_ofNat_of_lt' (hhi.trans hword)
  have hlength : (entries vol).length = (UInt16.ofNat vol.fatSize).toNat := by
    rw [hsize, entries, List.length_map, List.length_range]
  obtain ⟨first, hfirst, hfinds⟩ := scan_first hlength (UInt16.ofNat vol.lastFreeFATEntry)
  have hbelow : (UInt16.ofNat vol.lastFreeFATEntry).toNat < (UInt16.ofNat vol.fatSize).toNat := by
    omega
  obtain ⟨second, hsecond, hfinds'⟩ := scan_second hlength hbelow
  rw [searchFreeCluster, hfirst]
  rw [hhint] at hfinds hfinds' hsecond
  rw [hsize] at hfinds
  have hfind := hfinds.find_eq le_rfl
  have hfind' := hfinds'.find_eq hhi
  rw [hhint]
  unfold fatGetFreeClusterFromTable
  dsimp only
  rw [hfind]
  cases hfinds with
  | @found N _ _ _ _ =>
    rw [UInt16.ofNat_toNat]
  | passed _ =>
    rw [hsecond, hfind']
    cases hfinds' with
    | @found N _ _ _ _ =>
      rw [UInt16.ofNat_toNat]
    | passed _ => rfl

/-- On the small volume. -/
theorem searchFreeCluster_small :
    searchFreeCluster (entries small) (UInt16.ofNat small.fatSize)
      (UInt16.ofNat small.lastFreeFATEntry) =
        some (UInt16.ofNat (fatGetFreeClusterFromTable small).1,
          UInt16.ofNat (fatGetFreeClusterFromTable small).2.lastFreeFATEntry) :=
  searchFreeCluster_eq (by decide) (by decide)
end DiegOS.Fat
