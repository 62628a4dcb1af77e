import DiegOS.Fat.Flat
import DiegOS.Lib.WhileLoops

/-!
# Walks on any table

The table in memory is read from the media and nothing checks it.  Four loops of
`fat.c` follow its links until an end mark or until they have found what they
look for; the fifth one overwrites every link it has followed.

Main results:

- Theorem `walks_end_iff`: on which tables each of the loops ends.
- Theorem `walks_bounded`: the bound on the passes of the model changes no result.
-/

namespace DiegOS.Fat

open Lib

/-! ## The rounds of the loops -/

/-- The exit tests of the loops of `FAT_search_DIR_entry` and `FAT_create_entry`
over the clusters of a directory. -/
def scanLeave (vol : FATVolume) (fn : Bytes → Nat → Nat → Nat) (result : SearchResult)
    (cluster : Nat) : Option (Option SearchResult) :=
  if fatClusterIsEOC cluster then some none
  else (fatDirForeach vol fn result cluster).map some

/-- The exit tests of the loop of `FAT_directory_is_void`, which starts with the third
entry of the first cluster and with the first one of the others. -/
def voidLeave (vol : FATVolume) (s : Nat × Nat) : Option Bool :=
  if fatClusterIsEOC s.1 then some true
  else
    match volReadC vol (fatFSoC vol s.1) with
    | none => some false
    | some buffer =>
      ((List.range' s.2 (vol.items - s.2)).find?
        fun i => (entryOf buffer i).mark ≠ DIR_ENTRY_FREE).map
          fun i => (entryOf buffer i).mark = DIR_ENTRY_LAST_FREE

/-- The exit test of the loop of `FAT_append_cluster_chain`. -/
def appendLeave (vol : FATVolume) (cluster : Nat) : Option Nat :=
  if fatClusterIsEOC (fatGetClusterFromTable vol cluster) then some cluster else none

/-- A round of the loop of `FAT_clear_cluster_chain`. -/
def clearRound (s : FATVolume × Nat) : (FATVolume × Nat) ⊕ (FATVolume × Int) :=
  if fatClusterIsEOC s.2 then .inr (s.1, 0)
  else
    match fatSetClusterIntoTable s.1 s.2 FAT_CLEARED with
    | none => .inr (s.1, -1)
    | some vol => .inl (vol, fatGetClusterFromTable s.1 s.2)

section Walks

variable {vol : FATVolume} {c : Nat}

/-- Where the loop over a directory that is searched goes next. -/
def scanRound (vol : FATVolume) (fn : Bytes → Nat → Nat → Nat) (result : SearchResult) :
    Nat → Nat ⊕ Option SearchResult :=
  walkRound (fatGetClusterFromTable vol) (scanLeave vol fn result)

def voidRound (vol : FATVolume) : Nat × Nat → (Nat × Nat) ⊕ Bool :=
  walkRound (fun s => (fatGetClusterFromTable vol s.1, 0)) (voidLeave vol)

def appendRound (vol : FATVolume) : Nat → Nat ⊕ Nat :=
  walkRound (fatGetClusterFromTable vol) (appendLeave vol)

lemma lt_of_not_isEOC (h : ¬fatClusterIsEOC c = true) : c < FAT_EOC := by
  rw [fatClusterIsEOC_iff] at h
  unfold FAT_EOC
  omega

lemma scanLeave_none {fn : Bytes → Nat → Nat → Nat} {result : SearchResult}
    (h : scanLeave vol fn result c = none) : c ∈ Finset.range FAT_EOC := by
  rw [Finset.mem_range]
  apply lt_of_not_isEOC
  intro heoc
  rw [scanLeave, if_pos heoc] at h
  contradiction

lemma voidLeave_none {s : Nat × Nat} (h : voidLeave vol s = none) : s.1 < FAT_EOC := by
  apply lt_of_not_isEOC
  intro heoc
  rw [voidLeave, if_pos heoc] at h
  contradiction

lemma appendLeave_none (h : appendLeave vol c = none) : c ∈ Finset.range vol.fatSize := by
  rw [Finset.mem_range]
  by_contra hge
  have hout : fatGetClusterFromTable vol c = 0xFFFF := if_neg hge
  rw [appendLeave, hout, if_pos (by decide)] at h
  contradiction

/-! ## Clearing -/

/-- The loop of `FAT_clear_cluster_chain` goes on from here. -/
def Inside (vol : FATVolume) (c : Nat) : Prop :=
  2 ≤ c ∧ c < vol.fatSize ∧ ¬fatClusterIsEOC c = true

instance insideDecidable (vol : FATVolume) : DecidablePred (Inside vol) :=
  fun c => inferInstanceAs (Decidable (2 ≤ c ∧ c < vol.fatSize ∧ ¬fatClusterIsEOC c = true))

/-- The links of the table lead to an end mark or out of the table. -/
def LeadsOutOf (vol : FATVolume) (c : Nat) : Prop :=
  LeadsOut (fatGetClusterFromTable vol) (Inside vol) c

lemma get_setFat (hc : c < vol.fatSize) :
    fatGetClusterFromTable (vol.setFat c FAT_CLEARED) =
      Function.update (fatGetClusterFromTable vol) c FAT_CLEARED :=
  congrArg Store.next (FATVolume.view_setFat hc (by decide))

lemma clear_again (h : Inside vol c) :
    clearRound (vol, c) = .inl (vol.setFat c FAT_CLEARED, fatGetClusterFromTable vol c) := by
  obtain ⟨hlo, hhi, heoc⟩ := h
  have hset : fatSetClusterIntoTable vol c FAT_CLEARED = some (vol.setFat c FAT_CLEARED) := by
    rw [fatSetClusterIntoTable, if_neg (by omega), if_pos hhi, FATVolume.setFat]
  simp only [clearRound, if_neg heoc, hset]

lemma clear_leave (h : ¬Inside vol c) : ∃ r, clearRound (vol, c) = .inr r := by
  by_cases heoc : fatClusterIsEOC c = true
  · exact ⟨_, by simp only [clearRound, if_pos heoc]; rfl⟩
  · have hset : fatSetClusterIntoTable vol c FAT_CLEARED = none := by
      unfold fatSetClusterIntoTable
      split_ifs with hlo hhi
      · rfl
      · exact absurd ⟨by omega, hhi, heoc⟩ h
      · rfl
    exact ⟨_, by simp only [clearRound, if_neg heoc, hset]; rfl⟩

/-- The loop follows and overwrites the links of the table. -/
lemma exits_clear {s : FATVolume × Nat} {r : FATVolume × Int} (h : Exits clearRound s r) :
    Exits (overwriteRound (Inside s.1) FAT_CLEARED) (fatGetClusterFromTable s.1, s.2) () := by
  induction h with
  | @leave s r hround =>
    apply Exits.leave
    apply overwrite_leave
    intro hin
    rw [clear_again hin] at hround
    contradiction
  | @again s s' r hround _ ih =>
    by_cases hin : Inside s.1 s.2
    · rw [clear_again hin] at hround
      obtain rfl := Sum.inl.inj hround
      apply Exits.again (overwrite_again hin)
      rw [← get_setFat hin.2.1]
      exact ih
    · obtain ⟨r', hr'⟩ := clear_leave hin
      rw [hr'] at hround
      contradiction

lemma runFor_clear {n : Nat}
    (h : runFor (overwriteRound (Inside vol) FAT_CLEARED) n (fatGetClusterFromTable vol, c) =
      some ()) : ∃ r, runFor clearRound n (vol, c) = some r := by
  induction n generalizing vol c with
  | zero => contradiction
  | succ n ih =>
    by_cases hin : Inside vol c
    · rw [runFor, overwrite_again hin, ← get_setFat hin.2.1] at h
      rw [runFor, clear_again hin]
      exact ih h
    · obtain ⟨r, hr⟩ := clear_leave hin
      exact ⟨r, by rw [runFor, hr]⟩

lemma inside_mem {x : Nat} (h : Inside vol x) : x ∈ Finset.range vol.fatSize :=
  Finset.mem_range.mpr h.2.1

lemma ends_clear_iff :
    Halts clearRound (vol, c) ↔ LeadsOutOf vol c ∨ LeadsOutOf vol FAT_CLEARED := by
  unfold LeadsOutOf
  rw [← ends_overwrite_iff (S := Finset.range vol.fatSize) fun x => inside_mem]
  constructor
  · intro hends
    obtain ⟨r, hr⟩ := hends
    exact ⟨(), exits_clear hr⟩
  · intro hends
    have hout := (ends_overwrite_iff (S := Finset.range vol.fatSize) fun x => inside_mem).mp hends
    obtain ⟨r, hr⟩ := runFor_clear (runFor_of_leadsOut (fun x => inside_mem) rfl hout)
    exact ⟨r, .of_runFor hr⟩

/-! ## Where the loops end -/

/-- The states from which the loop over a directory that should be void goes on. -/
def voidStates (s : Nat × Nat) : Finset (Nat × Nat) :=
  insert s ((Finset.range FAT_EOC).image fun c => (c, 0))

lemma card_voidStates_lt (s : Nat × Nat) : (voidStates s).card + 1 < chainFuel := by
  have himage := Finset.card_image_le (s := Finset.range FAT_EOC)
    (f := fun c => ((c, 0) : Nat × Nat))
  have hinsert := Finset.card_insert_le s ((Finset.range FAT_EOC).image fun c => (c, 0))
  rw [Finset.card_range] at himage
  unfold voidStates chainFuel
  unfold FAT_EOC at *
  omega

lemma goesOnIn_scan {fn : Bytes → Nat → Nat → Nat} {result : SearchResult} :
    GoesOnIn (scanRound vol fn result) (Finset.range FAT_EOC) c :=
  goesOnIn_walk fun _ => scanLeave_none

lemma goesOnIn_append : GoesOnIn (appendRound vol) (Finset.range vol.fatSize) c :=
  goesOnIn_walk fun _ => appendLeave_none

lemma goesOnIn_void {s : Nat × Nat} : GoesOnIn (voidRound vol) (voidStates s) s := by
  apply goesOnIn_walk
  intro n hleave
  cases n with
  | zero => exact Finset.mem_insert_self _ _
  | succ n =>
    apply Finset.mem_insert_of_mem
    rw [Function.iterate_succ_apply'] at hleave ⊢
    exact Finset.mem_image.mpr ⟨_, Finset.mem_range.mpr (voidLeave_none hleave), rfl⟩

end Walks

/-- Whatever the table and the directories hold: the loops that only follow the table end
exactly if they do not run in a circle on which their exit tests fail, and the loop that clears
a chain ends exactly if the table leads out, from the first cluster or from the cleared mark,
which it always does where the mark is no cluster. -/
theorem walks_end_iff (vol : FATVolume) :
    (∀ fn result cluster, Halts (scanRound vol fn result) cluster ↔
      ¬Circles (fatGetClusterFromTable vol) (scanLeave vol fn result) cluster) ∧
    (∀ s, Halts (voidRound vol) s ↔
      ¬Circles (fun s => (fatGetClusterFromTable vol s.1, 0)) (voidLeave vol) s) ∧
    (∀ cluster, Halts (appendRound vol) cluster ↔
      ¬Circles (fatGetClusterFromTable vol) (appendLeave vol) cluster) ∧
    (∀ cluster, Halts clearRound (vol, cluster) ↔
      LeadsOutOf vol cluster ∨ LeadsOutOf vol FAT_CLEARED) ∧
    (vol.fatSize ≤ FAT_CLEARED → ∀ cluster, Halts clearRound (vol, cluster)) := by
  refine ⟨fun fn result cluster => ends_walk_iff goesOnIn_scan,
    fun s => ends_walk_iff goesOnIn_void,
    fun cluster => ends_walk_iff goesOnIn_append, fun cluster => ends_clear_iff, ?_⟩
  intro hsize cluster
  rw [ends_clear_iff]
  refine Or.inr (Or.inl fun hin => ?_)
  have hlt := hin.2.1
  omega

/-- The root cluster of the small volume is linked to itself. -/
def looped : FATVolume := { small with fat := Function.update small.fat 2 2 }

/-- Neither a search in the root for a name that is not there nor an extension of the root
ends. -/
theorem walks_never_end :
    ¬Halts (scanRound looped (fatSearchLoop dotName) ⟨smallFile, 0, 0, 0⟩)
        looped.pb.rootClus.toNat ∧
      ¬Halts (appendRound looped) looped.pb.rootClus.toNat := by
  constructor
  · apply ComesBack.not_ends
    exact ⟨0, 1, 2, by decide, by decide +kernel, by decide +kernel⟩
  · apply ComesBack.not_ends
    exact ⟨0, 1, 2, by decide, by decide +kernel, by decide +kernel⟩

/-! ## The bound of the model -/

section Bounded

variable {vol : FATVolume} {c : Nat}

lemma runFor_scan {fn : Bytes → Nat → Nat → Nat} {result : SearchResult} {fuel : Nat}
    {r : Option SearchResult} (h : runFor (scanRound vol fn result) fuel c = some r) :
    (walkChain vol fuel c).1.findSome? (fatDirForeach vol fn result) = r := by
  induction fuel generalizing c with
  | zero => contradiction
  | succ fuel ih =>
    by_cases heoc : fatClusterIsEOC c = true
    · have hleave : scanLeave vol fn result c = some none := if_pos heoc
      rw [runFor, scanRound, walkRound_leave hleave] at h
      rw [walkChain, if_pos heoc]
      exact Option.some.inj h
    · rw [walkChain, if_neg heoc, List.findSome?_cons]
      cases hscan : fatDirForeach vol fn result c with
      | some r' =>
        have hleave : scanLeave vol fn result c = some (some r') := by
          rw [scanLeave, if_neg heoc, hscan]
          rfl
        rw [runFor, scanRound, walkRound_leave hleave] at h
        exact Option.some.inj h
      | none =>
        have hleave : scanLeave vol fn result c = none := by
          rw [scanLeave, if_neg heoc, hscan]
          rfl
        rw [runFor, scanRound, walkRound_again hleave] at h
        exact ih h

lemma runFor_void {fuel start : Nat} {b : Bool}
    (h : runFor (voidRound vol) fuel (c, start) = some b) :
    directoryVoidLoop vol (walkChain vol fuel c).1 start = b := by
  induction fuel generalizing c start with
  | zero => contradiction
  | succ fuel ih =>
    by_cases heoc : fatClusterIsEOC c = true
    · have hleave : voidLeave vol (c, start) = some true := if_pos heoc
      rw [runFor, voidRound, walkRound_leave hleave] at h
      rw [walkChain, if_pos heoc]
      exact Option.some.inj h
    · rw [walkChain, if_neg heoc, directoryVoidLoop]
      have hvoid : voidLeave vol (c, start) =
          match volReadC vol (fatFSoC vol c) with
          | none => some false
          | some buffer =>
            ((List.range' start (vol.items - start)).find?
              fun i => (entryOf buffer i).mark ≠ DIR_ENTRY_FREE).map
                fun i => (entryOf buffer i).mark = DIR_ENTRY_LAST_FREE := if_neg heoc
      cases hread : volReadC vol (fatFSoC vol c) with
      | none =>
        rw [hread] at hvoid
        rw [runFor, voidRound, walkRound_leave hvoid] at h
        exact Option.some.inj h
      | some buffer =>
        rw [hread] at hvoid
        dsimp only at hvoid ⊢
        cases hfind : (List.range' start (vol.items - start)).find?
            fun i => (entryOf buffer i).mark ≠ DIR_ENTRY_FREE with
        | some i =>
          rw [hfind, Option.map_some] at hvoid
          rw [runFor, voidRound, walkRound_leave hvoid] at h
          exact Option.some.inj h
        | none =>
          rw [hfind, Option.map_none] at hvoid
          rw [runFor, voidRound, walkRound_again hvoid] at h
          exact ih h

lemma runFor_append {fuel x : Nat} (h : runFor (appendRound vol) fuel c = some x) :
    lastCluster vol fuel c = x := by
  induction fuel generalizing c with
  | zero => contradiction
  | succ fuel ih =>
    rw [lastCluster]
    by_cases heoc : fatClusterIsEOC (fatGetClusterFromTable vol c) = true
    · have hleave : appendLeave vol c = some c := if_pos heoc
      rw [runFor, appendRound, walkRound_leave hleave] at h
      rw [if_pos heoc]
      exact Option.some.inj h
    · have hleave : appendLeave vol c = none := if_neg heoc
      rw [runFor, appendRound, walkRound_again hleave] at h
      rw [if_neg heoc]
      exact ih h

lemma runFor_clearLoop {fuel : Nat} {r : FATVolume × Int}
    (h : runFor clearRound fuel (vol, c) = some r) : clearLoop fuel vol c = r := by
  induction fuel generalizing vol c with
  | zero => contradiction
  | succ fuel ih =>
    rw [clearLoop]
    by_cases heoc : fatClusterIsEOC c = true
    · have hround : clearRound (vol, c) = .inr (vol, 0) := if_pos heoc
      rw [runFor, hround] at h
      rw [if_pos heoc]
      exact Option.some.inj h
    · rw [if_neg heoc]
      dsimp only
      cases hset : fatSetClusterIntoTable vol c FAT_CLEARED with
      | none =>
        have hround : clearRound (vol, c) = .inr (vol, -1) := by
          simp only [clearRound, if_neg heoc, hset]
        rw [runFor, hround] at h
        exact Option.some.inj h
      | some vol' =>
        have hround : clearRound (vol, c) =
            .inl (vol', fatGetClusterFromTable vol c) := by
          simp only [clearRound, if_neg heoc, hset]
        rw [runFor, hround] at h
        exact ih h

/-- Where a loop of the source ends, the bounded one of the model returns its result; the size
of the table is a 16-bit word. -/
theorem walks_bounded (hsize : vol.fatSize < 2 ^ 16) :
    (∀ fn result cluster r, Exits (scanRound vol fn result) cluster r →
      scanDirectory vol fn result cluster = r) ∧
    (∀ cluster start b, Exits (voidRound vol) (cluster, start) b →
      directoryVoidLoop vol (chainOf vol cluster) start = b) ∧
    (∀ cluster x, Exits (appendRound vol) cluster x → lastCluster vol chainFuel cluster = x) ∧
    ∀ cluster r, Exits clearRound (vol, cluster) r →
      clearLoop (chainFuel + 1) vol cluster = r := by
  refine ⟨fun fn result cluster r h => ?_, fun cluster start b h => ?_, fun cluster x h => ?_,
    fun cluster r h => ?_⟩
  · apply runFor_scan
    exact h.runFor_eq goesOnIn_scan (by rw [Finset.card_range]; decide)
  · apply runFor_void
    have hcard := card_voidStates_lt (cluster, start)
    exact h.runFor_eq goesOnIn_void (by omega)
  · apply runFor_append
    exact h.runFor_eq goesOnIn_append (by rw [Finset.card_range]; exact hsize)
  · apply runFor_clearLoop
    have hout := ends_clear_iff.mp ⟨r, h⟩
    obtain ⟨r', hr'⟩ := runFor_clear (runFor_of_leadsOut (fun x => inside_mem) rfl hout)
    obtain rfl := h.unique (.of_runFor hr')
    have hcard := Finset.card_filter_le (Finset.range vol.fatSize)
      fun x => fatGetClusterFromTable vol x ≠ FAT_CLEARED
    rw [Finset.card_range] at hcard
    exact runFor_mono (by unfold unmarked chainFuel; omega) hr'

/-- On the small volume. -/
theorem walks_bounded_small : small.fatSize < 2 ^ 16 ∧
    ∀ cluster x, Exits (appendRound small) cluster x → lastCluster small chainFuel cluster = x :=
  ⟨by decide, (walks_bounded (by decide)).2.2.1⟩

end Bounded

end DiegOS.Fat
