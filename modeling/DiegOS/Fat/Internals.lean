import DiegOS.Fat.Names

/-!
# Cluster table and entry helpers

The helpers of `fat_internals.c` and the static wrappers at the top of
`fat.c`: bounded access to the in-memory cluster table, the free-cluster
search with its hint, the classification of cluster values, the sector
arithmetic, and the time stamps.

Main results:

- Theorem `fatGetFreeClusterFromTable_spec`: the free-cluster search
  returns a free cluster in range, or zero exactly when none is left.
-/

namespace DiegOS.Fat

open Lib

/-- First end-of-chain value, as `fat.c` tests it. -/
def FAT_EOC : Nat := 0xFFF8

/-- The end-of-chain value `fat_internals.c` writes. -/
def FAT_EOC_WRITTEN : Nat := 0xFFFF

def FAT_BAD : Nat := 0xFFF7

def FAT_UNUSED : Nat := 0

/-- `(uint16_t)DIR_ENTRY_FREE`: the marker is a signed `char`, so the cast
extends its sign. -/
def FAT_CLEARED : Nat := 0xFFE5

def fatClusterIsEOC (fatContent : Nat) : Bool := FAT_EOC ≤ fatContent

def fatClusterIsBAD (fatContent : Nat) : Bool := fatContent == FAT_BAD

def fatClusterIsFREE (fatContent : Nat) : Bool := fatContent == FAT_UNUSED

def fatClusterIsReadable (fatContent : Nat) : Bool :=
  !(fatClusterIsEOC fatContent || fatClusterIsBAD fatContent || fatClusterIsFREE fatContent)

/-- Which values end a chain. -/
lemma fatClusterIsEOC_iff (v : Nat) : fatClusterIsEOC v = true ↔ 0xFFF8 ≤ v := by
  simp [fatClusterIsEOC, show FAT_EOC = 0xFFF8 from rfl]

/-- Which value marks a bad cluster. -/
lemma fatClusterIsBAD_iff (v : Nat) : fatClusterIsBAD v = true ↔ v = 0xFFF7 := by
  simp [fatClusterIsBAD, show FAT_BAD = 0xFFF7 from rfl]

/-- Which value marks a free cluster. -/
lemma fatClusterIsFREE_iff (v : Nat) : fatClusterIsFREE v = true ↔ v = 0 := by
  simp [fatClusterIsFREE, show FAT_UNUSED = 0 from rfl]

/-- Which values are links. -/
lemma fatClusterIsReadable_iff (v : Nat) :
    fatClusterIsReadable v = true ↔ v ≠ 0 ∧ v < 0xFFF7 := by
  rw [fatClusterIsReadable, Bool.not_eq_true', ← Bool.not_eq_true, Bool.or_eq_true,
    Bool.or_eq_true, fatClusterIsEOC_iff, fatClusterIsBAD_iff, fatClusterIsFREE_iff]
  omega

def fatGetClusterFromTable (vol : FATVolume) (N : Nat) : Nat :=
  if N < vol.fatSize then (vol.fat N).toNat else 0xFFFF

def fatSetClusterIntoTable (vol : FATVolume) (N val : Nat) : Option FATVolume :=
  if N < 2 then none
  else if N < vol.fatSize then
    some { vol with fat := Function.update vol.fat N (UInt16.ofNat val) }
  else none

def fatSetEOCIntoTable (vol : FATVolume) (N : Nat) : Option FATVolume :=
  fatSetClusterIntoTable vol N FAT_EOC_WRITTEN

def fatCheckDIREntry (entry : DirEntry) : Int :=
  if entry.mark = 0 then 0
  else if entry.mark ≠ DIR_ENTRY_FREE ∧
      entry.dirAttr &&& (ATTR_DIRECTORY ||| ATTR_VOLUME_ID) ≠
        ATTR_DIRECTORY ||| ATTR_VOLUME_ID then 1
  else -1

def fatCheckAttrib (attributes : UInt8) : Int :=
  if attributes &&& (ATTR_DIRECTORY ||| ATTR_VOLUME_ID) ≠ ATTR_DIRECTORY ||| ATTR_VOLUME_ID then 0
  else -1

/-- `FAT_get_free_cluster_from_table`: search from the hint to the end of the table,
then from the first data cluster up to the hint. -/
def fatGetFreeClusterFromTable (vol : FATVolume) : Nat × FATVolume :=
  let unused := fun N => vol.fat N == 0
  match (List.range' vol.lastFreeFATEntry (vol.fatSize - vol.lastFreeFATEntry)).find? unused with
  | some N => (N, { vol with lastFreeFATEntry := N })
  | none =>
    match (List.range' 2 (vol.lastFreeFATEntry + 1 - 2)).find? unused with
    | some N => (N, { vol with lastFreeFATEntry := N })
    | none => (FAT_UNUSED, vol)

/-- `FAT_FSoC`: first sector of a cluster, in 32-bit arithmetic. -/
def fatFSoC (vol : FATVolume) (N : Nat) : Nat :=
  ((N + 2 ^ 32 - 2) * vol.pb.secPerClus.toNat + vol.firstDataSector) % 2 ^ 32

/-! ## Time stamps -/

/-- Which stamps `FAT_update_timestamps` sets. -/
inductive StampFlag where
  | create
  | write
  | read
deriving DecidableEq, Repr

def fatUpdateTimestamps (entry : DirEntry) (flag : StampFlag) (now : Tm) : DirEntry :=
  let entry :=
    if flag = .write ∨ flag = .create then
      { entry with dirWrtTime := timeOf now entry.dirWrtTime, dirWrtDate := dateOf now }
    else entry
  let entry :=
    if flag = .create then
      { entry with dirCrtTime := timeOf now entry.dirCrtTime, dirCrtDate := dateOf now }
    else entry
  { entry with dirAccTime := timeOf now entry.dirAccTime, dirAccDate := dateOf now }

/-- The stamps leave the name alone. -/
@[simp]
lemma fatUpdateTimestamps_dirName (e : DirEntry) (flag : StampFlag) (now : Tm) :
    (fatUpdateTimestamps e flag now).dirName = e.dirName := by
  cases flag <;> rfl

/-- The stamps leave the attributes alone. -/
@[simp]
lemma fatUpdateTimestamps_dirAttr (e : DirEntry) (flag : StampFlag) (now : Tm) :
    (fatUpdateTimestamps e flag now).dirAttr = e.dirAttr := by
  cases flag <;> rfl

/-- The stamps leave the first cluster alone. -/
@[simp]
lemma fatUpdateTimestamps_dirFstClus (e : DirEntry) (flag : StampFlag) (now : Tm) :
    (fatUpdateTimestamps e flag now).dirFstClus = e.dirFstClus := by
  cases flag <;> rfl

/-- The stamps leave the size alone. -/
@[simp]
lemma fatUpdateTimestamps_dirFileSize (e : DirEntry) (flag : StampFlag) (now : Tm) :
    (fatUpdateTimestamps e flag now).dirFileSize = e.dirFileSize := by
  cases flag <;> rfl

/-! ## Requests relative to the volume -/

/-- `diskRead`. -/
def volRead (vol : FATVolume) (sec numsec : Nat) : Option Bytes :=
  vol.ctx.read ((vol.firstSector + sec) % 2 ^ 32) numsec

/-- `diskWrite`. -/
def volWrite (vol : FATVolume) (sec numsec : Nat) (buf : Bytes) : Option FATVolume :=
  (vol.ctx.write ((vol.firstSector + sec) % 2 ^ 32) numsec buf).map fun d => { vol with ctx := d }

/-- `diskReadC`: one cluster. -/
def volReadC (vol : FATVolume) (sec : Nat) : Option Bytes :=
  volRead vol sec vol.pb.secPerClus.toNat

/-- `diskWriteC`: one cluster. -/
def volWriteC (vol : FATVolume) (sec : Nat) (buf : Bytes) : Option FATVolume :=
  volWrite vol sec vol.pb.secPerClus.toNat buf

/-! ## The free-cluster search -/

/-- Where the search finds nothing, nothing in its range is free. -/
lemma find?_range'_eq_none {p : Nat → Bool} {a n : Nat}
    (h : (List.range' a n).find? p = none) {x : Nat} (hlo : a ≤ x) (hhi : x < a + n) :
    p x = false := by
  have hnone := List.find?_eq_none.mp h x (List.mem_range'_1.mpr ⟨hlo, hhi⟩)
  simpa using hnone

/-- The free-cluster search returns a free cluster in range, or zero exactly when
none is left; it moves nothing but the hint, which stays in range. -/
theorem fatGetFreeClusterFromTable_spec {vol : FATVolume} (hlo : 2 ≤ vol.lastFreeFATEntry)
    (hhi : vol.lastFreeFATEntry < vol.fatSize) :
    (∃ N, 2 ≤ N ∧ N < vol.fatSize ∧ vol.fat N = 0 ∧
      fatGetFreeClusterFromTable vol = (N, { vol with lastFreeFATEntry := N })) ∨
    ((∀ N, 2 ≤ N → N < vol.fatSize → vol.fat N ≠ 0) ∧
      fatGetFreeClusterFromTable vol = (0, vol)) := by
  unfold fatGetFreeClusterFromTable
  dsimp only
  split
  next N hfind =>
    left
    have hmem := List.mem_range'_1.mp (List.mem_of_find?_eq_some hfind)
    have hfree := List.find?_some hfind
    exact ⟨N, by omega, by omega, by simpa using hfree, rfl⟩
  next hfirst =>
    split
    next N hfind =>
      left
      have hmem := List.mem_range'_1.mp (List.mem_of_find?_eq_some hfind)
      have hfree := List.find?_some hfind
      exact ⟨N, by omega, by omega, by simpa using hfree, rfl⟩
    next hsecond =>
      right
      refine ⟨fun N hN hsize hfree => ?_, rfl⟩
      have hused : (vol.fat N == 0) = false := by
        by_cases hle : vol.lastFreeFATEntry ≤ N
        · exact find?_range'_eq_none hfirst hle (by omega)
        · exact find?_range'_eq_none hsecond hN (by omega)
      simp [hfree] at hused

end DiegOS.Fat
