import DiegOS.Fat.Format

/-!
# Geometry of a new volume

The format sizes the cluster table with a closed formula, and the mount counts
the clusters again from the fields of the boot sector.  The formula charges a
data cluster for one table entry and forgets the two reserved ones, so the two
sides agree only when the last sector of the table has room left.

Main results:

- Theorems `Formatted.boot_eq` and `Formatted.boot_blanked`: the boot
  sector survives the format, or is blanked by it.
- Theorem `clusters_eq`: the number of clusters behind the tables.
- Theorem `fatFormat_geometry_iff`: exactly which partitions get a table
  that covers their clusters.
-/

namespace DiegOS.Fat

open Lib

/-- The layout `FAT_mount` derives from the boot sector it finds. -/
def mountLayout (ctx : Disk) (firstSecOnDisk : Nat) (vol : FATVolume) : FATVolume :=
  FATVolume.layOut { vol with ctx := ctx, firstSector := firstSecOnDisk }
    (.decode (shift ctx.data (firstSecOnDisk * ctx.bytesPerSector)))

/-! ## Where a format writes -/

lemma mem_tableWrites {k n : Nat} {w : Nat × Bytes} :
    w ∈ tableWrites k n ↔
      ∃ i, (i = 0 ∨ i < n) ∧ w = ((k + i) % 2 ^ 32, if i = 0 then tableHead else blank) := by
  unfold tableWrites
  rw [List.mem_cons, List.mem_map]
  constructor
  · rintro (rfl | ⟨i, hi, rfl⟩)
    · exact ⟨0, .inl rfl, rfl⟩
    · have hrange := List.mem_range'_1.mp hi
      exact ⟨i, .inr (by omega), by rw [if_neg (by omega)]⟩
  · rintro ⟨i, hi, rfl⟩
    by_cases hzero : i = 0
    · left
      rw [hzero]
      rfl
    · right
      exact ⟨i, List.mem_range'_1.mpr (by omega), by rw [if_neg hzero]⟩

lemma mem_blankWrites {k n : Nat} {w : Nat × Bytes} :
    w ∈ blankWrites k n ↔ k ≤ w.1 ∧ w.1 < (n + 1) % 2 ^ 32 ∧ w.2 = blank := by
  unfold blankWrites
  rw [List.mem_map]
  constructor
  · rintro ⟨sec, hsec, rfl⟩
    have hrange := List.mem_range'_1.mp hsec
    exact ⟨hrange.1, by dsimp only; omega, rfl⟩
  · rintro ⟨hlo, hhi, hbuf⟩
    exact ⟨w.1, List.mem_range'_1.mpr (by omega), by rw [← hbuf]⟩

namespace FATPartition

variable (part : FATPartition) (bytesPerSector : Nat) (env : FormatEnv)

/-- The sectors of one copy of the table, as the boot sector records them. -/
def tableSectors : Nat := (part.block bytesPerSector env).fatSz16.toNat

/-- First sector behind the tables. -/
def rootSector : Nat := dataSector part.first (part.tableSectors bytesPerSector env)

/-- The parts of a format in order. -/
lemma writes_eq :
    part.writes bytesPerSector env =
      (part.first, bootSector (part.block bytesPerSector env)) ::
        (tableWrites (part.first + 1) (part.tableSectors bytesPerSector env) ++
          (tableWrites (part.first + 1 + part.tableSectors bytesPerSector env)
            (part.tableSectors bytesPerSector env) ++
          (part.rootSector bytesPerSector env, rootHead part.label env.now) ::
            blankWrites ((part.rootSector bytesPerSector env + 1) % 2 ^ 32) part.last)) := by
  simp [writes, formatWrites, RES_SECTORS, NUM_FATS, List.range_succ, tableSectors, rootSector,
    prepared, first, last]

/-- The blank writes wrap around and reach the first sector. -/
def Blanked : Prop :=
  (part.rootSector bytesPerSector env + 1) % 2 ^ 32 ≤ part.first ∧
    part.first < (part.last + 1) % 2 ^ 32

lemma first_lt : part.first < 2 ^ 32 := part.startsector.toNat_lt

lemma last_lt : part.last < 2 ^ 32 := part.endsector.toNat_lt

lemma sectors_eq : part.sectors = (part.last + 2 ^ 32 - part.first + 1) % 2 ^ 32 := by
  have hfirst := part.first_lt
  have hlast := part.last_lt
  have hone : UInt32.toNat 1 = 1 := rfl
  simp only [first, last] at *
  rw [sectors, UInt32.toNat_add, UInt32.toNat_sub, hone]
  omega

lemma sectors_lt : part.sectors < 2 ^ 32 := (part.endsector - part.startsector + 1).toNat_lt

lemma tableSectors_eq : part.tableSectors bytesPerSector env =
    formatFATSz (part.clusterSectors bytesPerSector).toNat part.sectors % 2 ^ 16 := by
  rw [tableSectors, block, formatBlock]
  exact UInt16.toNat_ofNat'

lemma tableSectors_lt : part.tableSectors bytesPerSector env < 2 ^ 16 :=
  UInt16.toNat_lt _

end FATPartition

namespace Formatted

variable {d d' : Disk} {part : FATPartition} {env : FormatEnv}

variable (h : Formatted d part env d')
include h

lemma bytesPerSector_eq :
    d'.bytesPerSector = d.bytesPerSector := by
  rw [h.disk_eq, Disk.withSectors_bytesPerSector]

/-- No write but the blank ones comes back to the first sector. -/
theorem boot_eq (hblank : ¬part.Blanked d.bytesPerSector env)
    {j : Nat} (hj : j < d.bytesPerSector) :
    d'.data (part.first * d.bytesPerSector + j) =
      bootSector (part.block d.bytesPerSector env) j := by
  have hlt := part.tableSectors_lt d.bytesPerSector env
  have hfirst := part.first_lt
  rw [h.disk_eq]
  unfold Disk.withSectors
  dsimp only
  rw [part.writes_eq, writeBlocks_cons, writeBlocks_apply_not_mem (fun w hw => ?_) hj,
    memcpy_apply_mem (by omega) (by omega), Nat.add_sub_cancel_left, Nat.zero_add]
  rcases List.mem_append.mp hw with hw | hw
  · obtain ⟨i, hi, rfl⟩ := mem_tableWrites.mp hw
    omega
  rcases List.mem_append.mp hw with hw | hw
  · obtain ⟨i, hi, rfl⟩ := mem_tableWrites.mp hw
    omega
  rcases List.mem_cons.mp hw with rfl | hw
  · unfold FATPartition.rootSector dataSector RES_SECTORS NUM_FATS
    omega
  · obtain ⟨hlo, hhi, -⟩ := mem_blankWrites.mp hw
    intro heq
    exact hblank ⟨heq ▸ hlo, heq ▸ hhi⟩

/-- The blank writes may come back to the first sector. -/
theorem boot_blanked (hblank : part.Blanked d.bytesPerSector env)
    {j : Nat} (hj : j < d.bytesPerSector) :
    d'.data (part.first * d.bytesPerSector + j) = 0 := by
  rw [h.disk_eq]
  unfold Disk.withSectors
  dsimp only
  rw [part.writes_eq, writeBlocks_cons, writeBlocks_append, writeBlocks_append,
    writeBlocks_cons]
  exact writeBlocks_apply_mem ⟨(part.first, blank), mem_blankWrites.mpr
    ⟨hblank.1, hblank.2, rfl⟩, rfl⟩ (fun w hw _ => by rw [(mem_blankWrites.mp hw).2.2]; rfl) hj

/-- Reading an intact boot sector gives the parameter block. -/
lemma decode_boot (hblank : ¬part.Blanked d.bytesPerSector env) :
    ParameterBlock.decode (shift d'.data (part.first * d'.bytesPerSector)) =
      part.block d.bytesPerSector env := by
  have hsize := h.entry_le
  unfold entrySize at hsize
  rw [← ParameterBlock.decode_encode (part.block d.bytesPerSector env), h.bytesPerSector_eq]
  refine ParameterBlock.decode_congr fun j hj => ?_
  unfold parameterBlockSize at hj
  rw [shift_apply, h.boot_eq hblank (by omega), bootSector,
    memcpy_apply_mem (by omega) (by unfold parameterBlockSize; omega)]
  congr 1
  omega

end Formatted

/-! ## Counting clusters -/

/-- Data clusters of a partition with `T` sectors: 256 for every full group of
`256 * s + 2` sectors behind the first two, and those of the last group. -/
def clustersOf (T s : Nat) : Nat :=
  256 * ((T - 2) / (256 * s + 2)) + ((T - 2) % (256 * s + 2) + (s - 1)) / s - 1

/-- The table size is one sector for each started group. -/
lemma formatFATSz_eq {T s : Nat} (hT : 2 ≤ T) (hs : s < 256)
    (hq : (T - 2) / (256 * s + 2) < 65535) :
    formatFATSz s T = (T - 2) / (256 * s + 2) + 1 := by
  have hmod := Nat.mod_lt (T - 2) (show 0 < 256 * s + 2 by omega)
  have hdiv := Nat.div_add_mod (T - 2) (256 * s + 2)
  have hmul : (256 * s + 2) * ((T - 2) / (256 * s + 2)) ≤ (256 * s + 2) * 65534 :=
    Nat.mul_le_mul_left _ (by omega)
  have hsum : ((T + 2 ^ 32 - 1) % 2 ^ 32 + (256 * s + 2 - 1)) % 2 ^ 32 =
      (T - 2) + (256 * s + 2) := by omega
  unfold formatFATSz RES_SECTORS NUM_FATS
  dsimp only
  rw [hsum]
  exact Nat.add_div_right _ (by omega)

/-- What is left behind the tables, counted in clusters. -/
theorem clusters_eq {T s : Nat} (hT : 3 ≤ T) (hs : 0 < s) :
    (T - 1 - 2 * ((T - 2) / (256 * s + 2) + 1)) / s = clustersOf T s := by
  obtain ⟨q, hq⟩ : ∃ q, q = (T - 2) / (256 * s + 2) := ⟨_, rfl⟩
  obtain ⟨r, hr⟩ : ∃ r, r = (T - 2) % (256 * s + 2) := ⟨_, rfl⟩
  have hdiv : (256 * s + 2) * q + r = T - 2 := by
    rw [hq, hr]
    exact Nat.div_add_mod _ _
  have hsplit : (256 * s + 2) * q = s * (256 * q) + 2 * q := by ring
  rw [clustersOf, ← hq, ← hr]
  rcases Nat.eq_zero_or_pos r with hzero | hpos
  · -- The last group is empty, so the group before it is full.
    have hqpos : 0 < q := by
      rcases Nat.eq_zero_or_pos q with hq0 | hq0
      · subst hq0
        omega
      · exact hq0
    have hleft : T - 1 - 2 * (q + 1) = (s - 1) + s * (256 * q - 1) := by
      have hmul : s * (256 * q) = s * (256 * q - 1) + s := by
        rw [← Nat.mul_succ, Nat.succ_eq_add_one]
        congr 1
        omega
      omega
    rw [hleft, Nat.add_mul_div_left _ _ hs, hzero, Nat.zero_add,
      Nat.div_eq_of_lt (show s - 1 < s by omega)]
    omega
  · have hleft : T - 1 - 2 * (q + 1) = (r - 1) + s * (256 * q) := by omega
    have hceil : r + (s - 1) = (r - 1) + s := by omega
    rw [hleft, Nat.add_mul_div_left _ _ hs, hceil, Nat.add_div_right _ hs, Nat.add_comm,
      ← Nat.add_assoc, Nat.add_sub_cancel]

/-! ## Which partitions get a good table -/

/-- What a mount should find: a table that holds an entry for every cluster number, cluster
numbers below the special values, data clusters inside the partition, and the short fields
of the parameter block holding their exact values. -/
structure GoodGeometry (bytesPerSector : Nat) (part : FATPartition) (vol : FATVolume) :
    Prop where
  fits : vol.fatSize ≤ vol.pb.fatSz16.toNat * vol.pb.bytsPerSec.toNat / 2
  below : vol.fatSize ≤ FAT_BAD
  inside : ∀ c, 2 ≤ c → c < vol.countOfClusters + 2 → ∀ i < vol.pb.secPerClus.toNat,
    part.first ≤ vol.firstSector + vol.firstDataSector + (c - 2) * vol.pb.secPerClus.toNat + i ∧
    vol.firstSector + vol.firstDataSector + (c - 2) * vol.pb.secPerClus.toNat + i ≤ part.last
  bytsPerSec_eq : vol.pb.bytsPerSec.toNat = bytesPerSector
  secPerClus_eq : vol.pb.secPerClus = part.clusterSectors bytesPerSector
  fatSz16_eq : vol.pb.fatSz16.toNat =
    (part.sectors - 1 + (256 * (part.clusterSectors bytesPerSector).toNat + 2 - 1)) /
      (256 * (part.clusterSectors bytesPerSector).toNat + 2)
  resvdSecCnt_eq : vol.pb.resvdSecCnt.toNat = RES_SECTORS
  numFATs_eq : vol.pb.numFATs.toNat = NUM_FATS
  rootClus_eq : vol.pb.rootClus.toNat = 2

/-- The partitions with a good geometry: large enough to hold a table, not too large for
its 16-bit size, and with room in the last sector of the table. -/
structure GeometryFits (bytesPerSector : Nat) (part : FATPartition) (s : Nat) : Prop where
  three_le : 3 ≤ part.sectors
  no_wrap : part.sectors = 3 → part.last + 2 ≠ 2 ^ 32
  table_lt : (part.sectors - 2) / (256 * s + 2) < 65535
  room : (clustersOf part.sectors s + 2) % 2 ^ 16 ≤
    ((part.sectors - 2) / (256 * s + 2) + 1) * bytesPerSector / 2
  below : (clustersOf part.sectors s + 2) % 2 ^ 16 ≤ FAT_BAD
  order : part.first ≤ part.last ∨ clustersOf part.sectors s % 2 ^ 16 = 0

namespace FATPartition

variable (part : FATPartition) (bytesPerSector : Nat) (env : FormatEnv) (vol : FATVolume)

/-- Sectors behind the tables, in 32-bit arithmetic. -/
def dataSectors : Nat :=
  (part.sectors + 2 ^ 32 - (1 + 2 * part.tableSectors bytesPerSector env)) % 2 ^ 32

@[simp]
lemma block_secPerClus : (part.block bytesPerSector env).secPerClus =
    part.clusterSectors bytesPerSector := rfl

@[simp]
lemma block_rootClus : (part.block bytesPerSector env).rootClus = 2 := rfl

@[simp]
lemma block_resvdSecCnt : (part.block bytesPerSector env).resvdSecCnt.toNat = 1 := rfl

@[simp]
lemma block_numFATs : (part.block bytesPerSector env).numFATs.toNat = 2 := rfl

@[simp]
lemma block_totSec : (part.block bytesPerSector env).totSec.toNat = part.sectors := by
  rw [block, formatBlock]
  exact UInt32.toNat_ofNat_of_lt' part.sectors_lt

lemma block_bytsPerSec (hbps : bytesPerSector < 2 ^ 16) :
    (part.block bytesPerSector env).bytsPerSec.toNat = bytesPerSector := by
  rw [block, formatBlock]
  exact UInt16.toNat_ofNat_of_lt' hbps

lemma layOut_firstDataSector :
    (vol.layOut (part.block bytesPerSector env)).firstDataSector =
      1 + 2 * part.tableSectors bytesPerSector env := by
  simp [FATVolume.layOut, tableSectors]

lemma layOut_countOfClusters :
    (vol.layOut (part.block bytesPerSector env)).countOfClusters =
      part.dataSectors bytesPerSector env / (part.clusterSectors bytesPerSector).toNat %
        2 ^ 16 := by
  simp [FATVolume.layOut, dataSectors, tableSectors]

lemma layOut_fatSize :
    (vol.layOut (part.block bytesPerSector env)).fatSize =
      (part.dataSectors bytesPerSector env / (part.clusterSectors bytesPerSector).toNat + 2) %
        2 ^ 16 := by
  simp [FATVolume.layOut, dataSectors, tableSectors]

end FATPartition

section Decide

variable {part : FATPartition} {bytesPerSector : Nat} (env : FormatEnv) {s q : Nat}
  (hs : s = (part.clusterSectors bytesPerSector).toNat)
  (hq : q = (part.sectors - 2) / (256 * s + 2))

include hq in
/-- The tables take less than the partition. -/
lemma tables_le (hpos : 0 < s) (hthree : 3 ≤ part.sectors) :
    2 * q + 3 ≤ part.sectors ∧ (4 ≤ part.sectors → 2 * q + 4 ≤ part.sectors) := by
  have hdiv := Nat.div_mul_le_self (part.sectors - 2) (256 * s + 2)
  rw [← hq, Nat.mul_add] at hdiv
  have hmul : q * 256 ≤ q * (256 * s) := Nat.mul_le_mul_left _ (by omega)
  omega

include hs hq

/-- The table of a partition that is neither too small nor too large. -/
lemma tableSectors_of_fits (hthree : 3 ≤ part.sectors) (htable : q < 65535) :
    part.tableSectors bytesPerSector env = q + 1 := by
  have hlt := (part.clusterSectors bytesPerSector).toNat_lt
  rw [part.tableSectors_eq, ← hs, formatFATSz_eq (by omega) (by omega) (hq ▸ htable), ← hq]
  omega

/-- The clusters of a partition that is neither too small nor too large. -/
lemma dataSectors_of_fits (hpos : 0 < s) (hthree : 3 ≤ part.sectors) (htable : q < 65535) :
    part.dataSectors bytesPerSector env = part.sectors - 1 - 2 * (q + 1) ∧
      part.dataSectors bytesPerSector env / s = clustersOf part.sectors s := by
  have hlt := part.sectors_lt
  have hle := (tables_le hq hpos hthree).1
  have heq : part.dataSectors bytesPerSector env = part.sectors - 1 - 2 * (q + 1) := by
    rw [FATPartition.dataSectors, tableSectors_of_fits env hs hq hthree htable]
    omega
  refine ⟨heq, ?_⟩
  rw [heq, hq]
  exact clusters_eq hthree hpos

/-- The blank writes reach the boot sector only when three sectors end just before the end
of the address range. -/
lemma blanked_iff_of_fits (hpos : 0 < s) (hthree : 3 ≤ part.sectors) (htable : q < 65535) :
    part.Blanked bytesPerSector env ↔ part.sectors = 3 ∧ part.last + 2 = 2 ^ 32 := by
  have hle := tables_le hq hpos hthree
  have hfirst := part.first_lt
  have hlast := part.last_lt
  have hsectors := part.sectors_eq
  have hthird : part.sectors = 3 → q = 0 := by omega
  unfold FATPartition.Blanked FATPartition.rootSector dataSector RES_SECTORS NUM_FATS
  rw [tableSectors_of_fits env hs hq hthree htable]
  omega

end Decide

/-- The exact size of the table, in the same terms. -/
lemma exact_table {T s : Nat} (hT : 2 ≤ T) :
    (T - 1 + (256 * s + 2 - 1)) / (256 * s + 2) = (T - 2) / (256 * s + 2) + 1 := by
  rw [show T - 1 + (256 * s + 2 - 1) = T - 2 + (256 * s + 2) by omega]
  exact Nat.add_div_right _ (by omega)

/-- A sector count that has wrapped below zero counts all ones. -/
lemma wrapped_clusters {spc : UInt8} (h : IsClusterSize spc) :
    (2 ^ 32 - 1) / spc.toNat % 2 ^ 16 = 65535 := by
  obtain ⟨i, hi, heq⟩ := h
  rw [heq]
  interval_cases i <;> rfl

/-- A partition of less than three sectors has no good geometry. -/
lemma three_le_of_good {part : FATPartition} {bytesPerSector : Nat} {env : FormatEnv}
    (hsize : IsClusterSize (part.clusterSectors bytesPerSector)) {vol : FATVolume}
    (hfirst : vol.firstSector = part.first)
    (h : GoodGeometry bytesPerSector part (vol.layOut (part.block bytesPerSector env))) :
    3 ≤ part.sectors := by
  by_contra hlt
  have hpos := hsize.pos
  have hwrap := wrapped_clusters hsize
  have hfits := h.fits
  have hexact : part.tableSectors bytesPerSector env = _ := h.fatSz16_eq
  have hcount := part.layOut_countOfClusters bytesPerSector env vol
  have htab : (vol.layOut (part.block bytesPerSector env)).pb.fatSz16.toNat =
    part.tableSectors bytesPerSector env := rfl
  rw [htab, part.layOut_fatSize] at hfits
  obtain hT | hT | hT : part.sectors = 0 ∨ part.sectors = 1 ∨ part.sectors = 2 := by omega
  · -- No sector: the table has no room for the one entry the wrapped count leaves.
    have hzero : part.tableSectors bytesPerSector env = 0 := by
      rw [hexact, hT]
      exact Nat.div_eq_of_lt (by omega)
    have hdata : part.dataSectors bytesPerSector env = 2 ^ 32 - 1 := by
      norm_num [FATPartition.dataSectors, hzero, hT]
    rw [hzero, hdata, Nat.zero_mul] at hfits
    omega
  · -- One sector: no table at all.
    have hzero : part.tableSectors bytesPerSector env = 0 := by
      rw [hexact, hT]
      exact Nat.div_eq_of_lt (by omega)
    have hdata : part.dataSectors bytesPerSector env = 0 := by
      norm_num [FATPartition.dataSectors, hzero, hT]
    rw [hzero, hdata, Nat.zero_mul, Nat.zero_div] at hfits
    omega
  · -- Two sectors: the tables alone are larger, and the count has wrapped.
    have hone : part.tableSectors bytesPerSector env = 1 := by
      rw [hexact, hT, exact_table le_rfl, Nat.sub_self, Nat.zero_div]
    have hdata : part.dataSectors bytesPerSector env = 2 ^ 32 - 1 := by
      norm_num [FATPartition.dataSectors, hone, hT]
    rw [hdata, hwrap] at hcount
    have hin := h.inside 2 le_rfl (by omega) 0 (by rw [h.secPerClus_eq]; exact hpos)
    have hsec : (vol.layOut (part.block bytesPerSector env)).firstSector = part.first := hfirst
    rw [hsec, part.layOut_firstDataSector, hone] at hin
    have hsectors := part.sectors_eq
    have hlast := part.last_lt
    omega

/-- The geometry of a volume whose boot sector is intact. -/
lemma goodGeometry_iff {part : FATPartition} {bytesPerSector : Nat} {env : FormatEnv}
    (hbps : bytesPerSector < 2 ^ 16) (hsize : IsClusterSize (part.clusterSectors bytesPerSector))
    (hblank : ¬part.Blanked bytesPerSector env) {vol : FATVolume}
    (hfirst : vol.firstSector = part.first) :
    GoodGeometry bytesPerSector part (vol.layOut (part.block bytesPerSector env)) ↔
      GeometryFits bytesPerSector part (part.clusterSectors bytesPerSector).toNat := by
  obtain ⟨s, hs⟩ : ∃ s, s = (part.clusterSectors bytesPerSector).toNat := ⟨_, rfl⟩
  obtain ⟨q, hq⟩ : ∃ q, q = (part.sectors - 2) / (256 * s + 2) := ⟨_, rfl⟩
  have hpos : 0 < s := hs ▸ hsize.pos
  have hpb : (vol.layOut (part.block bytesPerSector env)).pb = part.block bytesPerSector env := rfl
  have hsec : (vol.layOut (part.block bytesPerSector env)).firstSector = part.first := hfirst
  have hbyts := part.block_bytsPerSec bytesPerSector env hbps
  have htab : (part.block bytesPerSector env).fatSz16.toNat =
    part.tableSectors bytesPerSector env := rfl
  have hdata := part.layOut_firstDataSector bytesPerSector env vol
  have hcount := part.layOut_countOfClusters bytesPerSector env vol
  have hfat := part.layOut_fatSize bytesPerSector env vol
  have hsectors := part.sectors_eq
  have hlast := part.last_lt
  rw [← hs] at hcount hfat ⊢
  constructor
  · intro h
    have hfits := h.fits
    have hexact := h.fatSz16_eq
    rw [hpb, htab, hbyts, hfat] at hfits
    rw [hpb, htab, ← hs] at hexact
    have hlt := part.tableSectors_lt bytesPerSector env
    have hthree := three_le_of_good hsize hfirst h
    rw [exact_table (by omega), ← hq] at hexact
    have htable : q < 65535 := by omega
    obtain ⟨-, hC⟩ := dataSectors_of_fits env hs hq hpos hthree htable
    have hbelow := h.below
    rw [hfat, hC] at hbelow
    rw [hC, hexact] at hfits
    rw [hC] at hcount
    refine ⟨hthree, fun h3 hwrap => ?_, hq ▸ htable, hq ▸ hfits, hbelow, ?_⟩
    · exact hblank ((blanked_iff_of_fits env hs hq hpos hthree htable).mpr ⟨h3, hwrap⟩)
    · by_contra hno
      rw [not_or] at hno
      have hin := h.inside 2 le_rfl (by omega) 0 (by rw [h.secPerClus_eq, ← hs]; exact hpos)
      omega
  · intro h
    have htable : q < 65535 := hq ▸ h.table_lt
    obtain ⟨hD, hC⟩ := dataSectors_of_fits env hs hq hpos h.three_le htable
    have hF := tableSectors_of_fits env hs hq h.three_le htable
    rw [hC] at hcount hfat
    constructor
    case fits =>
      rw [hpb, htab, hF, hbyts, hfat, hq]
      exact h.room
    case below =>
      rw [hfat]
      exact h.below
    case inside =>
      intro c hc hlt i hi
      rw [hpb, part.block_secPerClus, ← hs] at hi ⊢
      rw [hsec, hdata, hF]
      have hclus : (c - 2 + 1) * s ≤ clustersOf part.sectors s * s :=
        Nat.mul_le_mul_right _ (by omega)
      have hle : clustersOf part.sectors s * s ≤ part.sectors - 1 - 2 * (q + 1) := by
        rw [← hC, ← hD]
        exact Nat.div_mul_le_self _ _
      have htab := (tables_le hq hpos h.three_le).1
      have horder : part.first ≤ part.last := by
        rcases h.order with horder | hnone
        · exact horder
        · omega
      rw [Nat.succ_mul] at hclus
      omega
    case bytsPerSec_eq => exact hbyts
    case secPerClus_eq => rfl
    case fatSz16_eq =>
      have hthree := h.three_le
      rw [hpb, htab, hF, ← hs, hq, exact_table (by omega)]
    case resvdSecCnt_eq => rfl
    case numFATs_eq => rfl
    case rootClus_eq => rfl

/-- The volume an accepted format leaves has a good geometry exactly when the partition is
large enough for a table, small enough for its 16-bit size, and leaves room in the last
sector of the table for the two reserved entries. -/
theorem fatFormat_geometry_iff {d d' : Disk} {part part' : FATPartition} {env : FormatEnv}
    (hbps : d.bytesPerSector < 2 ^ 16) (h : fatFormat d part env = some (part', d', 0))
    (vol : FATVolume) :
    GoodGeometry d.bytesPerSector part (mountLayout d' part.first vol) ↔
      GeometryFits d.bytesPerSector part (part.clusterSectors d.bytesPerSector).toNat := by
  obtain ⟨hform, -⟩ := fatFormat_accepts.mp h
  by_cases hblank : part.Blanked d.bytesPerSector env
  · have hpos := hform.size.pos
    constructor
    · intro hgood
      have hsize := hform.entry_le
      unfold entrySize at hsize
      have hzero : (mountLayout d' part.first vol).pb.secPerClus = 0 := by
        change shift _ _ _ = _
        rw [shift_apply, hform.bytesPerSector_eq]
        exact hform.boot_blanked hblank (by omega)
      rw [← hgood.secPerClus_eq, hzero] at hpos
      exact absurd hpos (by decide)
    · intro hfits
      obtain ⟨h3, hwrap⟩ := (blanked_iff_of_fits env rfl rfl hpos hfits.three_le
        hfits.table_lt).mp hblank
      exact absurd hwrap (hfits.no_wrap h3)
  · rw [mountLayout, hform.decode_boot hblank]
    exact goodGeometry_iff hbps hform.size hblank rfl

/-- A blank media of 512-byte sectors without faults. -/
def blankDisk (numOfSectors : Nat) : Disk := ⟨512, numOfSectors, blank, fun _ _ _ => false⟩

/-- A partition from the first sector on with clusters of one sector and a blank label. -/
def plainPartition (endsector : UInt32) : FATPartition :=
  ⟨0, endsector, 1, Vector.replicate 16 0x20⟩

/-- The label holds blanks only. -/
lemma plainPartition_label (endsector : UInt32) :
    ∀ c ∈ (plainPartition endsector).label.toList, check c = false := by
  intro c hc
  obtain rfl : c = 0x20 := by simpa [plainPartition] using hc
  rfl

/-- The surroundings of the formats below. -/
def plainEnv : FormatEnv := ⟨⟨0, 0, 0, 1, 0, 100⟩, 0, 0⟩

/-- Formatting eight sectors. -/
lemma formatted_eight : Formatted (blankDisk 8) (plainPartition 7) plainEnv
    ((blankDisk 8).withSectors ((plainPartition 7).writes 512 plainEnv)) :=
  ⟨plainPartition_label _, ⟨0, by decide, by decide⟩, by decide, by decide +kernel, rfl⟩

/-- Eight sectors get a good geometry: one table sector, five clusters. -/
theorem fatFormat_geometry_eight :
    ∃ part' d', fatFormat (blankDisk 8) (plainPartition 7) plainEnv = some (part', d', 0) ∧
      ∀ vol, GoodGeometry 512 (plainPartition 7) (mountLayout d' 0 vol) := by
  have hfits : GeometryFits 512 (plainPartition 7) 1 :=
    ⟨by decide, by decide, by decide, by decide, by decide, by decide⟩
  have haccept := fatFormat_accepts.mpr ⟨formatted_eight, rfl⟩
  exact ⟨_, _, haccept, fun vol => (fatFormat_geometry_iff (by decide) haccept vol).mpr hfits⟩

/-- Formatting 258 sectors succeeds and leaves 257 cluster numbers for the 256 entries of
the one table sector. -/
theorem fatFormat_geometry_258 :
    ∃ part' d', fatFormat (blankDisk 258) (plainPartition 257) plainEnv = some (part', d', 0) ∧
      ∀ vol, (mountLayout d' 0 vol).fatSize = 257 ∧
        (mountLayout d' 0 vol).pb.fatSz16.toNat * (mountLayout d' 0 vol).pb.bytsPerSec.toNat / 2 =
          256 ∧
        ¬GoodGeometry 512 (plainPartition 257) (mountLayout d' 0 vol) := by
  have hform : Formatted (blankDisk 258) (plainPartition 257) plainEnv
      ((blankDisk 258).withSectors ((plainPartition 257).writes 512 plainEnv)) :=
    ⟨plainPartition_label _, ⟨0, by decide, by decide⟩, by decide, by decide +kernel, rfl⟩
  refine ⟨_, _, fatFormat_accepts.mpr ⟨hform, rfl⟩, fun vol => ?_⟩
  have hlayout := hform.decode_boot (by unfold FATPartition.Blanked; decide)
  have hsize : (mountLayout ((blankDisk 258).withSectors
      ((plainPartition 257).writes 512 plainEnv)) 0 vol).fatSize = 257 := by
    rw [mountLayout, show (0 : Nat) = (plainPartition 257).first from rfl, hlayout,
      FATPartition.layOut_fatSize]
    decide
  have hentries : (mountLayout ((blankDisk 258).withSectors
      ((plainPartition 257).writes 512 plainEnv)) 0 vol).pb.fatSz16.toNat *
      (mountLayout ((blankDisk 258).withSectors
        ((plainPartition 257).writes 512 plainEnv)) 0 vol).pb.bytsPerSec.toNat / 2 = 256 := by
    rw [mountLayout, show (0 : Nat) = (plainPartition 257).first from rfl, hlayout]
    change ((plainPartition 257).block 512 plainEnv).fatSz16.toNat *
      ((plainPartition 257).block 512 plainEnv).bytsPerSec.toNat / 2 = 256
    decide
  refine ⟨hsize, hentries, fun hgood => ?_⟩
  have hfits := hgood.fits
  rw [hsize, hentries] at hfits
  omega

end DiegOS.Fat
