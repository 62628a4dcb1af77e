import DiegOS.Fat.Operations
import DiegOS.Fat.View

/-!
# Formatting and mounting

`FAT_format` chooses the cluster size, fills the parameter block and writes
the partition sector by sector: the boot sector, the copies of the cluster
table, the first sector of the root directory and blank sectors up to the end.
`FAT_mount` reads the parameter block back, derives the layout from it and
loads the first copy of the table.

Main results:

- Theorem `Disk.writeSectors_iff`: a sequence of sector writes succeeds
  exactly when the media serves each of them.
- Theorem `fatFormat_accepts`: what an accepted format has checked and
  written.
- Lemma `secperclusLoop_spec`: the computed cluster size is a power of two that addresses the
  whole partition.
-/

namespace DiegOS.Fat

open Lib

/-! ## Sector writes -/

namespace Disk

/-- Write single sectors until one write fails. -/
def writeSectors : Disk → List (Nat × Bytes) → Disk × Int
  | d, [] => (d, 0)
  | d, w :: ws =>
    match d.write w.1 1 w.2 with
    | none => (d, -1)
    | some d => d.writeSectors ws

/-- The media with whole sectors replaced. -/
def withSectors (d : Disk) (ws : List (Nat × Bytes)) : Disk :=
  { d with data := writeBlocks d.bytesPerSector d.data ws }

/-- The device takes a write of one sector. -/
def Takes (d : Disk) (sec : Nat) : Prop :=
  d.accepts sec 1 = true ∧ d.fault .write sec 1 = false

instance (d : Disk) (sec : Nat) : Decidable (d.Takes sec) := inferInstanceAs (Decidable (_ ∧ _))

lemma write_of_takes {d : Disk} {sec : Nat} (h : d.Takes sec) (buf : Bytes) :
    d.write sec 1 buf = some { d with
      data := memcpy d.data (sec * d.bytesPerSector) buf 0 d.bytesPerSector } := by
  simp [write, h.1, h.2]

lemma takes_of_write {d d' : Disk} {sec : Nat} {buf : Bytes}
    (h : d.write sec 1 buf = some d') : d.Takes sec := by
  unfold write at h
  split at h <;> rename_i hif
  · simpa [Takes] using hif
  · contradiction

/-- A sequence of sector writes succeeds exactly when the device takes each of them. -/
theorem writeSectors_iff (d : Disk) (ws : List (Nat × Bytes)) :
    (d.writeSectors ws).2 = 0 ↔ ∀ w ∈ ws, d.Takes w.1 := by
  induction ws generalizing d with
  | nil => simp [writeSectors]
  | cons w ws ih =>
    by_cases htake : d.Takes w.1
    · rw [writeSectors, write_of_takes htake]
      simp only [ih, List.forall_mem_cons]
      exact ⟨fun h => ⟨htake, h⟩, fun h => h.2⟩
    · have hnone : d.write w.1 1 w.2 = none := by
        cases hw : d.write w.1 1 w.2 with
        | none => rfl
        | some d' => exact absurd (takes_of_write hw) htake
      rw [writeSectors, hnone]
      simp [htake]

/-- What a successful sequence of sector writes leaves on the media. -/
lemma writeSectors_eq {d : Disk} {ws : List (Nat × Bytes)} (h : ∀ w ∈ ws, d.Takes w.1) :
    d.writeSectors ws = (d.withSectors ws, 0) := by
  induction ws generalizing d with
  | nil => rfl
  | cons w ws ih =>
    rw [writeSectors, write_of_takes (h w (.head _))]
    exact ih fun v hv => h v (.tail _ hv)

@[simp]
lemma withSectors_bytesPerSector (d : Disk) (ws : List (Nat × Bytes)) :
    (d.withSectors ws).bytesPerSector = d.bytesPerSector := rfl

@[simp]
lemma withSectors_numOfSectors (d : Disk) (ws : List (Nat × Bytes)) :
    (d.withSectors ws).numOfSectors = d.numOfSectors := rfl

lemma withSectors_faultless {d : Disk} (h : d.Faultless) (ws : List (Nat × Bytes)) :
    (d.withSectors ws).Faultless := h

lemma withSectors_read (d : Disk) (ws : List (Nat × Bytes)) (sec numsec : Nat) :
    (d.withSectors ws).read sec numsec =
      if d.accepts sec numsec && !d.fault .read sec numsec then
        some (shift (d.withSectors ws).data (sec * d.bytesPerSector))
      else none := rfl

end Disk

/-! ## Formatting -/

/-- `struct FATPartition`. -/
structure FATPartition where
  startsector : UInt32
  endsector : UInt32
  secpercluster : UInt8
  label : Vector UInt8 16
deriving DecidableEq

/-- What a format sees of its surroundings: the broken-down time, the time in seconds, and
the flag word of the parameter block, which is never set. -/
structure FormatEnv where
  now : Tm
  time : UInt32
  flags : UInt32

def MAX_CLUSTERS : Nat := 65524
def RES_SECTORS : Nat := 1
def NUM_FATS : Nat := 2
def MAX_CLUS_SIZE : Nat := 32768

/-- The loop of `compute_secperclus`.  An 8-bit word is zero after eight doublings of
one, so nine passes are enough. -/
def secperclusLoop (bytesPerSector sectors : Nat) : Nat → UInt8 → UInt8
  | 0, retval => retval
  | fuel + 1, retval =>
    if retval ≠ 0 ∧ MAX_CLUSTERS * retval.toNat < sectors then
      let retval := retval + retval
      if MAX_CLUS_SIZE < retval.toNat * bytesPerSector then 0
      else secperclusLoop bytesPerSector sectors fuel retval
    else retval

def computeSecperclus (bytesPerSector sectors : Nat) : UInt8 :=
  secperclusLoop bytesPerSector ((sectors + 2 ^ 32 - RES_SECTORS) % 2 ^ 32) 9 1

/-- A cluster has a power of two of sectors, at most 128. -/
def IsClusterSize (spc : UInt8) : Prop := ∃ i < 8, spc.toNat = 2 ^ i

lemma IsClusterSize.pos {spc : UInt8} (h : IsClusterSize spc) : 0 < spc.toNat := by
  obtain ⟨i, -, hi⟩ := h
  rw [hi]
  exact Nat.two_pow_pos i

/-- Doubling a cluster size gives the next one, or zero behind the last. -/
lemma double_clusterSize {retval : UInt8} {i : Nat} (h : retval.toNat = 2 ^ i) (hi : i < 8) :
    (i = 7 ∧ retval + retval = 0) ∨ (i < 7 ∧ (retval + retval).toNat = 2 ^ (i + 1)) := by
  rcases Nat.lt_or_ge i 7 with hlt | hge
  · right
    have hle : 2 ^ i ≤ 2 ^ 6 := Nat.pow_le_pow_right (by omega) (by omega)
    refine ⟨hlt, ?_⟩
    rw [UInt8.toNat_add, h, pow_succ]
    omega
  · left
    obtain rfl : i = 7 := by omega
    refine ⟨rfl, UInt8.toNat_inj.mp ?_⟩
    rw [UInt8.toNat_add, h]
    rfl

/-- The loop ends with a cluster size that addresses all sectors, or with zero. -/
lemma secperclusLoop_spec {bytesPerSector sectors fuel i : Nat} {retval : UInt8}
    (hret : retval.toNat = 2 ^ i) (hi : i < 8) (hfuel : 9 ≤ fuel + i) :
    secperclusLoop bytesPerSector sectors fuel retval = 0 ∨
    (IsClusterSize (secperclusLoop bytesPerSector sectors fuel retval) ∧
      sectors ≤ MAX_CLUSTERS * (secperclusLoop bytesPerSector sectors fuel retval).toNat) := by
  induction fuel generalizing retval i with
  | zero => omega
  | succ fuel ih =>
    rw [secperclusLoop]
    split <;> rename_i hloop
    · dsimp only
      split
      · exact .inl rfl
      · rcases double_clusterSize hret hi with ⟨rfl, hzero⟩ | ⟨hlt, hdouble⟩
        · -- The word has overflowed, and the next test ends the loop.
          left
          rw [hzero]
          cases fuel <;> rfl
        · exact ih hdouble (by omega) (by omega)
    · right
      have hne : retval ≠ 0 := by
        rintro rfl
        have hpos := Nat.two_pow_pos i
        rw [← hret] at hpos
        exact absurd hpos (by decide)
      refine ⟨⟨i, hi, hret⟩, ?_⟩
      simp only [ne_eq, hne, not_false_eq_true, true_and, not_lt] at hloop
      exact hloop

namespace FATPartition

/-- The number of sectors, in 32-bit arithmetic. -/
def sectors (part : FATPartition) : Nat := (part.endsector - part.startsector + 1).toNat

/-- The first sector. -/
def first (part : FATPartition) : Nat := part.startsector.toNat

/-- The last sector. -/
def last (part : FATPartition) : Nat := part.endsector.toNat

/-- Sectors per cluster the format settles on: computed when the partition asks for it, and
otherwise a power of two that keeps clusters small.  Zero means that it refuses. -/
def clusterSectors (part : FATPartition) (bytesPerSector : Nat) : UInt8 :=
  if part.secpercluster = 0 then computeSecperclus bytesPerSector part.sectors
  else if (List.range 8).any (fun i => part.secpercluster.toNat == 2 ^ i) &&
      decide (part.secpercluster.toNat * bytesPerSector ≤ MAX_CLUS_SIZE) then part.secpercluster
  else 0

end FATPartition

/-- `FATSz`: the sectors of one copy of the cluster table, in 32-bit arithmetic. -/
def formatFATSz (spc sectors : Nat) : Nat :=
  let TmpVal1 := (sectors + 2 ^ 32 - RES_SECTORS) % 2 ^ 32
  let TmpVal2 := 256 * spc + NUM_FATS
  (TmpVal1 + (TmpVal2 - 1)) % 2 ^ 32 / TmpVal2

/-- The parameter block of a new volume; its label has no zero byte, so all of it is
copied. -/
def formatBlock (bytesPerSector : Nat) (part : FATPartition) (env : FormatEnv) :
    ParameterBlock where
  oemName := #v[0x44, 0x69, 0x65, 0x67, 0x4F, 0x53, 0x20, 0x20]
  bytsPerSec := UInt16.ofNat bytesPerSector
  secPerClus := part.secpercluster
  numFATs := UInt8.ofNat NUM_FATS
  resvdSecCnt := UInt16.ofNat RES_SECTORS
  fatSz16 := UInt16.ofNat (formatFATSz part.secpercluster.toNat part.sectors)
  hiddSec := 0
  totSec := UInt32.ofNat part.sectors
  volID := env.time
  flags := env.flags
  volLab := part.label
  filSysType := #v[0x46, 0x41, 0x54, 0x31, 0x36, 0x2E, 0x31, 0x20]
  rootClus := 2

/-- A blank sector. -/
def blank : Bytes := fun _ => 0

/-- The boot sector. -/
def bootSector (pb : ParameterBlock) : Bytes := memcpy blank 0 pb.encode 0 parameterBlockSize

/-- The first sector of a cluster table: the two reserved entries and the end of the root's
chain. -/
def tableHead : Bytes := ofList [0x00, 0xFF, 0xFF, 0xFF, 0xFF, 0xFF]

/-- The name of the volume identifier: the label, padded with blanks. -/
def volumeName (label : Vector UInt8 16) : DirName :=
  Vector.ofFn fun i : Fin 39 => label.toList.getD i 0x20

/-- The volume identifier, first entry of the root directory. -/
def volumeEntry (label : Vector UInt8 16) (now : Tm) : DirEntry :=
  newEntry (volumeName label) ATTR_VOLUME_ID 0 now

/-- The first sector of the root directory. -/
def rootHead (label : Vector UInt8 16) (now : Tm) : Bytes :=
  memcpy blank 0 (volumeEntry label now).encode 0 entrySize

/-- One copy of the cluster table from sector `k` on.  The first sector is written
even when the table has none. -/
def tableWrites (k fatSz16 : Nat) : List (Nat × Bytes) :=
  (k % 2 ^ 32, tableHead) ::
    (List.range' 1 (fatSz16 - 1)).map fun i => ((k + i) % 2 ^ 32, blank)

/-- First sector of the data region, in 32-bit arithmetic. -/
def dataSector (first fatSz16 : Nat) : Nat := (first + RES_SECTORS + NUM_FATS * fatSz16) % 2 ^ 32

/-- The blank sectors from `k` to the end of the partition; the bound is one more than
the last sector, in 32-bit arithmetic. -/
def blankWrites (k last : Nat) : List (Nat × Bytes) :=
  (List.range' k ((last + 1) % 2 ^ 32 - k)).map fun sec => (sec, blank)

/-- The sectors a format writes, in order. -/
def formatWrites (part : FATPartition) (pb : ParameterBlock) (now : Tm) : List (Nat × Bytes) :=
  let data := dataSector part.first pb.fatSz16.toNat
  (part.first, bootSector pb) ::
    (List.range' 1 (RES_SECTORS - 1)).map (fun i => ((part.first + i) % 2 ^ 32, blank)) ++
    (List.range NUM_FATS).flatMap (fun j =>
      tableWrites (part.first + RES_SECTORS + j * pb.fatSz16.toNat) pb.fatSz16.toNat) ++
    (data, rootHead part.label now) :: blankWrites ((data + 1) % 2 ^ 32) part.last

/-- `FAT_format`: the partition with the cluster size filled in, the media and the
return value.  A media whose sectors cannot hold an entry makes the format write behind its
buffer, which has no result. -/
def fatFormat (ctx : Disk) (part : FATPartition) (env : FormatEnv) :
    Option (FATPartition × Disk × Int) :=
  if part.label.toList.any check then some (part, ctx, -1)
  else
    let spc := part.clusterSectors ctx.bytesPerSector
    if spc = 0 then some (part, ctx, -1)
    else if ctx.bytesPerSector < entrySize then none
    else
      let part := { part with secpercluster := spc }
      let pb := formatBlock ctx.bytesPerSector part env
      some (part, ctx.writeSectors (formatWrites part pb env.now))

/-- The partition with the cluster size filled in. -/
def FATPartition.prepared (part : FATPartition) (bytesPerSector : Nat) : FATPartition :=
  { part with secpercluster := part.clusterSectors bytesPerSector }

/-- The parameter block a format writes on a media. -/
def FATPartition.block (part : FATPartition) (bytesPerSector : Nat) (env : FormatEnv) :
    ParameterBlock :=
  formatBlock bytesPerSector (part.prepared bytesPerSector) env

/-- The sectors a format writes on a media. -/
def FATPartition.writes (part : FATPartition) (bytesPerSector : Nat) (env : FormatEnv) :
    List (Nat × Bytes) :=
  formatWrites (part.prepared bytesPerSector) (part.block bytesPerSector env) env.now

lemma FATPartition.clusterSectors_size {part : FATPartition} {bytesPerSector : Nat}
    (h : part.clusterSectors bytesPerSector ≠ 0) :
    IsClusterSize (part.clusterSectors bytesPerSector) := by
  unfold clusterSectors at h ⊢
  split <;> rename_i hzero
  · rw [if_pos hzero] at h
    have hspec := @secperclusLoop_spec bytesPerSector
      ((part.sectors + 2 ^ 32 - RES_SECTORS) % 2 ^ 32) 9 0 1 rfl (by omega) (by omega)
    rcases hspec with heq | hspec
    · exact absurd heq h
    · exact hspec.1
  · rw [if_neg hzero] at h
    split <;> rename_i hgood
    · simp only [Bool.and_eq_true, List.any_eq_true, List.mem_range, beq_iff_eq] at hgood
      exact hgood.1
    · rw [if_neg hgood] at h
      exact absurd rfl h

/-- A cluster that is larger than one sector has been checked against the size limit. -/
lemma secperclusLoop_bytes (bytesPerSector sectors fuel : Nat) (retval : UInt8) :
    secperclusLoop bytesPerSector sectors fuel retval = retval ∨
      (secperclusLoop bytesPerSector sectors fuel retval).toNat * bytesPerSector ≤
        MAX_CLUS_SIZE := by
  induction fuel generalizing retval with
  | zero => exact .inl rfl
  | succ fuel ih =>
    rw [secperclusLoop]
    split
    · dsimp only
      split <;> rename_i hlarge
      · right
        rw [show UInt8.toNat 0 = 0 from rfl, Nat.zero_mul]
        exact Nat.zero_le _
      · rcases ih (retval + retval) with heq | hle
        · right
          rw [heq]
          omega
        · exact .inr hle
    · exact .inl rfl

/-- The bytes of a cluster are a 16-bit number. -/
lemma FATPartition.clusterSectors_bytes (part : FATPartition) {bytesPerSector : Nat}
    (hbps : bytesPerSector < 2 ^ 16) :
    bytesPerSector * (part.clusterSectors bytesPerSector).toNat < 2 ^ 16 := by
  rw [Nat.mul_comm]
  unfold clusterSectors
  split
  · rcases secperclusLoop_bytes bytesPerSector
      ((part.sectors + 2 ^ 32 - RES_SECTORS) % 2 ^ 32) 9 1 with heq | hle
    · rw [computeSecperclus, heq, show UInt8.toNat 1 = 1 from rfl, Nat.one_mul]
      exact hbps
    · unfold MAX_CLUS_SIZE at hle
      rw [computeSecperclus]
      omega
  · split <;> rename_i hgood
    · simp only [Bool.and_eq_true, decide_eq_true_eq] at hgood
      have hle := hgood.2
      unfold MAX_CLUS_SIZE at hle
      omega
    · rw [show UInt8.toNat 0 = 0 from rfl, Nat.zero_mul]
      omega

/-- What a format has checked and written when it succeeds. -/
structure Formatted (d : Disk) (part : FATPartition) (env : FormatEnv) (d' : Disk) : Prop where
  label : ∀ c ∈ part.label.toList, check c = false
  size : IsClusterSize (part.clusterSectors d.bytesPerSector)
  entry_le : entrySize ≤ d.bytesPerSector
  takes : ∀ w ∈ part.writes d.bytesPerSector env, d.Takes w.1
  disk_eq : d' = d.withSectors (part.writes d.bytesPerSector env)

/-- A format succeeds exactly when its checks pass and the media takes all its writes. -/
theorem fatFormat_accepts {d d' : Disk} {part part' : FATPartition} {env : FormatEnv} :
    fatFormat d part env = some (part', d', 0) ↔
      Formatted d part env d' ∧ part' = part.prepared d.bytesPerSector := by
  constructor
  · intro h
    unfold fatFormat at h
    split at h <;> rename_i hlabel
    · simp at h
    rw [Bool.not_eq_true] at hlabel
    dsimp only at h
    split at h <;> rename_i hspc
    · simp at h
    split at h <;> rename_i hentry
    · contradiction
    rw [Option.some.injEq, Prod.mk.injEq] at h
    obtain ⟨rfl, hwrite⟩ := h
    have htakes := (Disk.writeSectors_iff d (part.writes d.bytesPerSector env)).mp
      (congrArg Prod.snd hwrite)
    have heq := (Disk.writeSectors_eq htakes).symm.trans hwrite
    exact ⟨⟨fun c hc => Bool.eq_false_iff.mpr (List.any_eq_false.mp hlabel c hc),
      part.clusterSectors_size hspc, Nat.le_of_not_lt hentry, htakes,
      (congrArg Prod.fst heq).symm⟩, rfl⟩
  · rintro ⟨⟨hlabel, hsize, hentry, htakes, rfl⟩, rfl⟩
    have hspc : part.clusterSectors d.bytesPerSector ≠ 0 := by
      intro hzero
      have hpos := hsize.pos
      rw [hzero] at hpos
      exact absurd hpos (by decide)
    unfold fatFormat
    rw [if_neg fun hany => ?_]
    rw [if_neg hspc, if_neg (Nat.not_lt.mpr hentry)]
    · exact congrArg (fun r => some (part.prepared d.bytesPerSector, r))
        (Disk.writeSectors_eq htakes)
    · obtain ⟨c, hc, hcheck⟩ := List.any_eq_true.mp hany
      rw [hlabel c hc] at hcheck
      contradiction

/-! ## Mounting -/

namespace FATVolume

/-- The layout `FAT_mount` derives from a parameter block, with the widths of the
fields it fills. -/
def layOut (vol : FATVolume) (bpb : ParameterBlock) : FATVolume :=
  let firstData := bpb.resvdSecCnt.toNat + bpb.numFATs.toNat * bpb.fatSz16.toNat
  let dataSectors := (bpb.totSec.toNat + 2 ^ 32 - firstData) % 2 ^ 32
  let countOfClusters := dataSectors / bpb.secPerClus.toNat % 2 ^ 16
  { vol with
    pb := bpb
    firstDataSector := firstData
    dataSectors := dataSectors
    countOfClusters := countOfClusters
    fatSize := (countOfClusters + 2) % 2 ^ 16
    fatEntriesPerSec := bpb.bytsPerSec.toNat / entrySize
    bytesPerCluster := bpb.bytsPerSec.toNat * bpb.secPerClus.toNat % 2 ^ 16 }

/-- The state a failed load of the table leaves behind. -/
def cleared (vol : FATVolume) : FATVolume :=
  { vol with
    pb := .decode blank
    firstDataSector := 0
    dataSectors := 0
    countOfClusters := 0
    fatSize := 0
    fatEntriesPerSec := 0 }

/-- The table loaded over the memory it was given. -/
def loadTable (vol : FATVolume) (heap table : Bytes) : FATVolume :=
  let bytes := memcpy heap 0 table 0 (vol.pb.fatSz16.toNat * vol.ctx.bytesPerSector)
  { vol with
    fat := fun c => UInt16.ofNat (le16 bytes (2 * c))
    flags := vol.flags ||| FLAG_MOUNTED
    lastFreeFATEntry := 2 }

end FATVolume

/-- `FAT_mount`; `heap` is what the memory of the table held before.  Memory is
never short. -/
def fatMount (ctx : Disk) (firstSecOnDisk : Nat) (vol : FATVolume) (heap : Bytes) :
    FATVolume × Int :=
  if vol.flags &&& FLAG_MOUNTED ≠ 0 then (vol, -1)
  else
    let vol := { vol with ctx := ctx, firstSector := firstSecOnDisk }
    match volRead vol 0 1 with
    | none => (vol, -1)
    | some buffer =>
      let vol := vol.layOut (.decode buffer)
      match volRead vol vol.pb.resvdSecCnt.toNat vol.pb.fatSz16.toNat with
      | none => (vol.cleared, -1)
      | some table => (vol.loadTable heap table, 0)

end DiegOS.Fat
