import DiegOS.Fat.Flat
import DiegOS.Fat.Geometry

/-!
# Fresh volumes

What lies on the media after a format, sector by sector, and what a mount makes
of it: both copies of the table hold the reserved entries and the end of the
root's chain, and the root directory holds the volume identifier in front of
blank slots, provided that the format has reached all of them.

Main results:

- Theorem `FATPartition.mem_writes`: the sectors a format writes.
- Theorem `fatFormat_empty_iff`: exactly which partitions become an empty
  volume inside their bounds.
- Theorem `Fresh.view`: a formatted and mounted volume with a good geometry
  is sound, and its root directory is flat.
-/

namespace DiegOS.Fat

open Lib

/-! ## The sectors of a format -/

/-- The sectors a format writes: the boot sector, two tables, the start of the root
directory, and blank sectors behind it. -/
theorem FATPartition.mem_writes {part : FATPartition} {bytesPerSector : Nat} {env : FormatEnv}
    {w : Nat × Bytes} :
    w ∈ part.writes bytesPerSector env ↔
      w = (part.first, bootSector (part.block bytesPerSector env)) ∨
      (∃ j < 2, ∃ i, (i = 0 ∨ i < part.tableSectors bytesPerSector env) ∧
        w = ((part.first + 1 + j * part.tableSectors bytesPerSector env + i) % 2 ^ 32,
          if i = 0 then tableHead else blank)) ∨
      w = (part.rootSector bytesPerSector env, rootHead part.label env.now) ∨
      ((part.rootSector bytesPerSector env + 1) % 2 ^ 32 ≤ w.1 ∧
        w.1 < (part.last + 1) % 2 ^ 32 ∧ w.2 = blank) := by
  rw [part.writes_eq, List.mem_cons, List.mem_append, List.mem_append, List.mem_cons,
    mem_tableWrites, mem_tableWrites, mem_blankWrites]
  constructor
  · rintro (h | ⟨i, hi, h⟩ | ⟨i, hi, h⟩ | h | h)
    · exact .inl h
    · exact .inr (.inl ⟨0, by omega, i, hi, by rw [h, Nat.zero_mul, Nat.add_zero]⟩)
    · exact .inr (.inl ⟨1, by omega, i, hi, by rw [h, Nat.one_mul]⟩)
    · exact .inr (.inr (.inl h))
    · exact .inr (.inr (.inr h))
  · rintro (h | ⟨j, hj, i, hi, h⟩ | h | h)
    · exact .inl h
    · obtain rfl | rfl : j = 0 ∨ j = 1 := by omega
      · exact .inr (.inl ⟨i, hi, by rw [h, Nat.zero_mul, Nat.add_zero]⟩)
      · exact .inr (.inr (.inl ⟨i, hi, by rw [h, Nat.one_mul]⟩))
    · exact .inr (.inr (.inr (.inl h)))
    · exact .inr (.inr (.inr (.inr h)))

/-- The volume identifier is no directory and has neither clusters nor bytes. -/
lemma volumeEntry_eqs (label : Vector UInt8 16) (now : Tm) :
    (volumeEntry label now).isDir = false ∧ (volumeEntry label now).clus = 0 ∧
      (volumeEntry label now).size = 0 := by
  simp only [volumeEntry, DirEntry.isDir, DirEntry.hasAttr, DirEntry.clus, DirEntry.size,
    newEntry_dirAttr, newEntry_dirFstClus, newEntry_dirFileSize]
  exact ⟨by decide, rfl, rfl⟩

lemma tableHead_zero {b : Nat} (h : 6 ≤ b) : tableHead b = 0 := by
  rw [tableHead, ofList, List.getD_eq_getElem?_getD, List.getElem?_eq_none (by simpa using h)]
  rfl

/-- The first sector of the root directory lies in the partition. -/
structure RootInside (part : FATPartition) (F : Nat) : Prop where
  order : part.first ≤ part.last
  root : 2 * F + 1 ≤ part.last - part.first

/-- A volume as `FAT_mount` leaves it, with the first copy of the table loaded. -/
def freshVolume (d : Disk) (part : FATPartition) (vol : FATVolume) (heap : Bytes) : FATVolume :=
  (mountLayout d part.first vol).loadTable heap
    (shift d.data ((part.first + 1) * d.bytesPerSector))

namespace Formatted

variable {d d' : Disk} {part : FATPartition} {env : FormatEnv} {F : Nat}

lemma data_eq (h : Formatted d part env d') :
    d'.data = writeBlocks d.bytesPerSector d.data (part.writes d.bytesPerSector env) := by
  rw [h.disk_eq]
  rfl

/-- A sector holds what all writes to it agree on. -/
lemma data_of_mem (h : Formatted d part env d') {x t : Nat} {v : UInt8}
    (ht : t < d.bytesPerSector) (hmem : ∃ w ∈ part.writes d.bytesPerSector env, w.1 = x)
    (hall : ∀ w ∈ part.writes d.bytesPerSector env, w.1 = x → w.2 t = v) :
    d'.data (x * d.bytesPerSector + t) = v := by
  rw [h.data_eq]
  exact writeBlocks_apply_mem hmem hall ht

variable (hF : F = part.tableSectors d.bytesPerSector env) (hin : RootInside part F)
include hF hin

lemma rootSector_eq : part.rootSector d.bytesPerSector env = part.first + 1 + 2 * F := by
  obtain ⟨horder, hroot⟩ := hin
  have hlast := part.last_lt
  unfold FATPartition.rootSector dataSector RES_SECTORS NUM_FATS
  rw [← hF]
  omega

lemma not_blanked : ¬part.Blanked d.bytesPerSector env := by
  obtain ⟨horder, hroot⟩ := hin
  have hlast := part.last_lt
  unfold FATPartition.Blanked
  rw [rootSector_eq hF ⟨horder, hroot⟩]
  omega

/-- Both copies of the table hold the reserved entries and the end of the root's chain, and
are free behind them. -/
lemma table_data (h : Formatted d part env d') {j b : Nat} (hj : j < 2)
    (hb : b < F * d.bytesPerSector) :
    d'.data ((part.first + 1 + j * F) * d.bytesPerSector + b) = tableHead b := by
  have hsize := h.entry_le
  unfold entrySize at hsize
  obtain ⟨i, hi⟩ : ∃ i, i = b / d.bytesPerSector := ⟨_, rfl⟩
  obtain ⟨t, ht⟩ : ∃ t, t = b % d.bytesPerSector := ⟨_, rfl⟩
  have hlt : t < d.bytesPerSector := ht ▸ Nat.mod_lt _ (by omega)
  have hiF : i < F := hi ▸ Nat.div_lt_of_lt_mul (by rwa [Nat.mul_comm])
  have hb : b = i * d.bytesPerSector + t := by
    rw [hi, ht, Nat.mul_comm]
    exact (Nat.div_add_mod _ _).symm
  have hroot := rootSector_eq hF hin
  obtain ⟨horder, hinside⟩ := hin
  have hlast := part.last_lt
  have hcopy : ∀ n < 2, n * F = 0 ∧ n = 0 ∨ n * F = F ∧ n = 1 := by
    intro n hn
    obtain rfl | rfl : n = 0 ∨ n = 1 := by omega
    · exact .inl ⟨Nat.zero_mul F, rfl⟩
    · exact .inr ⟨Nat.one_mul F, rfl⟩
  have hjF := hcopy j hj
  rw [hb, ← Nat.add_assoc, ← Nat.add_mul]
  refine h.data_of_mem hlt ⟨_, FATPartition.mem_writes.mpr (.inr (.inl
    ⟨j, hj, i, .inr (hF ▸ hiF), rfl⟩)), ?_⟩ fun w hw hx => ?_
  · rw [← hF]
    omega
  · rcases FATPartition.mem_writes.mp hw with rfl | ⟨n, hn, m, hm, rfl⟩ | rfl | ⟨hlo, hhi, -⟩
    · dsimp only at hx
      omega
    · -- The sector of the table that is meant, in this copy.
      have hnF := hcopy n hn
      rw [← hF] at hx hm
      obtain rfl : m = i := by omega
      dsimp only
      split <;> rename_i hzero
      · rw [hzero, Nat.zero_mul, Nat.zero_add]
      · have hmul : 1 * d.bytesPerSector ≤ m * d.bytesPerSector :=
          Nat.mul_le_mul_right _ (by omega)
        exact (tableHead_zero (by omega)).symm
    · dsimp only at hx
      omega
    · omega

/-- The root directory starts with the volume identifier. -/
lemma root_data (h : Formatted d part env d') (hpos : 0 < F) {t : Nat}
    (ht : t < d.bytesPerSector) :
    d'.data ((part.first + 1 + 2 * F) * d.bytesPerSector + t) = rootHead part.label env.now t := by
  have hroot := rootSector_eq hF hin
  obtain ⟨horder, hinside⟩ := hin
  have hlast := part.last_lt
  refine h.data_of_mem ht ⟨_, FATPartition.mem_writes.mpr (.inr (.inr (.inl rfl))), hroot⟩
    fun w hw hx => ?_
  rcases FATPartition.mem_writes.mp hw with rfl | ⟨n, hn, m, hm, rfl⟩ | rfl | ⟨hlo, hhi, -⟩
  · dsimp only at hx
    omega
  · have hnF : n * F ≤ 1 * F := Nat.mul_le_mul_right _ (by omega)
    rw [← hF] at hx hm
    omega
  · rfl
  · omega

/-- The sectors behind the start of the root directory are blank up to the last one, unless
the bound of the loop has wrapped. -/
lemma blank_data (h : Formatted d part env d') {x t : Nat} (hlo : part.first + 1 + 2 * F < x)
    (hhi : x ≤ part.last) (hwrap : part.last + 1 < 2 ^ 32) (ht : t < d.bytesPerSector) :
    d'.data (x * d.bytesPerSector + t) = 0 := by
  have hroot := rootSector_eq hF hin
  refine h.data_of_mem ht ⟨(x, blank), FATPartition.mem_writes.mpr (.inr (.inr (.inr
    ⟨?_, ?_, rfl⟩))), rfl⟩ fun w hw hx => ?_
  · dsimp only
    omega
  · dsimp only
    omega
  rcases FATPartition.mem_writes.mp hw with rfl | ⟨n, hn, m, hm, rfl⟩ | rfl | ⟨-, -, hblank⟩
  · dsimp only at hx
    omega
  · have hnF : n * F ≤ 1 * F := Nat.mul_le_mul_right _ (by omega)
    rw [← hF] at hx hm
    omega
  · dsimp only at hx
    omega
  · rw [hblank]
    rfl

/-- The sectors behind the last written one keep their bytes. -/
lemma frame_data (h : Formatted d part env d') {x t : Nat} (hlo : part.first + 1 + 2 * F < x)
    (hhi : part.last < x ∨ part.last + 1 = 2 ^ 32) (ht : t < d.bytesPerSector) :
    d'.data (x * d.bytesPerSector + t) = d.data (x * d.bytesPerSector + t) := by
  have hroot := rootSector_eq hF hin
  obtain ⟨horder, hinside⟩ := hin
  have hlast := part.last_lt
  rw [h.data_eq]
  refine writeBlocks_apply_not_mem (fun w hw hx => ?_) ht
  rcases FATPartition.mem_writes.mp hw with rfl | ⟨n, hn, m, hm, rfl⟩ | rfl | ⟨hlo, hhi, -⟩
  · dsimp only at hx
    omega
  · have hnF : n * F ≤ 1 * F := Nat.mul_le_mul_right _ (by omega)
    rw [← hF] at hx hm
    omega
  · dsimp only at hx
    omega
  · omega

omit hF hin in
lemma read_eq (h : Formatted d part env d') (hread : d.Serves .read) (sec numsec : Nat) :
    d'.read sec numsec = if d.accepts sec numsec then
      some (shift d'.data (sec * d.bytesPerSector)) else none := by
  rw [h.disk_eq, Disk.withSectors_read, hread sec numsec, Bool.not_false, Bool.and_true]

omit hF hin in
/-- The mount reads the boot sector the format has written. -/
lemma read_boot (h : Formatted d part env d') (hread : d.Serves .read) :
    d'.read part.first 1 = some (shift d'.data (part.first * d.bytesPerSector)) := by
  have htake := (h.takes _ (FATPartition.mem_writes.mpr (.inl rfl))).1
  rw [h.read_eq hread, htake, if_pos rfl]

/-- The mount reads the first copy of the table, unless it has no sectors. -/
lemma read_table (h : Formatted d part env d') (hread : d.Serves .read) :
    d'.read (part.first + 1) F =
      if 0 < F then some (shift d'.data ((part.first + 1) * d.bytesPerSector)) else none := by
  have htake := (h.takes _ (FATPartition.mem_writes.mpr (.inr (.inr (.inl rfl))))).1
  dsimp only at htake
  rw [rootSector_eq hF hin] at htake
  obtain ⟨horder, hinside⟩ := hin
  have hlast := part.last_lt
  have hnum : part.first + 1 + 2 * F ≤ d.numOfSectors := by
    simp only [Disk.accepts, Bool.not_eq_true', Bool.or_eq_false_iff, decide_eq_false_iff_not]
      at htake
    omega
  have hacc : d.accepts (part.first + 1) F = true ↔ 0 < F := by
    simp only [Disk.accepts, Bool.not_eq_true', Bool.or_eq_false_iff, decide_eq_false_iff_not,
      beq_eq_false_iff_ne]
    omega
  rw [h.read_eq hread]
  simp only [hacc]

/-- What a mount of the new volume gives. -/
lemma mount_eq (h : Formatted d part env d') (hread : d.Serves .read) {vol : FATVolume}
    (hflags : vol.flags &&& FLAG_MOUNTED = 0) (heap : Bytes) :
    fatMount d' part.first vol heap =
      if 0 < F then (freshVolume d' part vol heap, 0)
      else ((mountLayout d' part.first vol).cleared, -1) := by
  have hfirst := part.first_lt
  have hpb : (mountLayout d' part.first vol).pb = part.block d.bytesPerSector env :=
    h.decode_boot (not_blanked hF hin)
  have hboot : volRead { vol with ctx := d', firstSector := part.first } 0 1 =
      some (shift d'.data (part.first * d'.bytesPerSector)) := by
    rw [volRead, Nat.add_zero, Nat.mod_eq_of_lt hfirst, h.bytesPerSector_eq]
    exact h.read_boot hread
  have htable : volRead (mountLayout d' part.first vol)
      (mountLayout d' part.first vol).pb.resvdSecCnt.toNat
      (mountLayout d' part.first vol).pb.fatSz16.toNat = d'.read (part.first + 1) F := by
    have horder := hin.order
    have hinside := hin.root
    have hlast := part.last_lt
    rw [hpb, part.block_resvdSecCnt, hF]
    exact congrArg (fun x => d'.read x _) (Nat.mod_eq_of_lt
      (show part.first + 1 < 2 ^ 32 by omega))
  rw [fatMount, if_neg (by simpa using hflags)]
  dsimp only
  rw [hboot]
  dsimp only
  rw [mountLayout] at htable
  rw [htable, h.read_table hF hin hread]
  by_cases hpos : 0 < F
  · rw [if_pos hpos, if_pos hpos, freshVolume, mountLayout, h.bytesPerSector_eq]
  · rw [if_neg hpos, if_neg hpos, mountLayout]

variable (hbps : d.bytesPerSector < 2 ^ 16) (vol : FATVolume) (heap : Bytes)

omit hF hin in
lemma fresh_ctx : (freshVolume d' part vol heap).ctx = d' := rfl

lemma fresh_pb (h : Formatted d part env d') :
    (freshVolume d' part vol heap).pb = part.block d.bytesPerSector env :=
  h.decode_boot (not_blanked hF hin)

lemma fresh_layout (h : Formatted d part env d') : mountLayout d' part.first vol =
    FATVolume.layOut { vol with ctx := d', firstSector := part.first }
      (part.block d.bytesPerSector env) := by
  rw [mountLayout, h.decode_boot (not_blanked hF hin)]

lemma fresh_firstDataSector (h : Formatted d part env d') :
    (freshVolume d' part vol heap).firstDataSector = 1 + 2 * F := by
  change (mountLayout d' part.first vol).firstDataSector = _
  rw [h.fresh_layout hF hin, part.layOut_firstDataSector, hF]

lemma fresh_fatSize (h : Formatted d part env d') :
    (freshVolume d' part vol heap).fatSize =
      ((part.last - part.first - 2 * F) / (part.clusterSectors d.bytesPerSector).toNat + 2) %
        2 ^ 16 := by
  have hdata : part.dataSectors d.bytesPerSector env = part.last - part.first - 2 * F := by
    have hsectors := part.sectors_eq
    have horder := hin.order
    have hroot := hin.root
    have hlast := part.last_lt
    rw [FATPartition.dataSectors, ← hF]
    omega
  change (mountLayout d' part.first vol).fatSize = _
  rw [h.fresh_layout hF hin, part.layOut_fatSize, hdata]

include hbps in
lemma fresh_items (h : Formatted d part env d') : (freshVolume d' part vol heap).items =
    d.bytesPerSector / entrySize * (part.clusterSectors d.bytesPerSector).toNat := by
  have hentries : (freshVolume d' part vol heap).fatEntriesPerSec =
      (freshVolume d' part vol heap).pb.bytsPerSec.toNat / entrySize := rfl
  rw [FATVolume.items, hentries, h.fresh_pb hF hin, part.block_bytsPerSec _ _ hbps]
  rfl

/-- The root directory is what lies behind the tables. -/
lemma fresh_buffer (h : Formatted d part env d') (t : Nat) :
    (freshVolume d' part vol heap).buffer (freshVolume d' part vol heap).pb.rootClus.toNat t =
      d'.data ((part.first + 1 + 2 * F) * d.bytesPerSector + t) := by
  have hroot : (part.block d.bytesPerSector env).rootClus.toNat = 2 := rfl
  rw [FATVolume.buffer, shift_apply, FATVolume.clusterAddr, h.fresh_pb hF hin, hroot,
    h.fresh_firstDataSector hF hin, Nat.sub_self, Nat.zero_mul, Nat.add_zero, ← Nat.add_assoc,
    fresh_ctx, h.bytesPerSector_eq]
  rfl

/-- A table entry that lies in the loaded bytes. -/
lemma fresh_fat (h : Formatted d part env d') {c : Nat}
    (hc : 2 * c + 1 < F * d.bytesPerSector) :
    (freshVolume d' part vol heap).fat c = UInt16.ofNat (le16 tableHead (2 * c)) := by
  have htable : (freshVolume d' part vol heap).fat c = UInt16.ofNat (le16 (memcpy heap 0
      (shift d'.data ((part.first + 1) * d'.bytesPerSector)) 0
      ((freshVolume d' part vol heap).pb.fatSz16.toNat * d'.bytesPerSector)) (2 * c)) := rfl
  have hsz : (part.block d.bytesPerSector env).fatSz16.toNat = F := hF.symm
  have hbyte : ∀ b < F * d.bytesPerSector, memcpy heap 0
      (shift d'.data ((part.first + 1) * d.bytesPerSector)) 0 (F * d.bytesPerSector) b =
        tableHead b := by
    intro b hb
    rw [memcpy_apply_mem (by omega) (by omega), Nat.zero_add, shift_apply, Nat.sub_zero]
    have hdata := h.table_data hF hin (show 0 < 2 by omega) hb
    rwa [Nat.zero_mul, Nat.add_zero] at hdata
  rw [htable, h.fresh_pb hF hin, hsz, h.bytesPerSector_eq, le16, le16, hbyte _ (by omega),
    hbyte _ hc]

end Formatted

/-! ## Empty volumes -/

/-- Only the reserved entries and the root's cluster are in use, the root directory holds
the volume identifier and nothing else, and both copies of the table agree. -/
structure EmptyVolume (part : FATPartition) (env : FormatEnv) (vol : FATVolume) : Prop where
  table : ∀ c < vol.fatSize, vol.fat c ≠ 0 ↔ c < 2 ∨ c = vol.pb.rootClus.toNat
  label : entryOf (vol.buffer vol.pb.rootClus.toNat) 0 = volumeEntry part.label env.now
  slots : ∀ i, 0 < i → i < vol.items → ¬Live (entryOf (vol.buffer vol.pb.rootClus.toNat) i)
  copies : ∀ b < vol.tableBytes,
    vol.ctx.data (vol.tableAddr 0 + b) = vol.ctx.data (vol.tableAddr 1 + b)

/-- Whatever the media and the memory held before, the format stays inside the partition,
and a mount finds an empty volume. -/
def FormatsEmpty (d : Disk) (part : FATPartition) (env : FormatEnv) : Prop :=
  (∀ w ∈ part.writes d.bytesPerSector env, part.first ≤ w.1 ∧ w.1 ≤ part.last) ∧
  ∀ (data heap : Bytes) (vol : FATVolume) (part' : FATPartition) (d' : Disk),
    vol.flags &&& FLAG_MOUNTED = 0 →
    fatFormat { d with data := data } part env = some (part', d', 0) →
    (fatMount d' part.first vol heap).2 = 0 ∧
      EmptyVolume part env (fatMount d' part.first vol heap).1

/-- Sectors from the start of the root directory on that the format writes. -/
def writtenRoot (part : FATPartition) (F : Nat) : Nat :=
  if part.last + 1 = 2 ^ 32 then 1 else part.last - part.first - 2 * F

/-- The partitions that become an empty volume: the tables have sectors and entries enough,
and every slot of the root directory starts in a sector the format writes. -/
structure FreshFits (bytesPerSector : Nat) (part : FATPartition) (s F : Nat) : Prop where
  inside : RootInside part F
  table_pos : 0 < F
  slots : entrySize * (bytesPerSector / entrySize * s - 1) < writtenRoot part F * bytesPerSector
  table : 2 * (((part.last - part.first - 2 * F) / s + 2) % 2 ^ 16) ≤ F * bytesPerSector

/-- The descriptor a program hands to its first mount. -/
def zeroVolume (ctx : Disk) : FATVolume where
  pb := .decode blank
  fat := fun _ => 0
  firstSector := 0
  firstDataSector := 0
  countOfClusters := 0
  dataSectors := 0
  bytesPerCluster := 0
  fatSize := 0
  fatEntriesPerSec := 0
  flags := 0
  ctx := ctx
  lastFreeFATEntry := 0

lemma tableHead_entries (c : Nat) :
    UInt16.ofNat (le16 tableHead (2 * c)) ≠ 0 ↔ c < 2 ∨ c = 2 := by
  rcases Nat.lt_or_ge c 3 with hlt | hge
  · interval_cases c <;> decide
  · rw [le16, tableHead_zero (by omega), tableHead_zero (by omega)]
    constructor
    · intro h
      exact absurd rfl h
    · omega

section Fresh

variable {d d' : Disk} {part : FATPartition} {env : FormatEnv} {F : Nat}
  (hF : F = part.tableSectors d.bytesPerSector env)
include hF

/-- The first name byte of a slot of the new root directory. -/
lemma fresh_mark (h : Formatted d part env d') (hin : RootInside part F) (vol : FATVolume)
    (heap : Bytes) (i : Nat) :
    (entryOf ((freshVolume d' part vol heap).buffer
      (freshVolume d' part vol heap).pb.rootClus.toNat) i).mark =
      d'.data ((part.first + 1 + 2 * F + entrySize * i / d.bytesPerSector) * d.bytesPerSector +
        entrySize * i % d.bytesPerSector) := by
  rw [DirEntry.mark, entryOf, DirEntry.decode_dirName _ (by omega), shift_apply, Nat.add_zero,
    h.fresh_buffer hF hin]
  congr 1
  rw [Nat.add_mul _ (entrySize * i / d.bytesPerSector), Nat.add_assoc _ _ (_ % _),
    Nat.div_add_mod']

variable {s : Nat} (hs : s = (part.clusterSectors d.bytesPerSector).toNat)
  (hbps : d.bytesPerSector < 2 ^ 16)
include hs hbps

/-- Behind the identifier the root directory is blank. -/
lemma fresh_mark_zero (h : Formatted d part env d')
    (hfits : FreshFits d.bytesPerSector part s F) (vol : FATVolume) (heap : Bytes) {i : Nat}
    (hpos : 0 < i) (hi : i < (freshVolume d' part vol heap).items) :
    (entryOf ((freshVolume d' part vol heap).buffer
      (freshVolume d' part vol heap).pb.rootClus.toNat) i).mark = DIR_ENTRY_LAST_FREE := by
  have hin := hfits.inside
  have hsize := h.entry_le
  have hslots := hfits.slots
  have hwrap := hin.root
  have horder := hin.order
  rw [h.fresh_items hF hin hbps, ← hs] at hi
  have hmul : entrySize * i ≤ entrySize * (d.bytesPerSector / entrySize * s - 1) :=
    Nat.mul_le_mul_left _ (by omega)
  have hbpos : 0 < d.bytesPerSector := by
    unfold entrySize at hsize
    omega
  have hsec : entrySize * i / d.bytesPerSector < writtenRoot part F :=
    (Nat.div_lt_iff_lt_mul hbpos).mpr (by omega)
  have ht : entrySize * i % d.bytesPerSector < d.bytesPerSector := Nat.mod_lt _ hbpos
  have hdiv := Nat.div_add_mod (entrySize * i) d.bytesPerSector
  rw [fresh_mark hF h hin]
  unfold writtenRoot at hsec
  generalize entrySize * i / d.bytesPerSector = q at hsec hdiv ⊢
  by_cases hzero : q = 0
  · -- The rest of the first sector.
    rw [hzero, Nat.mul_zero, Nat.zero_add] at hdiv
    rw [hzero, Nat.add_zero, h.root_data hF hin hfits.table_pos ht, rootHead, hdiv,
      memcpy_apply_not_mem (by unfold entrySize; omega)]
    rfl
  · have hlast := part.last_lt
    split at hsec <;> rename_i hend
    · omega
    · exact h.blank_data hF hin (by omega) (by omega) (by omega) ht

/-- The mount finds an empty volume. -/
lemma empty_of_fits (h : Formatted d part env d')
    (hfits : FreshFits d.bytesPerSector part s F) (vol : FATVolume) (heap : Bytes) :
    EmptyVolume part env (freshVolume d' part vol heap) := by
  have hin := hfits.inside
  have hsize := h.entry_le
  have hpb := h.fresh_pb hF hin vol heap
  have hfat := h.fresh_fatSize hF hin vol heap
  have hroot : (freshVolume d' part vol heap).pb.rootClus.toNat = 2 := by
    rw [hpb]
    rfl
  have htable := hfits.table
  rw [← hs] at hfat
  rw [← hfat] at htable
  constructor
  case table =>
    intro c hc
    rw [h.fresh_fat hF hin vol heap (by omega), hroot]
    exact tableHead_entries c
  case label =>
    rw [entryOf, ← DirEntry.decode_encode (volumeEntry part.label env.now)]
    refine DirEntry.decode_congr fun j hj => ?_
    rw [shift_apply, Nat.mul_zero, Nat.zero_add, h.fresh_buffer hF hin,
      h.root_data hF hin hfits.table_pos (by omega), rootHead,
      memcpy_apply_mem (by omega) (by omega), Nat.zero_add, Nat.sub_zero]
  case slots =>
    intro i hpos hi hlive
    exact hlive.2 (fresh_mark_zero hF hs hbps h hfits vol heap hpos hi)
  case copies =>
    intro b hb
    have hsz : (part.block d.bytesPerSector env).fatSz16.toNat = F := hF.symm
    rw [FATVolume.tableBytes, hpb, hsz, Formatted.fresh_ctx, h.bytesPerSector_eq] at hb
    have haddr : ∀ j, (freshVolume d' part vol heap).tableAddr j =
        (part.first + 1 + j * F) * d.bytesPerSector := by
      intro j
      rw [FATVolume.tableAddr, hpb, hsz, Formatted.fresh_ctx, h.bytesPerSector_eq]
      rfl
    rw [haddr, haddr, Formatted.fresh_ctx, h.table_data hF hin (by omega) hb,
      h.table_data hF hin (by omega) hb]

/-- A slot behind the written sectors shows what the media held. -/
lemma slots_of_empty (h : Formatted d part env d') (hin : RootInside part F)
    (hdata : d.data = fun _ => 0x41) (vol : FATVolume) (heap : Bytes)
    (hempty : EmptyVolume part env (freshVolume d' part vol heap)) :
    entrySize * (d.bytesPerSector / entrySize * s - 1) <
      writtenRoot part F * d.bytesPerSector := by
  by_contra hnot
  have hsize := h.entry_le
  have hbpos : 0 < d.bytesPerSector := by
    unfold entrySize at hsize
    omega
  have hroot := hin.root
  have horder := hin.order
  obtain ⟨i, hi⟩ : ∃ i, i = d.bytesPerSector / entrySize * s - 1 := ⟨_, rfl⟩
  rw [← hi, Nat.not_lt] at hnot
  have hwritten : 0 < writtenRoot part F := by
    unfold writtenRoot
    split <;> omega
  have hsec : writtenRoot part F ≤ entrySize * i / d.bytesPerSector :=
    (Nat.le_div_iff_mul_le hbpos).mpr hnot
  have hipos : 0 < i := by
    rcases Nat.eq_zero_or_pos i with hzero | hpos
    · rw [hzero, Nat.mul_zero, Nat.zero_div] at hsec
      omega
    · exact hpos
  have hlt : i < (freshVolume d' part vol heap).items := by
    rw [h.fresh_items hF hin hbps, ← hs]
    omega
  have ht : entrySize * i % d.bytesPerSector < d.bytesPerSector := Nat.mod_lt _ hbpos
  have hmark := fresh_mark hF h hin vol heap i
  unfold writtenRoot at hsec
  generalize entrySize * i / d.bytesPerSector = q at hsec hmark
  have hframe : part.first + 1 + 2 * F < part.first + 1 + 2 * F + q ∧
      (part.last < part.first + 1 + 2 * F + q ∨ part.last + 1 = 2 ^ 32) := by
    split at hsec <;> omega
  rw [h.frame_data hF hin hframe.1 hframe.2 ht, hdata] at hmark
  dsimp only at hmark
  refine hempty.slots i hipos hlt ⟨?_, ?_⟩ <;> rw [hmark] <;> decide

omit hbps in
/-- A table entry behind the loaded sectors shows what the memory held. -/
lemma table_of_empty (h : Formatted d part env d') (hin : RootInside part F) (hpos : 0 < F)
    (vol : FATVolume)
    (hempty : EmptyVolume part env (freshVolume d' part vol fun _ => 0xFF)) :
    2 * (((part.last - part.first - 2 * F) / s + 2) % 2 ^ 16) ≤ F * d.bytesPerSector := by
  by_contra hnot
  have hsize := h.entry_le
  have hmul : 1 * 64 ≤ F * d.bytesPerSector := Nat.mul_le_mul hpos hsize
  have hfat := h.fresh_fatSize hF hin vol fun _ => 0xFF
  rw [← hs] at hfat
  rw [← hfat] at hnot
  obtain ⟨c, hc⟩ : ∃ c, (freshVolume d' part vol fun _ => 0xFF).fatSize = c + 1 :=
    ⟨_, (Nat.succ_pred_eq_of_pos (by omega)).symm⟩
  have hpb := h.fresh_pb hF hin vol fun _ => 0xFF
  have hsz : (part.block d.bytesPerSector env).fatSz16.toNat = F := hF.symm
  have hroot : (freshVolume d' part vol fun _ => 0xFF).pb.rootClus.toNat = 2 := by
    rw [hpb]
    rfl
  have hused : (freshVolume d' part vol fun _ => 0xFF).fat c ≠ 0 := by
    have hword : (freshVolume d' part vol fun _ => 0xFF).fat c = UInt16.ofNat (le16 (memcpy
        (fun _ => 0xFF) 0 (shift d'.data ((part.first + 1) * d'.bytesPerSector)) 0
        ((freshVolume d' part vol fun _ => 0xFF).pb.fatSz16.toNat * d'.bytesPerSector))
          (2 * c)) := rfl
    rw [hword, hpb, hsz, h.bytesPerSector_eq]
    have hlt := le16_lt (memcpy (fun _ => 0xFF) 0
      (shift d'.data ((part.first + 1) * d.bytesPerSector)) 0 (F * d.bytesPerSector)) (2 * c)
    have hhigh : 65280 ≤ le16 (memcpy (fun _ => 0xFF) 0
        (shift d'.data ((part.first + 1) * d.bytesPerSector)) 0 (F * d.bytesPerSector))
          (2 * c) := by
      rw [le16, @memcpy_apply_not_mem _ _ _ _ _ (2 * c + 1) (by omega)]
      exact Nat.le_add_left _ _
    intro hzero
    have hnat := congrArg UInt16.toNat hzero
    rw [UInt16.toNat_ofNat_of_lt' hlt] at hnat
    have : UInt16.toNat 0 = 0 := rfl
    omega
  have hcases := (hempty.table c (by omega)).mp hused
  rw [hroot] at hcases
  omega

end Fresh

/-- The media's bytes do not decide whether a format succeeds. -/
lemma Formatted.withData {d d' : Disk} {part : FATPartition} {env : FormatEnv}
    (h : Formatted d part env d') (data : Bytes) :
    Formatted { d with data := data } part env
      (Disk.withSectors { d with data := data } (part.writes d.bytesPerSector env)) :=
  ⟨h.label, h.size, h.entry_le, h.takes, rfl⟩

/-- An accepted partition becomes an empty volume inside its bounds exactly when its tables
have sectors and entries enough and the format reaches every slot of the root directory. -/
theorem fatFormat_empty_iff {d d' : Disk} {part part' : FATPartition} {env : FormatEnv}
    (hbps : d.bytesPerSector < 2 ^ 16) (hread : d.Serves .read)
    (h : fatFormat d part env = some (part', d', 0)) :
    FormatsEmpty d part env ↔
      FreshFits d.bytesPerSector part (part.clusterSectors d.bytesPerSector).toNat
        (formatFATSz (part.clusterSectors d.bytesPerSector).toNat part.sectors % 2 ^ 16) := by
  obtain ⟨hform, -⟩ := fatFormat_accepts.mp h
  rw [← part.tableSectors_eq d.bytesPerSector env]
  obtain ⟨F, hF⟩ : ∃ F, F = part.tableSectors d.bytesPerSector env := ⟨_, rfl⟩
  rw [← hF]
  have hFd : ∀ data : Bytes,
      F = part.tableSectors ({ d with data := data } : Disk).bytesPerSector env := fun _ => hF
  have hFlt : F < 2 ^ 16 := hF ▸ part.tableSectors_lt d.bytesPerSector env
  have hfirst := part.first_lt
  have hlast := part.last_lt
  constructor
  · rintro ⟨hwrites, hmount⟩
    have horder := (hwrites _ (FATPartition.mem_writes.mpr (.inl rfl))).2
    have hroot := hwrites _ (FATPartition.mem_writes.mpr (.inr (.inr (.inl rfl))))
    have hin : RootInside part F := by
      refine ⟨horder, ?_⟩
      unfold FATPartition.rootSector dataSector RES_SECTORS NUM_FATS at hroot
      rw [← hF] at hroot
      omega
    have hfresh : 0 < F ∧ ∀ data heap, EmptyVolume part env (freshVolume
        (Disk.withSectors { d with data := data } (part.writes d.bytesPerSector env)) part
        (zeroVolume d) heap) := by
      have hflags : (zeroVolume d).flags &&& FLAG_MOUNTED = 0 := Nat.zero_and _
      have hall := fun data heap => hmount data heap (zeroVolume d) _ _ hflags
        (fatFormat_accepts.mpr ⟨hform.withData data, rfl⟩)
      have heq := fun data heap => (hform.withData data).mount_eq (hFd data) hin hread hflags heap
      by_cases hpos : 0 < F
      · refine ⟨hpos, fun data heap => ?_⟩
        have h1 := (hall data heap).2
        rwa [heq data heap, if_pos hpos] at h1
      · have h1 := (hall blank blank).1
        rw [heq blank blank, if_neg hpos] at h1
        contradiction
    obtain ⟨hpos, hempty⟩ := hfresh
    exact ⟨hin, hpos, slots_of_empty (hFd fun _ => 0x41) rfl hbps
        (hform.withData fun _ => 0x41) hin rfl _ _ (hempty (fun _ => 0x41) blank),
      table_of_empty (hFd blank) rfl (hform.withData blank) hin hpos _
        (hempty blank fun _ => 0xFF)⟩
  · intro hfits
    have hin := hfits.inside
    refine ⟨fun w hw => ?_, fun data heap vol part'' d'' hflags haccept => ?_⟩
    · have hroot := Formatted.rootSector_eq hF hin
      obtain ⟨horder, hinside⟩ := hin
      rcases FATPartition.mem_writes.mp hw with rfl | ⟨n, hn, m, hm, rfl⟩ | rfl | ⟨hlo, hhi, -⟩
      · exact ⟨le_rfl, horder⟩
      · have hnF : n * F ≤ 1 * F := Nat.mul_le_mul_right _ (by omega)
        rw [← hF] at hm ⊢
        omega
      · dsimp only
        omega
      · omega
    · obtain ⟨hform', -⟩ := fatFormat_accepts.mp haccept
      rw [hform'.mount_eq (hFd data) hin hread hflags, if_pos hfits.table_pos]
      exact ⟨rfl, empty_of_fits (hFd data) rfl hbps hform' hfits vol heap⟩

/-! ## Ready for use -/

/-- A partition on a media without faults whose new volume has clusters to give: its tables
and its cluster numbers fit, and directories have room for their dot entries. -/
structure WellSized (d : Disk) (part : FATPartition) (s F : Nat) : Prop where
  faultless : d.Faultless
  media_lt : d.numOfSectors < 2 ^ 32
  sector_lt : d.bytesPerSector < 2 ^ 16
  sector_dvd : entrySize ∣ d.bytesPerSector
  last_lt : part.last + 1 < 2 ^ 32
  fits : FreshFits d.bytesPerSector part s F
  cluster_pos : 0 < (part.last - part.first - 2 * F) / s
  clusters_le : (part.last - part.first - 2 * F) / s + 2 ≤ FAT_BAD
  two_slots : 2 ≤ d.bytesPerSector / entrySize * s

section Ready

variable {d d' : Disk} {part : FATPartition} {env : FormatEnv} {s F : Nat}
  (hs : s = (part.clusterSectors d.bytesPerSector).toNat)
  (hF : F = part.tableSectors d.bytesPerSector env) (h : Formatted d part env d')
  (hw : WellSized d part s F) (vol : FATVolume) (heap : Bytes)
include hs hF h hw

lemma fresh_fatSize_eq : (freshVolume d' part vol heap).fatSize =
    (part.last - part.first - 2 * F) / s + 2 := by
  have hle := hw.clusters_le
  unfold FAT_BAD at hle
  rw [h.fresh_fatSize hF hw.fits.inside, ← hs]
  exact Nat.mod_eq_of_lt (by omega)

omit hs in
/-- The last sector of the partition lies on the media. -/
lemma last_on_media : part.last + 1 ≤ d.numOfSectors := by
  have hin := hw.fits.inside
  have hroot := Formatted.rootSector_eq hF hin
  obtain ⟨horder, hinside⟩ := hin
  have hlt := hw.last_lt
  have htake : d.Takes part.last := by
    by_cases heq : part.last = part.first + 1 + 2 * F
    · have htake := h.takes _ (FATPartition.mem_writes.mpr (.inr (.inr (.inl rfl))))
      rwa [hroot, ← heq] at htake
    · exact h.takes (part.last, blank) (FATPartition.mem_writes.mpr (.inr (.inr (.inr
        ⟨by dsimp only; omega, by dsimp only; omega, rfl⟩))))
  have haccept := htake.1
  simp only [Disk.accepts, Bool.not_eq_true', Bool.or_eq_false_iff, decide_eq_false_iff_not]
    at haccept
  omega

/-- A new volume is mounted. -/
lemma fresh_mounted : (freshVolume d' part vol heap).Mounted := by
  have hin := hw.fits.inside
  have hpb := h.fresh_pb hF hin vol heap
  have hfat := fresh_fatSize_eq hs hF h hw vol heap
  have hmedia := last_on_media hF h hw
  have hbyts := part.block_bytsPerSec d.bytesPerSector env hw.sector_lt
  have hctx : (freshVolume d' part vol heap).ctx.bytesPerSector = d.bytesPerSector :=
    h.bytesPerSector_eq
  have hnum : (freshVolume d' part vol heap).ctx.numOfSectors = d.numOfSectors := by
    rw [Formatted.fresh_ctx, h.disk_eq, Disk.withSectors_numOfSectors]
  have hentries : (freshVolume d' part vol heap).fatEntriesPerSec =
      d.bytesPerSector / entrySize := by
    have hdef : (freshVolume d' part vol heap).fatEntriesPerSec =
        (freshVolume d' part vol heap).pb.bytsPerSec.toNat / entrySize := rfl
    rw [hdef, hpb, hbyts]
  have hspc : (freshVolume d' part vol heap).pb.secPerClus.toNat = s := by
    rw [hpb, hs]
    rfl
  have hsz : (freshVolume d' part vol heap).pb.fatSz16.toNat = F := by
    rw [hpb, hF]
    rfl
  have hcluster : (freshVolume d' part vol heap).bytesPerCluster = d.bytesPerSector * s := by
    have hbytes : (freshVolume d' part vol heap).bytesPerCluster =
        (freshVolume d' part vol heap).pb.bytsPerSec.toNat *
          (freshVolume d' part vol heap).pb.secPerClus.toNat % 2 ^ 16 := rfl
    have hlt := part.clusterSectors_bytes hw.sector_lt
    rw [hbytes, hspc, hpb, hbyts]
    rw [← hs] at hlt
    exact Nat.mod_eq_of_lt hlt
  have htable := hw.fits.table
  have hpos := hw.cluster_pos
  have hle := hw.clusters_le
  constructor
  case sector_eq => rw [hctx, hentries, Nat.mul_div_cancel' hw.sector_dvd]
  case entries_pos =>
    rw [hentries]
    exact Nat.div_pos h.entry_le (by decide)
  case secPerClus_pos =>
    rw [hspc, hs]
    exact h.size.pos
  case cluster_eq => rw [hcluster, hctx, hspc]
  case cluster_lt =>
    rw [hcluster, hs]
    exact part.clusterSectors_bytes hw.sector_lt
  case firstData_eq => rfl
  case table_pos =>
    rw [hsz]
    exact hw.fits.table_pos
  case table_fits =>
    rw [FATVolume.tableBytes, hfat, hsz, hctx]
    unfold FAT_BAD at hle
    omega
  case fatSize_le =>
    rw [hfat]
    exact hle
  case inside =>
    have hfirst : (freshVolume d' part vol heap).firstSector = part.first := rfl
    have hmul := Nat.div_mul_le_self (part.last - part.first - 2 * F) s
    have horder := hin.order
    have hroot := hin.root
    rw [hnum, hfirst, h.fresh_firstDataSector hF hin, hfat, hspc, Nat.add_sub_cancel]
    omega
  case media_lt =>
    rw [hnum]
    exact hw.media_lt
  case hint_lo => exact le_rfl
  case hint_hi =>
    rw [hfat]
    change 2 < _
    omega

/-- The slots of the new root directory, seen in the store. -/
lemma fresh_entry {i : Nat} (hi : i < (freshVolume d' part vol heap).items) :
    (freshVolume d' part vol heap).view.entry (freshVolume d' part vol heap).view.root i =
      entryOf ((freshVolume d' part vol heap).buffer
        (freshVolume d' part vol heap).pb.rootClus.toNat) i := by
  have hroot : (freshVolume d' part vol heap).pb.rootClus.toNat = 2 := by
    rw [h.fresh_pb hF hw.fits.inside]
    rfl
  have hfat := fresh_fatSize_eq hs hF h hw vol heap
  have hpos := hw.cluster_pos
  refine (FATVolume.Mounted.entryOf_buffer (fresh_mounted hs hF h hw vol heap) ?_ hi).symm
  change (freshVolume d' part vol heap).view.Node (freshVolume d' part vol heap).pb.rootClus.toNat
  rw [hroot]
  exact ⟨le_rfl, by change 2 < (freshVolume d' part vol heap).fatSize; omega⟩

/-- The root directory of a new volume is its first cluster. -/
lemma fresh_root_chain : (freshVolume d' part vol heap).view.Chain
    (freshVolume d' part vol heap).view.root [(freshVolume d' part vol heap).view.root] := by
  have hroot : (freshVolume d' part vol heap).view.root = 2 := by
    change (freshVolume d' part vol heap).pb.rootClus.toNat = 2
    rw [h.fresh_pb hF hw.fits.inside]
    rfl
  have hfat := fresh_fatSize_eq hs hF h hw vol heap
  have hpos := hw.cluster_pos
  have hlt : 2 < (freshVolume d' part vol heap).fatSize := by omega
  have hmul : 1 * entrySize ≤ F * d.bytesPerSector :=
    Nat.mul_le_mul hw.fits.table_pos h.entry_le
  unfold entrySize at hmul
  rw [hroot]
  refine .last ⟨le_rfl, hlt⟩ ?_
  have hnext : (freshVolume d' part vol heap).view.next 2 = 0xFFFF := by
    change fatGetClusterFromTable (freshVolume d' part vol heap) 2 = _
    rw [fatGetClusterFromTable, if_pos hlt,
      h.fresh_fat hF hw.fits.inside vol heap (c := 2) (by omega)]
    decide
  rw [hnext]
  exact Store.stop_written

end Ready

/-- `vol` is what a mount makes of a new volume. -/
def Fresh (d : Disk) (part : FATPartition) (env : FormatEnv) (vol : FATVolume) : Prop :=
  ∃ part' d' vol₀ heap, fatFormat d part env = some (part', d', 0) ∧
    fatMount d' part.first vol₀ heap = (vol, 0)

/-- The sizes of a partition that decide how its volume works. -/
def FATPartition.WellSized (part : FATPartition) (d : Disk) : Prop :=
  Fat.WellSized d part (part.clusterSectors d.bytesPerSector).toNat
    (formatFATSz (part.clusterSectors d.bytesPerSector).toNat part.sectors % 2 ^ 16)

/-- A new volume is the one its partition determines. -/
lemma Fresh.eq_freshVolume {d : Disk} {part : FATPartition} {env : FormatEnv}
    {vol : FATVolume} (h : Fresh d part env vol) (hw : part.WellSized d) :
    ∃ d' vol₀ heap, Formatted d part env d' ∧ vol = freshVolume d' part vol₀ heap := by
  obtain ⟨part', d', vol₀, heap, hformat, hmount⟩ := h
  obtain ⟨hform, -⟩ := fatFormat_accepts.mp hformat
  have hflags : vol₀.flags &&& FLAG_MOUNTED = 0 := by
    by_contra hne
    rw [fatMount, if_pos hne] at hmount
    simp at hmount
  have hF := part.tableSectors_eq d.bytesPerSector env
  have hmount' := hform.mount_eq hF.symm hw.fits.inside (hw.faultless .read) hflags heap
  rw [if_pos hw.fits.table_pos] at hmount'
  refine ⟨d', vol₀, heap, hform, ?_⟩
  rw [hmount] at hmount'
  exact congrArg Prod.fst hmount'

/-- A new volume of a well-sized partition: sound, with a flat root directory that holds the
volume identifier in front of never used slots. -/
structure FreshView (part : FATPartition) (env : FormatEnv) (vol : FATVolume) : Prop where
  ready : Ready vol
  flat : vol.view.Flat
  label : vol.view.entry vol.view.root 0 = volumeEntry part.label env.now
  rest : ∀ i, 0 < i → i < vol.view.slots →
    (vol.view.entry vol.view.root i).mark = DIR_ENTRY_LAST_FREE

theorem Fresh.view {d : Disk} {part : FATPartition} {env : FormatEnv} {vol : FATVolume}
    (hfresh : Fresh d part env vol) (hw : part.WellSized d) : FreshView part env vol := by
  obtain ⟨d', vol₀, heap, h, rfl⟩ := hfresh.eq_freshVolume hw
  have hF := (part.tableSectors_eq d.bytesPerSector env).symm
  have hm := fresh_mounted rfl hF h hw vol₀ heap
  have hempty := empty_of_fits hF rfl hw.sector_lt h hw.fits vol₀ heap
  have hchain := fresh_root_chain rfl hF h hw vol₀ heap
  have hentry := fun i => @fresh_entry _ _ _ _ _ _ rfl hF h hw vol₀ heap i
  have hslots : (freshVolume d' part vol₀ heap).view.slots =
      d.bytesPerSector / entrySize * (part.clusterSectors d.bytesPerSector).toNat :=
    h.fresh_items hF hw.fits.inside hw.sector_lt vol₀ heap
  have htwo := hw.two_slots
  have hlabel := (hentry 0 (by change 0 < (freshVolume d' part vol₀ heap).view.slots; omega)).trans
    hempty.label
  have hrest : ∀ i, 0 < i → i < (freshVolume d' part vol₀ heap).view.slots →
      ((freshVolume d' part vol₀ heap).view.entry
        (freshVolume d' part vol₀ heap).view.root i).mark = DIR_ENTRY_LAST_FREE := by
    intro i hpos hi
    rw [hentry i hi]
    exact fresh_mark_zero hF rfl hw.sector_lt h hw.fits vol₀ heap hpos hi
  have hzero : ∀ i < (freshVolume d' part vol₀ heap).view.slots,
      Live ((freshVolume d' part vol₀ heap).view.entry
        (freshVolume d' part vol₀ heap).view.root i) → i = 0 := by
    intro i hi hlive
    by_contra hne
    exact hlive.2 (hrest i (Nat.pos_of_ne_zero hne) hi)
  have hflat : (freshVolume d' part vol₀ heap).view.Flat := by
    refine ⟨hchain, fun i hi hlive => ?_⟩
    rw [hzero i hi hlive, hlabel]
    exact (volumeEntry_eqs part.label env.now).1
  refine ⟨⟨hm, ?_, ?_⟩, hflat, hlabel, hrest⟩
  · rw [Formatted.fresh_ctx, h.disk_eq]
    exact Disk.withSectors_faultless hw.faultless _
  · refine Store.sound_flat hflat hm.fatSize_le (by rw [hslots]; exact htwo)
      hm.cluster_eq_items.ge (fun _ => []) (fun i hi hlive => ?_)
      (fun i hi j hj hlive hlive' hne => ?_)
    · rw [hzero i hi hlive, hlabel]
      obtain ⟨-, hclus, hsize⟩ := volumeEntry_eqs part.label env.now
      exact ⟨.inl ⟨hclus, rfl⟩, by simp, fun _ => by rw [hsize]; exact Nat.zero_le _⟩
    · exact absurd ((hzero i hi hlive).trans (hzero j hj hlive').symm) hne

/-- Eight sectors become an empty volume. -/
theorem fatFormat_empty_eight : FormatsEmpty (blankDisk 8) (plainPartition 7) plainEnv := by
  have hfits : FreshFits 512 (plainPartition 7) 1 1 :=
    ⟨⟨by decide, by decide⟩, by decide, by decide, by decide⟩
  exact (fatFormat_empty_iff (by decide) (fun _ _ => rfl)
    (fatFormat_accepts.mpr ⟨formatted_eight, rfl⟩)).mpr hfits

/-- Formatting the first three sectors of a media succeeds and puts the root directory into
the fourth one. -/
theorem fatFormat_outside_three :
    ∃ part' d', fatFormat (blankDisk 8) (plainPartition 2) plainEnv = some (part', d', 0) ∧
      (∃ w ∈ (plainPartition 2).writes 512 plainEnv, w.1 = 3) ∧ (plainPartition 2).last = 2 ∧
      ¬FormatsEmpty (blankDisk 8) (plainPartition 2) plainEnv := by
  have hform : Formatted (blankDisk 8) (plainPartition 2) plainEnv
      ((blankDisk 8).withSectors ((plainPartition 2).writes 512 plainEnv)) :=
    ⟨plainPartition_label _, ⟨0, by decide, by decide⟩, by decide, by decide +kernel, rfl⟩
  have hroot : (plainPartition 2).rootSector 512 plainEnv = 3 := by decide
  have hmem := FATPartition.mem_writes.mpr (.inr (.inr (.inl
    (Eq.refl ((plainPartition 2).rootSector 512 plainEnv,
      rootHead (plainPartition 2).label plainEnv.now)))))
  refine ⟨_, _, fatFormat_accepts.mpr ⟨hform, rfl⟩, ⟨_, hmem, hroot⟩, rfl, fun h => ?_⟩
  have hinside := (h.1 _ hmem).2
  rw [hroot] at hinside
  exact absurd hinside (by decide)

end DiegOS.Fat
