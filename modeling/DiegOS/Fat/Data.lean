import DiegOS.Fat.Disk

/-!
# On-disk structures

The packed structures of `fat_data.h` with their byte images, and the
in-memory volume descriptor.  A directory entry is 64 bytes long: a padded
name, the attributes, the first cluster, three dates, three times and the file
size.  The parameter block is 58 bytes long and opens the volume.

Main results:

- Theorem `DirEntry.decode_encode`: a directory entry survives its byte
  image.
- Theorem `ParameterBlock.decode_encode`: so does a parameter block.
-/

namespace DiegOS.Fat

open Lib

/-! ## Time stamps -/

/-- `struct FAT_date_stamp`: a 16-bit word of three bit fields. -/
structure DateStamp where
  dayOfMonth : Fin 32
  monthOfYear : Fin 16
  years : Fin 128
deriving DecidableEq, Repr

/-- `struct FAT_time_stamp`: a 32-bit word of four bit fields and five spare bits. -/
structure TimeStamp where
  msecs : Fin 1024
  secs : Fin 64
  mins : Fin 64
  hours : Fin 32
  spare : Fin 32
deriving DecidableEq, Repr

namespace DateStamp

/-- The word that holds the bit fields, first field lowest. -/
def toWord (d : DateStamp) : Nat :=
  d.dayOfMonth + 32 * d.monthOfYear + 512 * d.years

/-- The bit fields of a word. -/
def ofWord (n : Nat) : DateStamp where
  dayOfMonth := Fin.ofNat 32 n
  monthOfYear := Fin.ofNat 16 (n / 32)
  years := Fin.ofNat 128 (n / 512)

lemma toWord_lt (d : DateStamp) : d.toWord < 2 ^ 16 := by
  have h0 := d.dayOfMonth.isLt
  have h1 := d.monthOfYear.isLt
  have h2 := d.years.isLt
  unfold toWord
  omega

lemma ofWord_toWord (d : DateStamp) : ofWord d.toWord = d := by
  obtain ⟨day, month, years⟩ := d
  have h0 := day.isLt
  have h1 := month.isLt
  have h2 := years.isLt
  simp only [ofWord, toWord, mk.injEq, Fin.ext_iff, Fin.val_ofNat]
  omega

end DateStamp

namespace TimeStamp

/-- The word that holds the bit fields, first field lowest. -/
def toWord (t : TimeStamp) : Nat :=
  t.msecs + 1024 * t.secs + 65536 * t.mins + 4194304 * t.hours + 134217728 * t.spare

/-- The bit fields of a word. -/
def ofWord (n : Nat) : TimeStamp where
  msecs := Fin.ofNat 1024 n
  secs := Fin.ofNat 64 (n / 1024)
  mins := Fin.ofNat 64 (n / 65536)
  hours := Fin.ofNat 32 (n / 4194304)
  spare := Fin.ofNat 32 (n / 134217728)

lemma toWord_lt (t : TimeStamp) : t.toWord < 2 ^ 32 := by
  have h0 := t.msecs.isLt
  have h1 := t.secs.isLt
  have h2 := t.mins.isLt
  have h3 := t.hours.isLt
  have h4 := t.spare.isLt
  unfold toWord
  omega

lemma ofWord_toWord (t : TimeStamp) : ofWord t.toWord = t := by
  obtain ⟨msecs, secs, mins, hours, spare⟩ := t
  have h0 := msecs.isLt
  have h1 := secs.isLt
  have h2 := mins.isLt
  have h3 := hours.isLt
  have h4 := spare.isLt
  simp only [ofWord, toWord, mk.injEq, Fin.ext_iff, Fin.val_ofNat]
  omega

end TimeStamp

/-- A stamp of all zero bits. -/
def zeroDate : DateStamp := ⟨0, 0, 0⟩

/-- A stamp of all zero bits. -/
def zeroTime : TimeStamp := ⟨0, 0, 0, 0, 0⟩

/-- The broken-down local time a call sees (`struct tm`). -/
structure Tm where
  tmSec : Nat
  tmMin : Nat
  tmHour : Nat
  tmMday : Nat
  tmMon : Nat
  tmYear : Nat
deriving DecidableEq, Repr

/-- The date fields `FAT_update_timestamps` stores. -/
def dateOf (now : Tm) : DateStamp where
  dayOfMonth := Fin.ofNat 32 now.tmMday
  monthOfYear := Fin.ofNat 16 (now.tmMon + 1)
  years := Fin.ofNat 128 (if 100 < now.tmYear then now.tmYear - 100 else 0)

/-- The time fields `FAT_update_timestamps` stores; the spare bits stay. -/
def timeOf (now : Tm) (old : TimeStamp) : TimeStamp where
  msecs := 0
  secs := Fin.ofNat 64 now.tmSec
  mins := Fin.ofNat 64 now.tmMin
  hours := Fin.ofNat 32 now.tmHour
  spare := old.spare

/-! ## Directory entries -/

/-- Length of a name in a directory entry. -/
def DIR_NAMELEN : Nat := 39

/-- A padded name as a directory entry stores it. -/
abbrev DirName := Vector UInt8 39

/-- Every name has a first byte, the mark of its entry. -/
lemma mark_lt : 0 < 39 := by decide

/-- First name byte of a deleted entry. -/
def DIR_ENTRY_FREE : UInt8 := 0xE5

/-- First name byte of a never used entry. -/
def DIR_ENTRY_LAST_FREE : UInt8 := 0x00

def ATTR_READ_ONLY : UInt8 := 0x01
def ATTR_SYSTEM : UInt8 := 0x04
def ATTR_VOLUME_ID : UInt8 := 0x08
def ATTR_DIRECTORY : UInt8 := 0x10
def ATTR_LINK : UInt8 := 0x20

/-- `struct FAT`: one directory entry. -/
structure DirEntry where
  dirName : DirName
  dirAttr : UInt8
  dirFstClus : UInt16
  dirAccDate : DateStamp
  dirCrtDate : DateStamp
  dirWrtDate : DateStamp
  dirAccTime : TimeStamp
  dirCrtTime : TimeStamp
  dirWrtTime : TimeStamp
  dirFileSize : UInt32
deriving DecidableEq

/-- `sizeof(struct FAT)`. -/
def entrySize : Nat := 64

namespace DirEntry

/-- The attribute test `DIR_Attr & mask`. -/
def hasAttr (e : DirEntry) (mask : UInt8) : Bool := e.dirAttr &&& mask != 0

/-- First byte of the name: the marker of free entries. -/
def mark (e : DirEntry) : UInt8 := e.dirName[0]

/-- First cluster of the entry. -/
def clus (e : DirEntry) : Nat := e.dirFstClus.toNat

/-- Recorded size of the entry. -/
def size (e : DirEntry) : Nat := e.dirFileSize.toNat

/-- The byte image of an entry. -/
def encode (e : DirEntry) : Bytes := fun j =>
  if h : j < 39 then e.dirName[j]
  else if j = 39 then e.dirAttr
  else if j < 42 then byteOf e.dirFstClus.toNat (j - 40)
  else if j < 44 then byteOf e.dirAccDate.toWord (j - 42)
  else if j < 46 then byteOf e.dirCrtDate.toWord (j - 44)
  else if j < 48 then byteOf e.dirWrtDate.toWord (j - 46)
  else if j < 52 then byteOf e.dirAccTime.toWord (j - 48)
  else if j < 56 then byteOf e.dirCrtTime.toWord (j - 52)
  else if j < 60 then byteOf e.dirWrtTime.toWord (j - 56)
  else byteOf e.dirFileSize.toNat (j - 60)

/-- The entry whose image starts a memory. -/
def decode (b : Bytes) : DirEntry where
  dirName := Vector.ofFn fun i => b i
  dirAttr := b 39
  dirFstClus := UInt16.ofNat (le16 b 40)
  dirAccDate := .ofWord (le16 b 42)
  dirCrtDate := .ofWord (le16 b 44)
  dirWrtDate := .ofWord (le16 b 46)
  dirAccTime := .ofWord (le32 b 48)
  dirCrtTime := .ofWord (le32 b 52)
  dirWrtTime := .ofWord (le32 b 56)
  dirFileSize := UInt32.ofNat (le32 b 60)

/-- Only the 64 bytes of the image matter. -/
lemma decode_congr {b b' : Bytes} (h : ∀ j < entrySize, b j = b' j) :
    decode b = decode b' := by
  have hname : (fun i : Fin 39 => b i) = fun i : Fin 39 => b' i := by
    funext i
    exact h i (by unfold entrySize; omega)
  have hbyte : ∀ j < 64, b j = b' j := h
  simp only [decode, le16, le32, hname, hbyte 39, hbyte 40, hbyte 41, hbyte 42, hbyte 43,
    hbyte 44, hbyte 45, hbyte 46, hbyte 47, hbyte 48, hbyte 49, hbyte 50, hbyte 51, hbyte 52,
    hbyte 53, hbyte 54, hbyte 55, hbyte 56, hbyte 57, hbyte 58, hbyte 59, hbyte 60, hbyte 61,
    hbyte 62, hbyte 63, Nat.reduceAdd, Nat.reduceLT]

/-- An entry survives its byte image. -/
@[simp]
theorem decode_encode (e : DirEntry) : decode e.encode = e := by
  have hname : (Vector.ofFn fun i : Fin 39 => e.encode i) = e.dirName := by
    ext i hi
    simp [encode]
  have hclus : le16 e.encode 40 = e.dirFstClus.toNat :=
    le16_put e.dirFstClus.toNat_lt rfl rfl
  have had : le16 e.encode 42 = e.dirAccDate.toWord := le16_put (DateStamp.toWord_lt _) rfl rfl
  have hcd : le16 e.encode 44 = e.dirCrtDate.toWord := le16_put (DateStamp.toWord_lt _) rfl rfl
  have hwd : le16 e.encode 46 = e.dirWrtDate.toWord := le16_put (DateStamp.toWord_lt _) rfl rfl
  have hat : le32 e.encode 48 = e.dirAccTime.toWord :=
    le32_put (TimeStamp.toWord_lt _) fun i hi => by interval_cases i <;> rfl
  have hct : le32 e.encode 52 = e.dirCrtTime.toWord :=
    le32_put (TimeStamp.toWord_lt _) fun i hi => by interval_cases i <;> rfl
  have hwt : le32 e.encode 56 = e.dirWrtTime.toWord :=
    le32_put (TimeStamp.toWord_lt _) fun i hi => by interval_cases i <;> rfl
  have hsize : le32 e.encode 60 = e.dirFileSize.toNat :=
    le32_put e.dirFileSize.toNat_lt fun i hi => by interval_cases i <;> rfl
  have hattr : e.encode 39 = e.dirAttr := rfl
  simp only [decode, hname, hclus, had, hcd, hwd, hat, hct, hwt, hsize, hattr,
    DateStamp.ofWord_toWord, TimeStamp.ofWord_toWord, UInt16.ofNat_toNat, UInt32.ofNat_toNat]

/-- The name is the start of the image. -/
lemma decode_dirName (b : Bytes) {i : Nat} (hi : i < 39) : (decode b).dirName[i] = b i := by
  simp [decode]

-- Proofs go through the lemmas above; unfolding the images is never needed.
attribute [irreducible] encode decode

end DirEntry

/-! ## Parameter block and volume -/

/-- `struct ParameterBlock`, the boot sector of a volume. -/
structure ParameterBlock where
  oemName : Vector UInt8 8
  bytsPerSec : UInt16
  secPerClus : UInt8
  numFATs : UInt8
  resvdSecCnt : UInt16
  fatSz16 : UInt16
  hiddSec : UInt32
  totSec : UInt32
  volID : UInt32
  flags : UInt32
  volLab : Vector UInt8 16
  filSysType : Vector UInt8 8
  rootClus : UInt16
deriving DecidableEq

/-- `sizeof(struct ParameterBlock)`. -/
def parameterBlockSize : Nat := 58

namespace ParameterBlock

/-- The byte image of a parameter block. -/
def encode (p : ParameterBlock) : Bytes := fun j =>
  if h : j < 8 then p.oemName[j]
  else if j < 10 then byteOf p.bytsPerSec.toNat (j - 8)
  else if j = 10 then p.secPerClus
  else if j = 11 then p.numFATs
  else if j < 14 then byteOf p.resvdSecCnt.toNat (j - 12)
  else if j < 16 then byteOf p.fatSz16.toNat (j - 14)
  else if j < 20 then byteOf p.hiddSec.toNat (j - 16)
  else if j < 24 then byteOf p.totSec.toNat (j - 20)
  else if j < 28 then byteOf p.volID.toNat (j - 24)
  else if j < 32 then byteOf p.flags.toNat (j - 28)
  else if h : j - 32 < 16 then p.volLab[j - 32]
  else if h : j - 48 < 8 then p.filSysType[j - 48]
  else byteOf p.rootClus.toNat (j - 56)

/-- The parameter block whose image starts a memory. -/
def decode (b : Bytes) : ParameterBlock where
  oemName := Vector.ofFn fun i => b i
  bytsPerSec := UInt16.ofNat (le16 b 8)
  secPerClus := b 10
  numFATs := b 11
  resvdSecCnt := UInt16.ofNat (le16 b 12)
  fatSz16 := UInt16.ofNat (le16 b 14)
  hiddSec := UInt32.ofNat (le32 b 16)
  totSec := UInt32.ofNat (le32 b 20)
  volID := UInt32.ofNat (le32 b 24)
  flags := UInt32.ofNat (le32 b 28)
  volLab := Vector.ofFn fun i => b (32 + i)
  filSysType := Vector.ofFn fun i => b (48 + i)
  rootClus := UInt16.ofNat (le16 b 56)

/-- Only the 58 bytes of the image matter. -/
lemma decode_congr {b b' : Bytes} (h : ∀ j < parameterBlockSize, b j = b' j) :
    decode b = decode b' := by
  have hbyte : ∀ j < 58, b j = b' j := h
  have hoem : (fun i : Fin 8 => b i) = fun i : Fin 8 => b' i := by
    funext i
    exact hbyte i (by omega)
  have hlab : (fun i : Fin 16 => b (32 + i)) = fun i : Fin 16 => b' (32 + i) := by
    funext i
    exact hbyte (32 + i) (by omega)
  have htype : (fun i : Fin 8 => b (48 + i)) = fun i : Fin 8 => b' (48 + i) := by
    funext i
    exact hbyte (48 + i) (by omega)
  simp only [decode, le16, le32, hoem, hlab, htype, hbyte 8, hbyte 9, hbyte 10, hbyte 11,
    hbyte 12, hbyte 13, hbyte 14, hbyte 15, hbyte 16, hbyte 17, hbyte 18, hbyte 19, hbyte 20,
    hbyte 21, hbyte 22, hbyte 23, hbyte 24, hbyte 25, hbyte 26, hbyte 27, hbyte 28, hbyte 29,
    hbyte 30, hbyte 31, hbyte 56, hbyte 57, Nat.reduceAdd, Nat.reduceLT]

lemma encode_volLab (p : ParameterBlock) {i : Nat} (hi : i < 16) :
    p.encode (32 + i) = p.volLab[i] := by
  interval_cases i <;> rfl

lemma encode_filSysType (p : ParameterBlock) {i : Nat} (hi : i < 8) :
    p.encode (48 + i) = p.filSysType[i] := by
  interval_cases i <;> rfl

/-- A parameter block survives its byte image. -/
@[simp]
theorem decode_encode (p : ParameterBlock) : decode p.encode = p := by
  have hoem : (Vector.ofFn fun i : Fin 8 => p.encode i) = p.oemName := by
    ext i hi
    simp [encode]
  have hlab : (Vector.ofFn fun i : Fin 16 => p.encode (32 + i)) = p.volLab := by
    ext i hi
    simp [encode_volLab p hi]
  have htype : (Vector.ofFn fun i : Fin 8 => p.encode (48 + i)) = p.filSysType := by
    ext i hi
    simp [encode_filSysType p hi]
  have hbps : le16 p.encode 8 = p.bytsPerSec.toNat := le16_put p.bytsPerSec.toNat_lt rfl rfl
  have hres : le16 p.encode 12 = p.resvdSecCnt.toNat := le16_put p.resvdSecCnt.toNat_lt rfl rfl
  have hfsz : le16 p.encode 14 = p.fatSz16.toNat := le16_put p.fatSz16.toNat_lt rfl rfl
  have hroot : le16 p.encode 56 = p.rootClus.toNat := le16_put p.rootClus.toNat_lt rfl rfl
  have hhid : le32 p.encode 16 = p.hiddSec.toNat :=
    le32_put p.hiddSec.toNat_lt fun i hi => by interval_cases i <;> rfl
  have htot : le32 p.encode 20 = p.totSec.toNat :=
    le32_put p.totSec.toNat_lt fun i hi => by interval_cases i <;> rfl
  have hvid : le32 p.encode 24 = p.volID.toNat :=
    le32_put p.volID.toNat_lt fun i hi => by interval_cases i <;> rfl
  have hflg : le32 p.encode 28 = p.flags.toNat :=
    le32_put p.flags.toNat_lt fun i hi => by interval_cases i <;> rfl
  have hspc : p.encode 10 = p.secPerClus := rfl
  have hnum : p.encode 11 = p.numFATs := rfl
  simp only [decode, hoem, hlab, htype, hbps, hres, hfsz, hroot, hhid, htot, hvid, hflg, hspc,
    hnum, UInt16.ofNat_toNat, UInt32.ofNat_toNat]

end ParameterBlock

def FLAG_MOUNTED : Nat := 0x1

/-- `struct FATVolume`.  The context is the media itself, and the cluster
buffer is left out: every use of it is preceded by a read that fills it. -/
structure FATVolume where
  pb : ParameterBlock
  fat : Nat → UInt16
  firstSector : Nat
  firstDataSector : Nat
  countOfClusters : Nat
  dataSectors : Nat
  bytesPerCluster : Nat
  fatSize : Nat
  fatEntriesPerSec : Nat
  flags : Nat
  ctx : Disk
  lastFreeFATEntry : Nat

end DiegOS.Fat
