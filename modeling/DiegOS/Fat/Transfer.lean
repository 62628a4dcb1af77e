import DiegOS.Fat.Directory

/-!
# Reading and writing files

`FAT_read` and `FAT_write`.  Both split a request into a head inside
the first cluster, whole clusters, and a tail inside the last one.  The running
buffer pointer is an offset into the caller's memory; the sector variable of the
source always is the first sector of the current cluster.
-/

namespace DiegOS.Fat

open Lib

/-! ## Reading -/

/-- What a call of `FAT_read` leaves behind. -/
structure ReadOut where
  vol : FATVolume
  ret : Int
  readlen : Nat
  buffer : Bytes

/-- The final read of a part of one cluster. -/
def readTail (vol : FATVolume) (cluster : Nat) (buffer : Bytes) (bufpos buflen readlen : Nat) :
    ReadOut :=
  if buflen = 0 then ⟨vol, 0, readlen, buffer⟩
  else if !fatClusterIsReadable cluster then
    ⟨vol, if fatClusterIsEOC cluster then 0 else -1, readlen, buffer⟩
  else
    match volReadC vol (fatFSoC vol cluster) with
    | none => ⟨vol, -1, readlen, buffer⟩
    | some data => ⟨vol, 0, readlen + buflen, memcpy buffer bufpos data 0 buflen⟩

/-- The loop over whole clusters; a pass shortens the rest of the request, which bounds
the passes. -/
def readLoop (vol : FATVolume) : Nat → Nat → Bytes → Nat → Nat → Nat → ReadOut
  | 0, cluster, buffer, bufpos, buflen, readlen => readTail vol cluster buffer bufpos buflen readlen
  | fuel + 1, cluster, buffer, bufpos, buflen, readlen =>
    if buflen < vol.bytesPerCluster then readTail vol cluster buffer bufpos buflen readlen
    else if !fatClusterIsReadable cluster then
      ⟨vol, if fatClusterIsEOC cluster then 0 else -1, readlen, buffer⟩
    else
      match volReadC vol (fatFSoC vol cluster) with
      | none => ⟨vol, -1, readlen, buffer⟩
      | some data =>
        readLoop vol fuel (fatGetClusterFromTable vol cluster)
          (memcpy buffer bufpos data 0 vol.bytesPerCluster) (bufpos + vol.bytesPerCluster)
          (buflen - vol.bytesPerCluster) (readlen + vol.bytesPerCluster)

/-- `FAT_read` from the first cluster on: the head, then the loop.  The buffer pointer
advances behind the head by the minimum taken after `buflen` was reduced, as the
source computes it. -/
def readClusters (vol : FATVolume) (cluster offset : Nat) (buffer : Bytes) (buflen : Nat) :
    ReadOut :=
  if offset % vol.bytesPerCluster ≠ 0 then
    match volReadC vol (fatFSoC vol cluster) with
    | none => ⟨vol, -1, 0, buffer⟩
    | some data =>
      let offset := offset % vol.bytesPerCluster
      let head := min buflen (vol.bytesPerCluster - offset)
      let buffer := memcpy buffer 0 data offset head
      let buflen := buflen - head
      if buflen = 0 then ⟨vol, 0, head, buffer⟩
      else
        readLoop vol buflen (fatGetClusterFromTable vol cluster) buffer
          (min buflen (vol.bytesPerCluster - offset)) buflen head
  else readLoop vol buflen cluster buffer 0 buflen 0

def fatRead (vol : FATVolume) (entryname : List UInt8) (offset : Nat) (buffer : Bytes)
    (buflen readlen : Nat) (now : Tm) (junk : SearchResult) : ReadOut :=
  if buflen = 0 then ⟨vol, -1, readlen, buffer⟩
  else
    match fatSearchDIREntry vol entryname junk with
    | none => ⟨vol, -1, 0, buffer⟩
    | some search =>
      if search.entry.hasAttr (ATTR_DIRECTORY ||| ATTR_VOLUME_ID) then ⟨vol, -1, 0, buffer⟩
      else if search.entry.size ≤ offset then ⟨vol, 0, 0, buffer⟩
      else
        let buflen :=
          if search.entry.size - offset < buflen then search.entry.size - offset else buflen
        let cluster := fatLookupFATTable vol search.entry offset
        if !fatClusterIsReadable cluster then ⟨vol, -1, 0, buffer⟩
        else
          let (vol, err) := fatWriteDIREntry vol
            { search with entry := fatUpdateTimestamps search.entry .read now }
          if err ≠ 0 then ⟨vol, -1, 0, buffer⟩
          else readClusters vol cluster offset buffer buflen

/-! ## Writing -/

/-- What a call of `FAT_write` leaves behind. -/
structure WriteOut where
  vol : FATVolume
  ret : Int
  writelen : Nat

/-- `FAT_write_update_on_disk`: record the size, flush the table if the chain has
grown, stamp and store the entry; failures of the two writes are not reported. -/
def fatWriteUpdateOnDisk (appended : Int) (filepos : Nat) (vol : FATVolume)
    (direntry : SearchResult) (now : Tm) : FATVolume :=
  let entry :=
    if direntry.entry.size < filepos then
      { direntry.entry with dirFileSize := UInt32.ofNat filepos }
    else direntry.entry
  let vol := if appended ≠ 0 then (fatWriteFATTable vol).1 else vol
  (fatWriteDIREntry vol { direntry with entry := fatUpdateTimestamps entry .write now }).1

/-- A grown chain, as `get_first` and `get_next` report it. -/
def appendedResult (r : FATVolume × Option Nat) : FATVolume × Int × Nat :=
  match r with
  | (vol, none) => (vol, -1, 0)
  | (vol, some cluster) => (vol, 1, cluster)

def fatWriteGetFirst (filepos : Nat) (vol : FATVolume) (entry : DirEntry) :
    FATVolume × Int × Nat :=
  let cluster := fatLookupFATTable vol entry filepos
  if fatClusterIsFREE cluster then appendedResult (fatAppendClusterChain vol 0)
  else if fatClusterIsEOC cluster then appendedResult (fatAppendClusterChain vol entry.clus)
  else if fatClusterIsBAD cluster then (vol, -1, 0)
  else (vol, 0, cluster)

def fatWriteGetNext (cluster : Nat) (vol : FATVolume) : FATVolume × Int × Nat :=
  let content := fatGetClusterFromTable vol cluster
  if fatClusterIsEOC content then appendedResult (fatAppendClusterChain vol cluster)
  else if fatClusterIsBAD content ∨ fatClusterIsFREE content then (vol, -1, 0)
  else (vol, 0, content)

/-- The running variables of `FAT_write`. -/
structure WriteState where
  vol : FATVolume
  cluster : Nat
  appended : Int
  bufpos : Nat
  buflen : Nat
  filepos : Nat
  writelen : Nat

section Write

variable (search : SearchResult) (buffer : Bytes) (origbuflen : Nat) (now : Tm)

/-- The exit that reports a failure after recording what was written. -/
def writeFail (st : WriteState) : WriteOut :=
  ⟨fatWriteUpdateOnDisk st.appended st.filepos st.vol search now, -1, st.writelen⟩

/-- The successful exit. -/
def writeDone (st : WriteState) : WriteOut :=
  ⟨fatWriteUpdateOnDisk st.appended st.filepos st.vol search now, 0, origbuflen⟩

/-- The final write of a part of one cluster. -/
def writeTail (st : WriteState) : WriteOut :=
  if st.buflen = 0 then writeDone search origbuflen now st
  else
    match volReadC st.vol (fatFSoC st.vol st.cluster) with
    | none => writeFail search now st
    | some data =>
      let data := memcpy data 0 buffer st.bufpos st.buflen
      let data :=
        if st.appended ≠ 0 then
          memset data st.buflen 0 (st.vol.bytesPerCluster - st.buflen)
        else data
      match volWriteC st.vol (fatFSoC st.vol st.cluster) data with
      | none => writeFail search now st
      | some vol =>
        writeDone search origbuflen now
          { st with vol := vol, filepos := (st.filepos + st.buflen) % 2 ^ 32 }

/-- Step to the next cluster of the chain, growing it if needed, and go on there. -/
def writeNext (st : WriteState) (go : WriteState → WriteOut) : WriteOut :=
  let (vol, appended, cluster) := fatWriteGetNext st.cluster st.vol
  let st := { st with vol := vol, appended := appended }
  if appended < 0 then writeFail search now st
  else go { st with cluster := cluster }

/-- The loop over whole clusters. -/
def writeLoop : Nat → WriteState → WriteOut
  | 0, st => writeTail search buffer origbuflen now st
  | fuel + 1, st =>
    if st.buflen < st.vol.bytesPerCluster then writeTail search buffer origbuflen now st
    else
      match volWriteC st.vol (fatFSoC st.vol st.cluster) (shift buffer st.bufpos) with
      | none => writeFail search now st
      | some vol =>
        let buflen := st.buflen - vol.bytesPerCluster
        let st := { st with
          vol := vol
          filepos := (st.filepos + vol.bytesPerCluster) % 2 ^ 32
          bufpos := st.bufpos + vol.bytesPerCluster
          buflen := buflen
          writelen := origbuflen - buflen }
        if st.buflen = 0 then writeTail search buffer origbuflen now st
        else writeNext search now st (writeLoop fuel)

/-- The head inside the first cluster, when the offset is not aligned. -/
def writeHead (offset : Nat) (st : WriteState) : WriteOut :=
  match volReadC st.vol (fatFSoC st.vol st.cluster) with
  | none => ⟨st.vol, -1, st.writelen⟩
  | some data =>
    let offset := offset % st.vol.bytesPerCluster
    let head := min st.buflen (st.vol.bytesPerCluster - offset)
    match volWriteC st.vol (fatFSoC st.vol st.cluster)
        (memcpy data offset buffer st.bufpos head) with
    | none => ⟨st.vol, -1, st.writelen⟩
    | some vol =>
      let buflen := st.buflen - head
      let st := { st with
        vol := vol
        bufpos := st.bufpos + head
        filepos := (st.filepos + head) % 2 ^ 32
        buflen := buflen
        writelen := origbuflen - buflen }
      if st.buflen = 0 then
        ⟨fatWriteUpdateOnDisk st.appended st.filepos st.vol search now, 0, st.writelen⟩
      else
        writeNext search now st
          (writeLoop search buffer origbuflen now st.buflen)

end Write

def fatWrite (vol : FATVolume) (entryname : List UInt8) (offset : Nat) (buffer : Bytes)
    (buflen writelen : Nat) (now : Tm) (junk : SearchResult) : WriteOut :=
  if buflen = 0 then ⟨vol, -1, writelen⟩
  else
    match fatSearchDIREntry vol entryname junk with
    | none => ⟨vol, -1, 0⟩
    | some search =>
      if search.entry.hasAttr
          (ATTR_DIRECTORY ||| ATTR_READ_ONLY ||| ATTR_LINK ||| ATTR_VOLUME_ID) then ⟨vol, -1, 0⟩
      else if search.entry.size < offset then ⟨vol, -1, 0⟩
      else
        let (vol, appended, cluster) := fatWriteGetFirst offset vol search.entry
        if appended < 0 then ⟨vol, -1, 0⟩
        else
          let search :=
            if 0 < appended ∧ offset < vol.bytesPerCluster then
              { search with entry := { search.entry with dirFstClus := UInt16.ofNat cluster } }
            else search
          let st : WriteState := ⟨vol, cluster, appended, 0, buflen, offset, 0⟩
          if offset % vol.bytesPerCluster ≠ 0 then writeHead search buffer buflen now offset st
          else writeLoop search buffer buflen now buflen st

end DiegOS.Fat
