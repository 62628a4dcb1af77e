import DiegOS.Fat.Operations
import DiegOS.Fat.Transfer

/-!
# Calls with failing requests

`FAT_create_entry`, `FAT_create_link` and `FAT_write` once more, on a media whose
requests fail in any pattern in time.  A pattern names the requests of a call by
their place in the source and their number there, so that one sector can be read
once and not be read again later.  Everything else is as in the operations they
are copies of; with the pattern in which nothing fails they are the same
functions.

Main results:

- Theorem `fatWriteUnder_none`: without failing requests a write is the operation.
-/

namespace DiegOS.Fat

open Lib

/-- Which requests of a call fail: the reads of directory clusters, the writes of the table
when a directory grows, the accesses to other clusters, the final writes of the table, and the
two requests for the sector of the entry. -/
structure FaultPattern where
  lookup : Nat → Bool
  growth : Nat → Bool
  cluster : Nat → Bool
  table : Nat → Bool
  slotRead : Bool
  slotWrite : Bool

/-- Nothing fails. -/
def FaultPattern.none : FaultPattern where
  lookup := fun _ => false
  growth := fun _ => false
  cluster := fun _ => false
  table := fun _ => false
  slotRead := false
  slotWrite := false

/-- The answer to a request that may fail. -/
def served {α : Type} (fails : Bool) (answer : Option α) : Option α :=
  if fails then .none else answer

/-- Without a failure the answer is the medium's. -/
@[simp]
lemma served_false {α : Type} (answer : Option α) : served false answer = answer := rfl

/-- A failing request has no answer. -/
@[simp]
lemma served_true {α : Type} (answer : Option α) : served true answer = .none := rfl

section Under

variable (p : FaultPattern)

/-! ## Lookups -/

/-- Scan the clusters of a directory; `n` is the number of the next read. -/
def scanDirectoryUnder (vol : FATVolume) (fn : Bytes → Nat → Nat → Nat) (result : SearchResult) :
    List Nat → Nat → Option SearchResult × Nat
  | [], n => (.none, n)
  | cluster :: rest, n =>
    match served (p.lookup n) (fatDirForeach vol fn result cluster) with
    | some found => (some found, n + 1)
    | .none => scanDirectoryUnder vol fn result rest (n + 1)

/-- The loop of `FAT_search_DIR_entry` over the split names. -/
def searchSplitsUnder (vol : FATVolume) :
    List DirName → Nat → Bool → SearchResult → Nat → Nat → Option SearchResult × Nat
  | [], _, _, entryfound, contcluster, n => (some { entryfound with container := contcluster }, n)
  | name :: rest, cluster, found, entryfound, _, n =>
    let scan := scanDirectoryUnder p vol (fatSearchLoop name) entryfound (chainOf vol cluster) n
    let found := if fatClusterIsEOC cluster then found else scan.1.isSome
    let entryfound := scan.1.getD entryfound
    if !found then (.none, scan.2)
    else if rest ≠ [] ∧ !entryfound.entry.hasAttr ATTR_DIRECTORY then (.none, scan.2)
    else
      searchSplitsUnder vol rest entryfound.entry.clus true entryfound entryfound.entry.clus scan.2

/-- `FAT_search_DIR_entry`. -/
def fatSearchDIREntryUnder (vol : FATVolume) (directory : List UInt8) (junk : SearchResult) :
    Option SearchResult × Nat :=
  if directory.length = 0 ∨ FILENAME_MAX < directory.length then (.none, 0)
  else
    match fatParseDirectory directory with
    | .none => (.none, 0)
    | some names =>
      searchSplitsUnder p vol names vol.pb.rootClus.toNat false junk vol.pb.rootClus.toNat 0

/-- The common first half of `FAT_create_entry` and `FAT_create_link`. -/
def locateEntryUnder (vol : FATVolume) (path : List UInt8) (junk : Junk) : Option Located :=
  let pos := fatParseDirectoryLast path path.length
  if DIR_NAMELEN < path.length - pos - 1 then .none
  else
    let container :=
      if pos = 0 then (some vol.pb.rootClus.toNat, 0)
      else
        let search := fatSearchDIREntryUnder p vol (path.take pos) junk.search
        (search.1.map (·.entry.clus), search.2)
    match container.1, fatBuildDIRName (path.drop (pos + 1)) with
    | some dir, some name =>
      let twin := scanDirectoryUnder p vol (fatSearchLoop name) junk.create (chainOf vol dir)
        container.2
      if twin.1.isSome then .none
      else
        some ⟨name, dir, (scanDirectoryUnder p vol fatSearchFreeLoop junk.create
          (chainOf vol dir) twin.2).1⟩
    | _, _ => .none

/-! ## Tables and entries -/

/-- The loop of `FAT_write_FAT_table` over the copies; `n` is the number of the next
write. -/
def writeFATLoopUnder (fails : Nat → Bool) : Nat → FATVolume → Nat → Nat → FATVolume × Int
  | 0, vol, _, _ => (vol, 0)
  | m + 1, vol, sec, n =>
    match served (fails n) (volWrite vol sec vol.pb.fatSz16.toNat vol.fatBytes) with
    | .none => (vol, -1)
    | some vol => writeFATLoopUnder fails m vol (sec + vol.pb.fatSz16.toNat) (n + 1)

/-- `FAT_write_FAT_table`. -/
def fatWriteFATTableUnder (fails : Nat → Bool) (vol : FATVolume) (n : Nat) : FATVolume × Int :=
  writeFATLoopUnder fails vol.pb.numFATs.toNat vol vol.pb.resvdSecCnt.toNat n

/-- `FAT_write_DIR_entry`, and the end of the creating operations. -/
def fatWriteDIREntryUnder (vol : FATVolume) (entry : SearchResult) : FATVolume × Int :=
  match served p.slotRead (volRead vol entry.sector 1) with
  | .none => (vol, -1)
  | some buf =>
    match served p.slotWrite (volWrite vol entry.sector 1
        (memcpy buf (entrySize * entry.offset) entry.entry.encode 0 entrySize)) with
    | .none => (vol, -1)
    | some vol => (vol, 0)

/-! ## The creating operations -/

/-- The branch taken when the container has no free entry. -/
def growDirectoryUnder (vol : FATVolume) (dir cluster : Nat) (junk : Junk) :
    FATVolume × Option SearchResult :=
  let (fatCluster, vol) := fatGetFreeClusterFromTable vol
  if fatCluster = 0 then (vol, .none)
  else
    match fatSetClusterIntoTable vol cluster fatCluster with
    | .none => (vol, .none)
    | some vol =>
      match fatSetEOCIntoTable vol fatCluster with
      | .none => ((fatSetEOCIntoTable vol cluster).getD vol, .none)
      | some vol =>
        let (vol, err) := fatWriteFATTableUnder p.growth vol 0
        if err ≠ 0 then (vol, .none)
        else
          let entryfound :=
            { junk.create with sector := fatFSoC vol cluster, offset := 0, container := dir }
          let (vol, err) := fatWriteFATTableUnder p.growth vol vol.pb.numFATs.toNat
          if err ≠ 0 then (vol, .none) else (vol, some entryfound)

/-- The entry to fill. -/
def placeEntryUnder (vol : FATVolume) (loc : Located) (junk : Junk) :
    FATVolume × Option SearchResult :=
  match loc.slot with
  | some slot => (vol, some slot)
  | .none => growDirectoryUnder p vol loc.dir (chainStop vol loc.dir) junk

/-- The common second half for entries that own a cluster from the start. -/
def storeWithClusterUnder (vol : FATVolume) (place : SearchResult) (entry : DirEntry)
    (buffer : DirEntry → Bytes) : FATVolume × Int :=
  let (fatCluster, vol) := fatGetFreeClusterFromTable vol
  if fatCluster = 0 then (vol, -1)
  else
    let entry := { entry with dirFstClus := UInt16.ofNat fatCluster }
    match served (p.cluster 0) (volWriteC vol (fatFSoC vol fatCluster) (buffer entry)) with
    | .none => (vol, -1)
    | some vol =>
      let vol := (fatSetEOCIntoTable vol fatCluster).getD vol
      let vol := (fatWriteFATTableUnder p.table vol 0).1
      fatWriteDIREntryUnder p vol { place with entry := entry }

/-- `FAT_create_entry`. -/
def fatCreateEntryUnder (vol : FATVolume) (entryname : List UInt8) (attributes : UInt8)
    (now : Tm) (junk : Junk) : FATVolume × Int :=
  if entryname.length < 2 ∨ entryname.getD 0 0 ≠ separator then (vol, -1)
  else if fatCheckAttrib attributes ≠ 0 ∨ attributes &&& ATTR_LINK ≠ 0 then (vol, -1)
  else
    match locateEntryUnder p vol entryname junk with
    | .none => (vol, -1)
    | some loc =>
      match placeEntryUnder p vol loc junk with
      | (vol, .none) => (vol, -1)
      | (vol, some place) =>
        let entry := newEntry loc.name attributes 0 now
        if attributes &&& ATTR_DIRECTORY ≠ 0 then
          storeWithClusterUnder p vol place entry fun e => directoryBuffer e place.container
        else fatWriteDIREntryUnder p vol { place with entry := entry }

/-- `FAT_create_link`. -/
def fatCreateLinkUnder (vol : FATVolume) (linkname entryname : List UInt8) (now : Tm)
    (junk : Junk) (overrun : FATVolume × Int) : FATVolume × Int :=
  if linkname.length < 2 ∨ PATH_MAX < linkname.length ∨ linkname.getD 0 0 ≠ separator then
    (vol, -1)
  else if entryname.length < 2 ∨ PATH_MAX < entryname.length ∨
      entryname.getD 0 0 ≠ separator then (vol, -1)
  else
    match locateEntryUnder p vol linkname junk with
    | .none => (vol, -1)
    | some loc =>
      match placeEntryUnder p vol loc junk with
      | (vol, .none) => (vol, -1)
      | (vol, some place) =>
        if copiesBeyond vol entryname then overrun
        else
          storeWithClusterUnder p vol place (newEntry loc.name ATTR_LINK entryname.length now)
            fun _ => ofList entryname

/-! ## Writing -/

/-- `FAT_write_update_on_disk`. -/
def fatWriteUpdateOnDiskUnder (appended : Int) (filepos : Nat) (vol : FATVolume)
    (direntry : SearchResult) (now : Tm) : FATVolume :=
  let entry :=
    if direntry.entry.size < filepos then
      { direntry.entry with dirFileSize := UInt32.ofNat filepos }
    else direntry.entry
  let vol := if appended ≠ 0 then (fatWriteFATTableUnder p.table vol 0).1 else vol
  (fatWriteDIREntryUnder p vol
    { direntry with entry := fatUpdateTimestamps entry .write now }).1

variable (search : SearchResult) (buffer : Bytes) (origbuflen : Nat) (now : Tm)

/-- The exit that reports a failure after recording what was written. -/
def writeFailUnder (st : WriteState) : WriteOut :=
  ⟨fatWriteUpdateOnDiskUnder p st.appended st.filepos st.vol search now, -1, st.writelen⟩

/-- The successful exit. -/
def writeDoneUnder (st : WriteState) : WriteOut :=
  ⟨fatWriteUpdateOnDiskUnder p st.appended st.filepos st.vol search now, 0, origbuflen⟩

/-- The final write of a part of one cluster; `n` is the number of the next access. -/
def writeTailUnder (n : Nat) (st : WriteState) : WriteOut :=
  if st.buflen = 0 then writeDoneUnder p search origbuflen now st
  else
    match served (p.cluster n) (volReadC st.vol (fatFSoC st.vol st.cluster)) with
    | .none => writeFailUnder p search now st
    | some data =>
      let data := memcpy data 0 buffer st.bufpos st.buflen
      let data :=
        if st.appended ≠ 0 then
          memset data st.buflen 0 (st.vol.bytesPerCluster - st.buflen)
        else data
      match served (p.cluster (n + 1)) (volWriteC st.vol (fatFSoC st.vol st.cluster) data) with
      | .none => writeFailUnder p search now st
      | some vol =>
        writeDoneUnder p search origbuflen now
          { st with vol := vol, filepos := (st.filepos + st.buflen) % 2 ^ 32 }

/-- Step to the next cluster of the chain, growing it if needed, and go on there. -/
def writeNextUnder (st : WriteState) (go : WriteState → WriteOut) : WriteOut :=
  let (vol, appended, cluster) := fatWriteGetNext st.cluster st.vol
  let st := { st with vol := vol, appended := appended }
  if appended < 0 then writeFailUnder p search now st
  else go { st with cluster := cluster }

/-- The loop over whole clusters. -/
def writeLoopUnder : Nat → Nat → WriteState → WriteOut
  | 0, n, st => writeTailUnder p search buffer origbuflen now n st
  | fuel + 1, n, st =>
    if st.buflen < st.vol.bytesPerCluster then writeTailUnder p search buffer origbuflen now n st
    else
      match served (p.cluster n)
          (volWriteC st.vol (fatFSoC st.vol st.cluster) (shift buffer st.bufpos)) with
      | .none => writeFailUnder p search now st
      | some vol =>
        let buflen := st.buflen - vol.bytesPerCluster
        let st := { st with
          vol := vol
          filepos := (st.filepos + vol.bytesPerCluster) % 2 ^ 32
          bufpos := st.bufpos + vol.bytesPerCluster
          buflen := buflen
          writelen := origbuflen - buflen }
        if st.buflen = 0 then writeTailUnder p search buffer origbuflen now (n + 1) st
        else writeNextUnder p search now st (writeLoopUnder fuel (n + 1))

/-- The head inside the first cluster, when the offset is not aligned. -/
def writeHeadUnder (offset : Nat) (st : WriteState) : WriteOut :=
  match served (p.cluster 0) (volReadC st.vol (fatFSoC st.vol st.cluster)) with
  | .none => ⟨st.vol, -1, st.writelen⟩
  | some data =>
    let offset := offset % st.vol.bytesPerCluster
    let head := min st.buflen (st.vol.bytesPerCluster - offset)
    match served (p.cluster 1) (volWriteC st.vol (fatFSoC st.vol st.cluster)
        (memcpy data offset buffer st.bufpos head)) with
    | .none => ⟨st.vol, -1, st.writelen⟩
    | some vol =>
      let buflen := st.buflen - head
      let st := { st with
        vol := vol
        bufpos := st.bufpos + head
        filepos := (st.filepos + head) % 2 ^ 32
        buflen := buflen
        writelen := origbuflen - buflen }
      if st.buflen = 0 then
        ⟨fatWriteUpdateOnDiskUnder p st.appended st.filepos st.vol search now, 0, st.writelen⟩
      else
        writeNextUnder p search now st
          (writeLoopUnder p search buffer origbuflen now st.buflen 2)

end Under

/-- `FAT_write`. -/
def fatWriteUnder (p : FaultPattern) (vol : FATVolume) (entryname : List UInt8) (offset : Nat)
    (buffer : Bytes) (buflen writelen : Nat) (now : Tm) (junk : SearchResult) : WriteOut :=
  if buflen = 0 then ⟨vol, -1, writelen⟩
  else
    match (fatSearchDIREntryUnder p vol entryname junk).1 with
    | .none => ⟨vol, -1, 0⟩
    | some search =>
      if search.entry.hasAttr
          (ATTR_DIRECTORY ||| ATTR_READ_ONLY ||| ATTR_LINK ||| ATTR_VOLUME_ID) then ⟨vol, -1, 0⟩
      else if search.entry.size < offset then ⟨vol, -1, 0⟩
      else
        let (vol, appended, cluster) := fatWriteGetFirst offset vol search.entry
        if appended < 0 then ⟨vol, -1, 0⟩
        else
          let search :=
            if 0 < appended ∧ offset < vol.bytesPerCluster then
              { search with entry := { search.entry with dirFstClus := UInt16.ofNat cluster } }
            else search
          let st : WriteState := ⟨vol, cluster, appended, 0, buflen, offset, 0⟩
          if offset % vol.bytesPerCluster ≠ 0 then
            writeHeadUnder p search buffer buflen now offset st
          else writeLoopUnder p search buffer buflen now buflen 0 st

/-! ## Without failing requests -/

section None

variable (vol : FATVolume)

/-- The walk through the clusters of a directory without failing requests. -/
lemma scanDirectoryUnder_none (fn : Bytes → Nat → Nat → Nat) (result : SearchResult)
    (cluster n : Nat) :
    (scanDirectoryUnder .none vol fn result (chainOf vol cluster) n).1 =
      scanDirectory vol fn result cluster := by
  rw [scanDirectory]
  induction chainOf vol cluster generalizing n with
  | nil => rfl
  | cons cluster l ih =>
    rw [scanDirectoryUnder, List.findSome?_cons]
    cases fatDirForeach vol fn result cluster with
    | some found => rfl
    | none => exact ih (n + 1)

/-- The search of the names of a path without failing requests. -/
lemma searchSplitsUnder_none (names : List DirName) (cluster : Nat) (found : Bool)
    (entryfound : SearchResult) (cont n : Nat) :
    (searchSplitsUnder .none vol names cluster found entryfound cont n).1 =
      searchSplits vol names cluster found entryfound cont := by
  induction names generalizing cluster found entryfound cont n with
  | nil => rfl
  | cons name rest ih =>
    rw [searchSplitsUnder, searchSplits]
    simp only [scanDirectoryUnder_none, apply_ite Prod.fst, ih]

/-- `FAT_search_DIR_entry` without failing requests. -/
lemma fatSearchDIREntryUnder_none (directory : List UInt8) (junk : SearchResult) :
    (fatSearchDIREntryUnder .none vol directory junk).1 = fatSearchDIREntry vol directory junk := by
  rw [fatSearchDIREntryUnder, fatSearchDIREntry]
  split
  · rfl
  · cases fatParseDirectory directory with
    | none => rfl
    | some names => exact searchSplitsUnder_none vol names _ _ _ _ _

/-- The copies of the table without failing requests. -/
lemma writeFATLoopUnder_none (m : Nat) (sec n : Nat) :
    writeFATLoopUnder (fun _ => false) m vol sec n = writeFATLoop m vol sec := by
  induction m generalizing vol sec n with
  | zero => rfl
  | succ m ih =>
    rw [writeFATLoopUnder, writeFATLoop, served_false]
    cases volWrite vol sec vol.pb.fatSz16.toNat vol.fatBytes with
    | none => rfl
    | some vol => exact ih vol _ _

/-- `FAT_write_FAT_table` without failing requests. -/
lemma fatWriteFATTableUnder_none (n : Nat) :
    fatWriteFATTableUnder (fun _ => false) vol n = fatWriteFATTable vol :=
  writeFATLoopUnder_none vol _ _ n

/-- `FAT_write_DIR_entry` without failing requests. -/
lemma fatWriteDIREntryUnder_none (entry : SearchResult) :
    fatWriteDIREntryUnder .none vol entry = fatWriteDIREntry vol entry := rfl

/-- `FAT_write_update_on_disk` without failing requests. -/
lemma fatWriteUpdateOnDiskUnder_none (appended : Int) (filepos : Nat) (direntry : SearchResult)
    (now : Tm) : fatWriteUpdateOnDiskUnder .none appended filepos vol direntry now =
      fatWriteUpdateOnDisk appended filepos vol direntry now := by
  unfold fatWriteUpdateOnDiskUnder fatWriteUpdateOnDisk
  simp only [fatWriteDIREntryUnder_none]
  simp only [FaultPattern.none, fatWriteFATTableUnder_none]

variable (search : SearchResult) (buffer : Bytes) (origbuflen : Nat) (now : Tm)

/-- The tail of a write without failing requests. -/
lemma writeTailUnder_none (n : Nat) (st : WriteState) :
    writeTailUnder .none search buffer origbuflen now n st =
      writeTail search buffer origbuflen now st := by
  unfold writeTailUnder writeTail writeDoneUnder writeDone writeFailUnder writeFail
  simp only [fatWriteUpdateOnDiskUnder_none]
  simp only [FaultPattern.none, served_false] <;> rfl

/-- The step to the next cluster without failing requests. -/
lemma writeNextUnder_none (st : WriteState) (go : WriteState → WriteOut) :
    writeNextUnder .none search now st go = writeNext search now st go := by
  unfold writeNextUnder writeNext writeFailUnder writeFail
  simp only [fatWriteUpdateOnDiskUnder_none]

/-- The whole clusters of a write without failing requests, by induction on the fuel. -/
lemma writeLoopUnder_none (fuel n : Nat) :
    writeLoopUnder .none search buffer origbuflen now fuel n =
      writeLoop search buffer origbuflen now fuel := by
  induction fuel generalizing n with
  | zero =>
    ext1 st
    exact writeTailUnder_none search buffer origbuflen now n st
  | succ fuel ih =>
    ext1 st
    rw [writeLoopUnder, writeLoop]
    simp only [writeTailUnder_none, writeNextUnder_none, ih, writeFailUnder, writeFail,
      fatWriteUpdateOnDiskUnder_none]
    simp only [FaultPattern.none, served_false] <;> rfl

/-- `FAT_write` without failing requests. -/
theorem fatWriteUnder_none (entryname : List UInt8) (offset buflen writelen : Nat)
    (junk : SearchResult) :
    fatWriteUnder .none vol entryname offset buffer buflen writelen now junk =
      fatWrite vol entryname offset buffer buflen writelen now junk := by
  unfold fatWriteUnder fatWrite writeHeadUnder writeHead
  simp only [fatSearchDIREntryUnder_none, writeLoopUnder_none, writeNextUnder_none,
    fatWriteUpdateOnDiskUnder_none]
  simp only [FaultPattern.none, served_false] <;> rfl

end None

end DiegOS.Fat
