import DiegOS.Fat.Directory

/-!
# Entry operations

The public operations of `fat.c` that create, link, rename, truncate and
delete directory entries, and the count of free clusters.  Every operation
returns the volume it leaves behind together with its return code; a failing
exit keeps what was done before it.

Two local structures of `FAT_create_entry` and `FAT_create_link` are
read before they are filled.  What they hold then is an input of the model, the
`Junk` of a call.
-/

namespace DiegOS.Fat

open Lib

/-- `FAT_get_entry`.  On a failure the source clears the entry. -/
def fatGetEntry (vol : FATVolume) (entryname : List UInt8) (junk : SearchResult) :
    Option DirEntry :=
  if entryname.length = 0 then none
  else
    match fatSearchDIREntry vol entryname junk with
    | none => none
    | some search => if 0 < fatCheckDIREntry search.entry then some search.entry else none

/-- What the stack holds in the uninitialised result structures of a call. -/
structure Junk where
  search : SearchResult
  create : SearchResult

/-- Outcome of the common first half of the two creating operations: the padded name, the
first cluster of the container, and the first free entry if there is one. -/
structure Located where
  name : DirName
  dir : Nat
  slot : Option SearchResult

/-- The common first half of `FAT_create_entry` and `FAT_create_link`: find the
container, build the name, refuse a duplicate, look for a free entry. -/
def locateEntry (vol : FATVolume) (path : List UInt8) (junk : Junk) : Option Located :=
  let pos := fatParseDirectoryLast path path.length
  if DIR_NAMELEN < path.length - pos - 1 then none
  else
    let container :=
      if pos = 0 then some vol.pb.rootClus.toNat
      else (fatSearchDIREntry vol (path.take pos) junk.search).map (·.entry.clus)
    match container, fatBuildDIRName (path.drop (pos + 1)) with
    | some dir, some name =>
      if (scanDirectory vol (fatSearchLoop name) junk.create dir).isSome then none
      else some ⟨name, dir, scanDirectory vol fatSearchFreeLoop junk.create dir⟩
    | _, _ => none

/-- The branch taken when the container has no free entry.  `cluster` is the
end-of-chain value the search stopped at, not the last cluster of the container. -/
def growDirectory (vol : FATVolume) (dir cluster : Nat) (junk : Junk) :
    FATVolume × Option SearchResult :=
  let (fatCluster, vol) := fatGetFreeClusterFromTable vol
  if fatCluster = 0 then (vol, none)
  else
    match fatSetClusterIntoTable vol cluster fatCluster with
    | none => (vol, none)
    | some vol =>
      match fatSetEOCIntoTable vol fatCluster with
      | none => ((fatSetEOCIntoTable vol cluster).getD vol, none)
      | some vol =>
        let (vol, err) := fatWriteFATTable vol
        if err ≠ 0 then (vol, none)
        else
          let entryfound :=
            { junk.create with sector := fatFSoC vol cluster, offset := 0, container := dir }
          let (vol, err) := fatWriteFATTable vol
          if err ≠ 0 then (vol, none) else (vol, some entryfound)

/-- The entry to fill: the free one, or the first one of a new cluster. -/
def placeEntry (vol : FATVolume) (loc : Located) (junk : Junk) :
    FATVolume × Option SearchResult :=
  match loc.slot with
  | some slot => (vol, some slot)
  | none => growDirectory vol loc.dir (chainStop vol loc.dir) junk

/-- A cleared entry with its name, attributes and creation stamps. -/
def newEntry (name : DirName) (attributes : UInt8) (size : Nat) (now : Tm) : DirEntry :=
  fatUpdateTimestamps
    { dirName := name, dirAttr := attributes, dirFstClus := 0
      dirAccDate := zeroDate, dirCrtDate := zeroDate, dirWrtDate := zeroDate
      dirAccTime := zeroTime, dirCrtTime := zeroTime, dirWrtTime := zeroTime
      dirFileSize := UInt32.ofNat size } .create now

@[simp]
lemma newEntry_dirName (name : DirName) (attributes : UInt8) (size : Nat) (now : Tm) :
    (newEntry name attributes size now).dirName = name := by
  simp [newEntry]

@[simp]
lemma newEntry_dirAttr (name : DirName) (attributes : UInt8) (size : Nat) (now : Tm) :
    (newEntry name attributes size now).dirAttr = attributes := by
  simp [newEntry]

@[simp]
lemma newEntry_dirFstClus (name : DirName) (attributes : UInt8) (size : Nat) (now : Tm) :
    (newEntry name attributes size now).dirFstClus = 0 := by
  simp [newEntry]

@[simp]
lemma newEntry_dirFileSize (name : DirName) (attributes : UInt8) (size : Nat) (now : Tm) :
    (newEntry name attributes size now).dirFileSize = UInt32.ofNat size := by
  simp [newEntry]

/-- The first cluster of a new directory: the entries `.` and `..`, zero bytes
behind them. -/
def directoryBuffer (entry : DirEntry) (container : Nat) : Bytes :=
  let dot := { entry with dirName := dotName }
  let dotdot := { entry with dirName := dotdotName, dirFstClus := UInt16.ofNat container }
  memcpy (memcpy (fun _ => 0) 0 dot.encode 0 entrySize) entrySize dotdot.encode 0 entrySize

/-- The common second half for entries that own a cluster from the start: take a free
cluster, write it, close its chain, flush the table and store the entry. -/
def storeWithCluster (vol : FATVolume) (place : SearchResult) (entry : DirEntry)
    (buffer : DirEntry → Bytes) : FATVolume × Int :=
  let (fatCluster, vol) := fatGetFreeClusterFromTable vol
  if fatCluster = 0 then (vol, -1)
  else
    let entry := { entry with dirFstClus := UInt16.ofNat fatCluster }
    match volWriteC vol (fatFSoC vol fatCluster) (buffer entry) with
    | none => (vol, -1)
    | some vol =>
      let vol := (fatSetEOCIntoTable vol fatCluster).getD vol
      let vol := (fatWriteFATTable vol).1
      fatWriteDIREntry vol { place with entry := entry }

def fatCreateEntry (vol : FATVolume) (entryname : List UInt8) (attributes : UInt8) (now : Tm)
    (junk : Junk) : FATVolume × Int :=
  if entryname.length < 2 ∨ entryname.getD 0 0 ≠ separator then (vol, -1)
  else if fatCheckAttrib attributes ≠ 0 ∨ attributes &&& ATTR_LINK ≠ 0 then (vol, -1)
  else
    match locateEntry vol entryname junk with
    | none => (vol, -1)
    | some loc =>
      match placeEntry vol loc junk with
      | (vol, none) => (vol, -1)
      | (vol, some place) =>
        let entry := newEntry loc.name attributes 0 now
        if attributes &&& ATTR_DIRECTORY ≠ 0 then
          storeWithCluster vol place entry fun e => directoryBuffer e place.container
        else fatWriteDIREntry vol { place with entry := entry }

/-- `FAT_create_link` comes to copy its target, and the target is longer than the buffer of one
cluster. -/
def copiesBeyond (vol : FATVolume) (entryname : List UInt8) : Bool :=
  (fatGetFreeClusterFromTable vol).1 != 0 && vol.bytesPerCluster < entryname.length

/-- `FAT_create_link`.  Whatever a copy beyond the buffer leaves is `overrun`. -/
def fatCreateLink (vol : FATVolume) (linkname entryname : List UInt8) (now : Tm) (junk : Junk)
    (overrun : FATVolume × Int) : FATVolume × Int :=
  if linkname.length < 2 ∨ PATH_MAX < linkname.length ∨ linkname.getD 0 0 ≠ separator then
    (vol, -1)
  else if entryname.length < 2 ∨ PATH_MAX < entryname.length ∨
      entryname.getD 0 0 ≠ separator then (vol, -1)
  else
    match locateEntry vol linkname junk with
    | none => (vol, -1)
    | some loc =>
      match placeEntry vol loc junk with
      | (vol, none) => (vol, -1)
      | (vol, some place) =>
        if copiesBeyond vol entryname then overrun
        else
          storeWithCluster vol place (newEntry loc.name ATTR_LINK entryname.length now)
            fun _ => ofList entryname

/-- The copy of the target of a link stays in its buffer. -/
def TargetFits (vol : FATVolume) (linkname entryname : List UInt8) (junk : Junk) : Prop :=
  entryname.length ≤ PATH_MAX → ∀ loc vol' place, locateEntry vol linkname junk = some loc →
    placeEntry vol loc junk = (vol', some place) → copiesBeyond vol' entryname = false

/-- `FAT_rename_entry`.  The duplicate check scans the chain of
`entry.container`. -/
def fatRenameEntry (vol : FATVolume) (entryname newname : List UInt8) (junk : SearchResult) :
    FATVolume × Int :=
  match fatSearchDIREntry vol entryname junk with
  | none => (vol, -1)
  | some entry =>
    if entry.entry.hasAttr (ATTR_SYSTEM ||| ATTR_VOLUME_ID) then (vol, -1)
    else
      match fatBuildDIRName newname with
      | none => (vol, -1)
      | some localname =>
        if (scanDirectory vol (fatSearchLoop localname) junk entry.container).isSome then (vol, -1)
        else
          fatWriteDIREntry vol
            { entry with entry := { entry.entry with dirName := localname } }

/-- `FAT_truncate_entry`.  The two final writes are joined by `||`. -/
def fatTruncateEntry (vol : FATVolume) (entryname : List UInt8) (junk : SearchResult) :
    FATVolume × Int :=
  match fatSearchDIREntry vol entryname junk with
  | none => (vol, -1)
  | some entry =>
    if entry.entry.hasAttr (ATTR_READ_ONLY ||| ATTR_SYSTEM ||| ATTR_DIRECTORY ||| ATTR_VOLUME_ID)
    then (vol, -1)
    else
      let (vol, err) := fatClearClusterChain vol entry.entry
      if err ≠ 0 then (vol, -1)
      else
        let (vol, err) := fatWriteDIREntry vol
          { entry with entry := { entry.entry with dirFstClus := 0, dirFileSize := 0 } }
        if err ≠ 0 then (vol, 1)
        else
          let (vol, err) := fatWriteFATTable vol
          (vol, if err ≠ 0 then 1 else 0)

def fatDeleteEntry (vol : FATVolume) (entryname : List UInt8) (junk : SearchResult) :
    FATVolume × Int :=
  match fatSearchDIREntry vol entryname junk with
  | none => (vol, -1)
  | some entry =>
    if entry.entry.hasAttr (ATTR_READ_ONLY ||| ATTR_SYSTEM ||| ATTR_VOLUME_ID) then (vol, -1)
    else if entry.entry.hasAttr ATTR_DIRECTORY ∧ fatDirectoryIsVoid vol entry.entry ≠ 0 then
      (vol, -1)
    else
      let entry := { entry with entry := { entry.entry with
        dirName := entry.entry.dirName.set 0 DIR_ENTRY_FREE mark_lt } }
      let (vol, err) := fatWriteDIREntry vol entry
      if err ≠ 0 then (vol, -1)
      else
        let (vol, err) := fatClearClusterChain vol entry.entry
        if err ≠ 0 then (vol, -1)
        else
          let (vol, err) := fatWriteFATTable vol
          (vol, if err ≠ 0 then -1 else 0)

/-- `FAT_available`: free clusters and free bytes.  The counter is a 16-bit word. -/
def fatAvailable (vol : FATVolume) : Nat × Nat :=
  let freeclusters :=
    ((List.range' 2 (vol.fatSize - 2)).countP fun i => fatClusterIsFREE (vol.fat i).toNat) % 2 ^ 16
  (freeclusters * vol.bytesPerCluster % 2 ^ 32, freeclusters)

end DiegOS.Fat
