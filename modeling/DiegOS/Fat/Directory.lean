import DiegOS.Fat.Internals

/-!
# Directories and cluster chains

The static helpers of `fat.c`: walking a cluster chain, scanning the
directory entries of a cluster, resolving a path from the root, rewriting one
entry, flushing the cluster table, and clearing and growing a chain.

A loop that follows the table stops at an end-of-chain value.  The model bounds
its passes by `chainFuel`, the number of 16-bit cluster values; a chain
that ends does so within the bound.
-/

namespace DiegOS.Fat

open Lib

/-- Longest chain a 16-bit table can hold. -/
def chainFuel : Nat := 65536

/-- Longest path `FAT_search_DIR_entry` accepts. -/
def FILENAME_MAX : Nat := 255

/-- Longest path `FAT_create_link` accepts. -/
def PATH_MAX : Nat := 1023

/-- The clusters a loop `while (!FAT_cluster_isEOC(cluster))` visits, and the value it
stops at. -/
def walkChain (vol : FATVolume) : Nat → Nat → List Nat × Nat
  | 0, cluster => ([], cluster)
  | fuel + 1, cluster =>
    if fatClusterIsEOC cluster then ([], cluster)
    else
      let rest := walkChain vol fuel (fatGetClusterFromTable vol cluster)
      (cluster :: rest.1, rest.2)

/-- Clusters visited from a first cluster on. -/
def chainOf (vol : FATVolume) (cluster : Nat) : List Nat := (walkChain vol chainFuel cluster).1

/-- The end-of-chain value behind a first cluster. -/
def chainStop (vol : FATVolume) (cluster : Nat) : Nat := (walkChain vol chainFuel cluster).2

/-- `FAT_lookup_FAT_table` with the offset already in clusters. -/
def lookupLoop (vol : FATVolume) : Nat → Nat → Nat
  | 0, cluster => cluster
  | n + 1, cluster =>
    let next := fatGetClusterFromTable vol cluster
    if fatClusterIsReadable next then lookupLoop vol n next else next

/-- `FAT_lookup_FAT_table`: the cluster that holds a byte offset. -/
def fatLookupFATTable (vol : FATVolume) (entry : DirEntry) (offset : Nat) : Nat :=
  lookupLoop vol (offset / vol.bytesPerCluster) entry.clus

/-! ## Scanning a directory cluster -/

/-- `strncmp(a, b, n) == 0`. -/
def strncmpEq : Nat → List UInt8 → List UInt8 → Bool
  | 0, _, _ => true
  | n + 1, a, b =>
    let x := a.headD 0
    let y := b.headD 0
    if x ≠ y then false
    else if x = 0 then true
    else strncmpEq n a.tail b.tail

/-- The `i`-th directory entry of a buffer. -/
def entryOf (buffer : Bytes) (i : Nat) : DirEntry := .decode (shift buffer (entrySize * i))

/-- `FAT_search_loop` from index `i` on, with `n` entries left. -/
def fatSearchLoop (name : DirName) (buffer : Bytes) : Nat → Nat → Nat
  | 0, i => i
  | n + 1, i =>
    if (entryOf buffer i).mark = DIR_ENTRY_FREE then fatSearchLoop name buffer n (i + 1)
    else if (entryOf buffer i).mark = DIR_ENTRY_LAST_FREE then i + (n + 1)
    else if strncmpEq DIR_NAMELEN (entryOf buffer i).dirName.toList name.toList then i
    else fatSearchLoop name buffer n (i + 1)

/-- `FAT_search_free_loop` from index `i` on, with `n` entries left. -/
def fatSearchFreeLoop (buffer : Bytes) : Nat → Nat → Nat
  | 0, i => i
  | n + 1, i =>
    if (entryOf buffer i).mark = DIR_ENTRY_FREE ∨
        (entryOf buffer i).mark = DIR_ENTRY_LAST_FREE then i
    else fatSearchFreeLoop buffer n (i + 1)

/-- `struct FAT_direntry_search_result`. -/
structure SearchResult where
  entry : DirEntry
  sector : Nat
  offset : Nat
  container : Nat
deriving DecidableEq

/-- Directory entries in one cluster. -/
def FATVolume.items (vol : FATVolume) : Nat := vol.fatEntriesPerSec * vol.pb.secPerClus.toNat

/-- `FAT_dir_foreach`: scan one cluster, and on a hit store the entry and its place;
the container of the result is not touched. -/
def fatDirForeach (vol : FATVolume) (fn : Bytes → Nat → Nat → Nat) (result : SearchResult)
    (cluster : Nat) : Option SearchResult :=
  let sector := fatFSoC vol cluster
  match volReadC vol sector with
  | none => none
  | some buffer =>
    let i := fn buffer vol.items 0
    if i < vol.items then
      some { result with
        entry := entryOf buffer i
        sector := sector + i / vol.fatEntriesPerSec
        offset := i % vol.fatEntriesPerSec }
    else none

/-- Scan a whole directory, cluster after cluster, until the first hit. -/
def scanDirectory (vol : FATVolume) (fn : Bytes → Nat → Nat → Nat) (result : SearchResult)
    (cluster : Nat) : Option SearchResult :=
  (chainOf vol cluster).findSome? (fatDirForeach vol fn result)

/-! ## Path resolution -/

/-- The loop of `FAT_search_DIR_entry` over the split names.  `found` keeps its
value when the inner loop is not entered, as in the source. -/
def searchSplits (vol : FATVolume) :
    List DirName → Nat → Bool → SearchResult → Nat → Option SearchResult
  | [], _, _, entryfound, contcluster => some { entryfound with container := contcluster }
  | name :: rest, cluster, found, entryfound, _ =>
    let scan := scanDirectory vol (fatSearchLoop name) entryfound cluster
    let found := if fatClusterIsEOC cluster then found else scan.isSome
    let entryfound := scan.getD entryfound
    if !found then none
    else if rest ≠ [] ∧ !entryfound.entry.hasAttr ATTR_DIRECTORY then none
    else searchSplits vol rest entryfound.entry.clus true entryfound entryfound.entry.clus

/-- `FAT_search_DIR_entry`.  `junk` is what the stack frame holds in the result
structure before it is filled; a path without components returns it. -/
def fatSearchDIREntry (vol : FATVolume) (directory : List UInt8) (junk : SearchResult) :
    Option SearchResult :=
  if directory.length = 0 ∨ FILENAME_MAX < directory.length then none
  else
    match fatParseDirectory directory with
    | none => none
    | some names => searchSplits vol names vol.pb.rootClus.toNat false junk vol.pb.rootClus.toNat

/-- `FAT_write_DIR_entry`: rewrite one entry in its sector. -/
def fatWriteDIREntry (vol : FATVolume) (entry : SearchResult) : FATVolume × Int :=
  match volRead vol entry.sector 1 with
  | none => (vol, -1)
  | some buf =>
    match volWrite vol entry.sector 1
        (memcpy buf (entrySize * entry.offset) entry.entry.encode 0 entrySize) with
    | none => (vol, -1)
    | some vol => (vol, 0)

/-- The loop of `FAT_directory_is_void` over the clusters of a directory; the first
cluster is read from its third entry on. -/
def directoryVoidLoop (vol : FATVolume) : List Nat → Nat → Bool
  | [], _ => true
  | cluster :: rest, start =>
    match volReadC vol (fatFSoC vol cluster) with
    | none => false
    | some buffer =>
      match (List.range' start (vol.items - start)).find?
          fun i => (entryOf buffer i).mark ≠ DIR_ENTRY_FREE with
      | some i => (entryOf buffer i).mark = DIR_ENTRY_LAST_FREE
      | none => directoryVoidLoop vol rest 0

def fatDirectoryIsVoid (vol : FATVolume) (dir : DirEntry) : Int :=
  if directoryVoidLoop vol (chainOf vol dir.clus) 2 then 0 else -1

/-! ## The cluster table -/

/-- The bytes of the in-memory cluster table. -/
def FATVolume.fatBytes (vol : FATVolume) : Bytes := fun j => byteOf (vol.fat (j / 2)).toNat (j % 2)

/-- The loop of `FAT_write_FAT_table` over the copies. -/
def writeFATLoop : Nat → FATVolume → Nat → FATVolume × Int
  | 0, vol, _ => (vol, 0)
  | n + 1, vol, sec =>
    match volWrite vol sec vol.pb.fatSz16.toNat vol.fatBytes with
    | none => (vol, -1)
    | some vol => writeFATLoop n vol (sec + vol.pb.fatSz16.toNat)

/-- `FAT_write_FAT_table`: flush the table to every copy. -/
def fatWriteFATTable (vol : FATVolume) : FATVolume × Int :=
  writeFATLoop vol.pb.numFATs.toNat vol vol.pb.resvdSecCnt.toNat

/-- The loop of `FAT_clear_cluster_chain`. -/
def clearLoop : Nat → FATVolume → Nat → FATVolume × Int
  | 0, vol, _ => (vol, -1)
  | fuel + 1, vol, N =>
    if fatClusterIsEOC N then (vol, 0)
    else
      let cluster := fatGetClusterFromTable vol N
      match fatSetClusterIntoTable vol N FAT_CLEARED with
      | none => (vol, -1)
      | some vol => clearLoop fuel vol cluster

/-- `FAT_clear_cluster_chain`: nothing is done for an entry without clusters, and for
a file of size zero. -/
def fatClearClusterChain (vol : FATVolume) (entry : DirEntry) : FATVolume × Int :=
  if fatClusterIsFREE entry.clus ∨ (entry.size = 0 ∧ !entry.hasAttr ATTR_DIRECTORY) then (vol, 0)
  else clearLoop (chainFuel + 1) vol entry.clus

/-- Follow a chain to its last cluster. -/
def lastCluster (vol : FATVolume) : Nat → Nat → Nat
  | 0, cluster => cluster
  | fuel + 1, cluster =>
    let content := fatGetClusterFromTable vol cluster
    if fatClusterIsEOC content then cluster else lastCluster vol fuel content

/-- `FAT_append_cluster_chain`: link a free cluster behind a chain, or start a chain
when `cluster` is zero.  The new cluster is returned, or nothing on failure. -/
def fatAppendClusterChain (vol : FATVolume) (cluster : Nat) : FATVolume × Option Nat :=
  let (freecluster, vol) := fatGetFreeClusterFromTable vol
  if freecluster = 0 then (vol, none)
  else
    let last := lastCluster vol chainFuel cluster
    match (if cluster = 0 then some vol else fatSetClusterIntoTable vol last freecluster) with
    | none => (vol, none)
    | some vol =>
      match fatSetEOCIntoTable vol freecluster with
      | none => ((fatSetEOCIntoTable vol (if cluster = 0 then 0 else last)).getD vol, none)
      | some vol => (vol, some freecluster)

end DiegOS.Fat
