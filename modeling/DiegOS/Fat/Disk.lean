import DiegOS.Lib.ByteMemory

/-!
# Storage media

The block device behind the file system, as `disk_access.c` serves it: a
request for whole sectors is refused when it is empty or leaves the media, may
fail in the device, and otherwise moves the bytes.  Sector numbers are 32-bit
words, so the range test of a request is made on the wrapped sum.

Main results:

- Theorem `Disk.read_eq`: a request inside a fault-free media returns its
  bytes.
- Theorem `Disk.write_eq`: a write inside a fault-free media replaces
  exactly the addressed bytes.
-/

namespace DiegOS.Fat

open Lib

/-- The two kinds of requests. -/
inductive DiskOp where
  | read
  | write
deriving DecidableEq, Repr

/-- A storage media context: its geometry, its bytes, and the requests the
device cannot serve. -/
structure Disk where
  bytesPerSector : Nat
  numOfSectors : Nat
  data : Bytes
  fault : DiskOp → Nat → Nat → Bool

namespace Disk

/-- The argument check shared by `disk_read` and `disk_write`. -/
def accepts (d : Disk) (sec numsec : Nat) : Bool :=
  !(numsec == 0 || decide (d.numOfSectors < sec) || decide (d.numOfSectors < numsec) ||
    decide (d.numOfSectors < (sec + numsec) % 2 ^ 32))

/-- `disk_read`: the bytes of `numsec` sectors. -/
def read (d : Disk) (sec numsec : Nat) : Option Bytes :=
  if d.accepts sec numsec && !d.fault .read sec numsec then
    some (shift d.data (sec * d.bytesPerSector))
  else none

/-- `disk_write`: the media with `numsec` sectors replaced by the buffer. -/
def write (d : Disk) (sec numsec : Nat) (buf : Bytes) : Option Disk :=
  if d.accepts sec numsec && !d.fault .write sec numsec then
    some { d with
      data := memcpy d.data (sec * d.bytesPerSector) buf 0 (numsec * d.bytesPerSector) }
  else none

/-- No request of one kind fails in the device. -/
def Serves (d : Disk) (op : DiskOp) : Prop := ∀ sec numsec, d.fault op sec numsec = false

/-- No request fails in the device. -/
def Faultless (d : Disk) : Prop := ∀ op, d.Serves op

/-- A request that stays on the media passes the argument check. -/
lemma accepts_of_le {d : Disk} {sec numsec : Nat} (hpos : 0 < numsec)
    (hin : sec + numsec ≤ d.numOfSectors) (hsize : d.numOfSectors < 2 ^ 32) :
    d.accepts sec numsec = true := by
  simp [accepts]
  omega

theorem read_eq {d : Disk} {sec numsec : Nat} (hd : d.Serves .read) (hpos : 0 < numsec)
    (hin : sec + numsec ≤ d.numOfSectors) (hsize : d.numOfSectors < 2 ^ 32) :
    d.read sec numsec = some (shift d.data (sec * d.bytesPerSector)) := by
  simp [read, accepts_of_le hpos hin hsize, hd sec numsec]

theorem write_eq {d : Disk} {sec numsec : Nat} {buf : Bytes}
    (hd : d.fault .write sec numsec = false) (hpos : 0 < numsec)
    (hin : sec + numsec ≤ d.numOfSectors) (hsize : d.numOfSectors < 2 ^ 32) :
    d.write sec numsec buf = some { d with
      data := memcpy d.data (sec * d.bytesPerSector) buf 0 (numsec * d.bytesPerSector) } := by
  simp [write, accepts_of_le hpos hin hsize, hd]

end Disk

end DiegOS.Fat
