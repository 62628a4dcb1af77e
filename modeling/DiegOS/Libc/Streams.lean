import DiegOS.Lib.Runs
import Mathlib.Algebra.Group.Nat.Defs
import Mathlib.Logic.Function.Basic

/-!
# Streams

The streams of the standard input and output library: `fputc` with its three write paths,
`setvbuf`, `fflush` and `fgetc`, over a descriptor whose `read`,
`write` and `lseek` succeed.  The fields `count`, `validsize` and
`bufsize` are words, and the pointer into the buffer is an offset from its start.

Main results:

- Theorem `Stream.front_store`: a character stored behind the first bytes of the buffer is
  the next of them.
-/

namespace DiegOS.Libc

def EOF : Int := -1

def BUFSIZ : Nat := 1024

/-- `'\\n'` -/
def newline : UInt8 := 0x0A

/-- `'\\r'` -/
def carriageReturn : UInt8 := 0x0D

/-- `(char)c` -/
def toChar (c : Int) : UInt8 := UInt8.ofNat (c % 256).toNat

/-- `(int)` of a `char`, which is signed. -/
def ofChar (c : UInt8) : Int := if c < 0x80 then c.toNat else c.toNat - 256

/-- A difference of two words. -/
def subWord (a b : Nat) : Nat := (a + 2 ^ 32 - b) % 2 ^ 32

/-- The flags `IOBUF_READ` to `IOBUF_BIN`. -/
structure Flags where
  read : Bool
  write : Bool
  append : Bool
  reading : Bool
  writing : Bool
  nbuf : Bool
  lbuf : Bool
  fbuf : Bool
  error : Bool
  eof : Bool
  relbuf : Bool
  bin : Bool
deriving DecidableEq, Repr

/-- A `struct iobuf` with the memory behind `buffer`: its size, its bytes, whether every
store so far went inside it, and the bytes passed to `write` so far. -/
structure Stream where
  fd : Int
  flags : Flags
  bufsize : Nat
  validsize : Nat
  count : Nat
  /-- `buffer != NULL` -/
  buffer : Bool
  bufptr : Nat
  size : Nat
  cells : Nat → UInt8
  inside : Bool
  written : List UInt8

/-- What `malloc` answers: nothing, or memory with some contents. -/
abbrev Memory := Option (Nat → UInt8)

/-- The modes of `setvbuf`. -/
inductive BufMode where
  | IOFBF
  | IOLBF
  | IONBF
deriving DecidableEq, Repr

/-- The cells in front of one that is stored, and this one. -/
lemma map_update_range (cells : Nat → UInt8) (n : Nat) (c : UInt8) :
    (List.range (n + 1)).map (Function.update cells n c) = (List.range n).map cells ++ [c] := by
  rw [List.range_succ, List.map_append, List.map_singleton, Function.update_self]
  refine congrArg (· ++ [c]) (List.map_congr_left fun i hi => ?_)
  exact Function.update_of_ne (Nat.ne_of_lt (List.mem_range.mp hi)) c cells

namespace Stream

/-- `stream_init` as `fopen` calls it, where `malloc` leaves `validsize`. -/
def opened (fd : Int) (flags : Flags) (validsize : Nat) (cells : Nat → UInt8) : Stream :=
  ⟨fd, flags, 0, validsize, 0, false, 0, 0, cells, true, []⟩

/-- `*stream->bufptr++ = (char)c;` -/
def store (s : Stream) (c : UInt8) : Stream :=
  { s with
    cells := Function.update s.cells s.bufptr c
    bufptr := s.bufptr + 1
    inside := s.inside && decide (s.bufptr < s.size) }

/-- The first bytes of the buffer. -/
def front (s : Stream) (n : Nat) : List UInt8 := (List.range n).map s.cells

/-- `write(stream->fd, stream->buffer, count)` -/
def writeFront (s : Stream) (count : Nat) : Stream :=
  { s with written := s.written ++ s.front count }

def writebuffern (c : Int) (s : Stream) : Stream × Int :=
  if s.fd < 0 then ({ s with flags := { s.flags with error := true } }, EOF)
  else
    ({ s with
        written := s.written ++
          if toChar c = newline ∧ s.flags.bin = false then [toChar c, carriageReturn]
          else [toChar c] }, c)

def writebufferl (c : Int) (s : Stream) : Stream × Int :=
  let s := if s.count ≠ 0 then { s with count := s.count - 1 }.store (toChar c) else s
  if c = 10 ∨ s.count = 0 then
    if s.fd < 0 then ({ s with flags := { s.flags with error := true } }, EOF)
    else
      let count := subWord s.validsize s.count
      let s := { s with bufptr := 0, count := s.validsize }.writeFront count
      if c = 10 ∧ s.flags.bin = false then
        ({ s with written := s.written ++ [carriageReturn] }, c)
      else (s, c)
  else (s, c)

def writebuffer (c : Int) (s : Stream) : Stream × Int :=
  if s.count ≠ 0 then ({ s with count := s.count - 1 }.store (toChar c), c)
  else if s.fd < 0 then ({ s with flags := { s.flags with error := true } }, EOF)
  else
    let count := subWord s.validsize s.count
    let s := { s with count := subWord s.validsize 1, bufptr := 0 }
    ((s.writeFront count).store (toChar c), c)

/-- The third stage of `fputc`: a buffer is allocated. -/
def allocate (s : Stream) (content : Nat → UInt8) : Stream :=
  { s with
    flags := { s.flags with relbuf := true }
    count := BUFSIZ, bufsize := BUFSIZ, validsize := BUFSIZ
    buffer := true, bufptr := 0, size := BUFSIZ, cells := content }

/-- The fourth stage of `fputc`. -/
def putBuffered (c : Int) (s : Stream) : Stream × Int :=
  if s.flags.lbuf then s.writebufferl c else s.writebuffer c

/-- `fputc` refuses a stream that cannot be written or is being read. -/
def refuses (s : Stream) : Bool := !s.flags.write || (s.flags.reading && !s.flags.eof)

def fputc (c : Int) (malloc : Memory) (s : Stream) : Stream × Int :=
  if s.refuses then (s, EOF)
  else
    let s := { s with flags := { s.flags with reading := false, writing := true } }
    if s.flags.nbuf then s.writebuffern c
    else if !s.buffer then
      match malloc with
      | none =>
        { s with
          flags := { s.flags with nbuf := true }
          count := 0, bufsize := 0, validsize := 0 }.writebuffern c
      | some content => (s.allocate content).putBuffered c
    else s.putBuffered c

/-- `setvbuf`; `buf` is the caller's buffer, and a mode that is none of the three is
refused. -/
def setvbuf (buf : Memory) (mode : Option BufMode) (size : Nat) (malloc : Memory) (s : Stream) :
    Stream × Int :=
  match mode with
  | none => (s, EOF)
  | some mode =>
    let allocates := buf.isNone && mode != .IONBF
    let memory := if allocates && size ≠ 0 then malloc else buf
    ({ s with
        flags := { s.flags with
          nbuf := mode = .IONBF
          lbuf := mode = .IOLBF
          fbuf := s.flags.fbuf || mode = .IOFBF
          relbuf := s.flags.relbuf || allocates }
        buffer := memory.isSome
        count := 0
        bufptr := 0
        bufsize := size
        size := if memory.isSome then size else 0
        cells := memory.getD s.cells },
      if (buf.isSome && size = 0) || (allocates && memory.isNone) then EOF else 0)

/-- `fflush` of one stream. -/
def fflush (s : Stream) : Stream × Int :=
  if s.flags.nbuf || !(s.flags.writing || s.flags.reading) then (s, 0)
  else if s.flags.reading then
    ({ s with
        count := 0
        bufptr := 0
        flags := if s.flags.write then { s.flags with reading := false, writing := false }
          else s.flags }, 0)
  else
    let s := if s.flags.read then { s with flags := { s.flags with writing := false } } else s
    let count := subWord s.validsize s.count
    if count = 0 then (s, 0)
    else
      ({ s with bufptr := 0, count := s.bufsize, validsize := s.bufsize }.writeFront count, 0)

/-- The part of `readbuffer` that gets a buffer, as `malloc` answers. -/
def readSetup (malloc : Memory) (s : Stream) : Stream :=
  if s.flags.nbuf || s.buffer then s
  else
    match malloc with
    | none => { s with flags := { s.flags with nbuf := true }, bufsize := 0 }
    | some content =>
      { s with
        flags := { s.flags with relbuf := true }
        buffer := true, bufsize := BUFSIZ, size := BUFSIZ, cells := content }

/-- `read` of the bytes that come, into the buffer or into one character. -/
def readInto (data : List UInt8) (s : Stream) : Stream :=
  if s.flags.nbuf then s
  else
    { s with
      cells := fun i => if i < data.length then data.getD i 0 else s.cells i
      inside := s.inside && decide (data.length ≤ s.size) }

/-- `readbuffer`, where `data` are the bytes left of the file.  No stream that is being
read is also written, so the line-buffered streams it flushes are other ones. -/
def readbuffer (malloc : Memory) (data : List UInt8) (s : Stream) : Stream × Int :=
  if s.fd < 0 || s.flags.error || s.flags.eof then (s, EOF)
  else if !s.flags.read || s.flags.writing then
    ({ s with flags := { s.flags with error := true } }, EOF)
  else
    let s := { s with flags := { s.flags with reading := true } }.readSetup malloc
    let data := data.take (if s.flags.nbuf then 1 else s.bufsize)
    let s := { s with count := 0, bufptr := 0 }.readInto data
    if data = [] then
      ({ s with validsize := 0, flags := { s.flags with eof := true } }, EOF)
    else
      ({ s with
          count := data.length - 1
          validsize := data.length - 1
          bufptr := if s.flags.nbuf then s.bufptr else s.bufptr + 1 },
        ofChar (data.headD 0))

def fgetc (malloc : Memory) (data : List UInt8) (s : Stream) : Stream × Int :=
  if s.count ≠ 0 then
    ({ s with count := s.count - 1, bufptr := s.bufptr + 1 }, ofChar (s.cells s.bufptr))
  else s.readbuffer malloc data

lemma front_zero (s : Stream) : s.front 0 = [] := rfl

/-- A character stored behind the first bytes of the buffer is the next of them. -/
theorem front_store (s : Stream) (c : UInt8) :
    (s.store c).front (s.bufptr + 1) = s.front s.bufptr ++ [c] :=
  map_update_range s.cells s.bufptr c

end Stream

lemma subWord_self (a : Nat) : subWord a a = 0 := by
  simp [subWord]

lemma subWord_zero {a : Nat} (h : a < 2 ^ 32) : subWord a 0 = a := by
  rw [subWord, Nat.sub_zero, Nat.add_mod_right, Nat.mod_eq_of_lt h]

/-- Counting down the free characters counts up the used ones. -/
lemma subWord_pred {a b n : Nat} (ha : a < 2 ^ 32) (hb : b < 2 ^ 32) (hpos : b ≠ 0)
    (h : subWord a b = n) (hn : n + 1 < 2 ^ 32) : subWord a (b - 1) = n + 1 := by
  unfold subWord at h ⊢
  omega

/-- The first character after a flush. -/
lemma subWord_one {a : Nat} (h : a < 2 ^ 32) : subWord a (subWord a 1) = 1 := by
  unfold subWord
  omega

end DiegOS.Libc
