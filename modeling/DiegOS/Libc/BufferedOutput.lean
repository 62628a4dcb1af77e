import DiegOS.Libc.Streams

/-!
# Buffered output

The bytes passed to `write` together with those still in the buffer are what a stream has
put out.  A character goes there once, as long as the stream's `count` and
`validsize` describe a buffer that is being written.

Main results:

- Theorem `Stream.Ready.put`: a character put into a buffer is put out once.
- Theorem `Use.Accounted.exec`: each call keeps the account of the characters put.
- Theorem `buffered_output`: the output is faithful in every run whose calls find the stream
  prepared.
- Theorem `buffered_output_broken`: a line-buffered stream with its own buffer loses a
  character.
-/

namespace DiegOS.Libc

open Lib (Runs)

variable {s s' : Stream} {c : Int} {bytes : List UInt8}

/-- A character as it is to arrive at the descriptor. -/
def expected (bin : Bool) (c : UInt8) : List UInt8 :=
  if c = newline ∧ bin = false then [c, carriageReturn] else [c]

/-- A stream with the characters put so far. -/
structure Use where
  stream : Stream
  started : Bool
  put : List UInt8

/-- The calls on a stream. -/
inductive Request where
  | setvbuf (buf : Memory) (mode : Option BufMode) (size : Nat) (malloc : Memory)
  | fputc (c : Int) (malloc : Memory)
  | fflush
  | fgetc (malloc : Memory) (data : List UInt8)

/-- One call. -/
def Use.exec (u : Use) : Request → Use
  | .setvbuf buf mode size malloc =>
    { u with stream := (u.stream.setvbuf buf mode size malloc).1 }
  | .fputc c malloc =>
    { stream := (u.stream.fputc c malloc).1
      started := true
      put := if u.stream.refuses then u.put else u.put ++ [toChar c] }
  | .fflush => { u with stream := u.stream.fflush.1 }
  | .fgetc malloc data =>
    { u with stream := (u.stream.fgetc malloc data).1, started := true }

/-- Buffers of at least one byte are set before the first character, and only streams opened with
`+` are read. -/
def Allowed (u : Use) : Request → Prop
  | .setvbuf _ _ size _ => u.started = false ∧ 0 < size ∧ size < 2 ^ 32
  | .fgetc _ _ => u.stream.flags.read = true
  | _ => True

/-- A stream as it is opened. -/
structure Stream.Opened (s : Stream) : Prop where
  fd : 0 ≤ s.fd
  write : s.flags.write = true
  reading : s.flags.reading = false
  writing : s.flags.writing = false
  buffer : s.buffer = false
  bufptr : s.bufptr = 0
  count : s.count = 0
  validsize : s.validsize < 2 ^ 32
  inside : s.inside = true
  written : s.written = []

/-- Every store went inside the buffer, and a final `fflush` passes the rest of the characters
put to `write`. -/
structure Use.Faithful (u : Use) : Prop where
  inside : u.stream.inside = true
  output : u.stream.fflush.1.written = u.put.flatMap (expected u.stream.flags.bin)

/-- The fields describe a buffer that is being written and has room, if not for the next
character then for none, or an empty one that is to be written. -/
structure Stream.Fits (s : Stream) : Prop where
  rest : s.flags.writing = false → s.bufptr = 0
  used : subWord s.validsize s.count = s.bufptr
  room : s.count ≠ 0 → s.bufptr < s.size
  line : s.flags.lbuf = true → s.count ≠ 0

/-- A newline goes to a binary stream, or to a line-buffered one as such. -/
def Stream.NewlineOk (s : Stream) (c : Int) : Prop :=
  toChar c = newline → s.flags.bin = true ∨ (s.flags.lbuf = true ∧ c = 10)

/-- A call finds the stream prepared. -/
def Prepared (u : Use) : Request → Prop
  | .fputc c malloc =>
    u.stream.refuses = false → u.stream.flags.nbuf = false →
      (u.stream.buffer = false ∧ malloc.isNone) ∨
        (u.stream.NewlineOk c ∧ (u.stream.buffer = true → u.stream.Fits))
  | .fgetc _ _ => u.stream.count ≠ 0 → u.stream.flags.writing = false
  | _ => True

/-! ## A character for the buffer -/

/-- What `fputc` leaves to the two buffered write paths. -/
structure Stream.Ready (s : Stream) (c : Int) : Prop where
  fd : 0 ≤ s.fd
  inside : s.inside = true
  validsize : s.validsize < 2 ^ 32
  count : s.count < 2 ^ 32
  size : 0 < s.size ∧ s.size < 2 ^ 32
  fits : s.Fits
  newline : s.NewlineOk c

/-- What a buffered write path does. -/
structure Stream.Puts (s s' : Stream) (bytes : List UInt8) : Prop where
  fd : s'.fd = s.fd
  flags : s'.flags = s.flags
  buffer : s'.buffer = s.buffer
  bufsize : s'.bufsize = s.bufsize
  size : s'.size = s.size
  inside : s'.inside = true
  validsize : s'.validsize < 2 ^ 32
  count : s'.count < 2 ^ 32
  used : subWord s'.validsize s'.count = s'.bufptr
  bufptr : s'.bufptr ≤ s.size
  output : s'.written ++ s'.front s'.bufptr = s.written ++ s.front s.bufptr ++ bytes

namespace Stream

/-- A character goes to a free place. -/
lemma Ready.store (h : s.Ready c) (hcount : s.count ≠ 0) :
    s.Puts ({ s with count := s.count - 1 }.store (toChar c)) [toChar c] := by
  have hroom := h.fits.room hcount
  have hsize := h.size.2
  have hpred := subWord_pred h.validsize h.count hcount h.fits.used (by omega)
  have hlt := h.count
  refine ⟨rfl, rfl, rfl, rfl, rfl, ?_, h.validsize, ?_, hpred, hroom, ?_⟩
  · simp only [Stream.store, h.inside, Bool.true_and, decide_eq_true_eq]
    exact hroom
  · change s.count - 1 < 2 ^ 32
    omega
  · change s.written ++ (Stream.store { s with count := s.count - 1 } (toChar c)).front _ = _
    rw [List.append_assoc]
    exact congrArg _ (front_store { s with count := s.count - 1 } (toChar c))

/-- The full buffer is written and starts with the character. -/
lemma Ready.writebuffer (h : s.Ready c) :
    s.Puts (s.writebuffer c).1 [toChar c] := by
  unfold Stream.writebuffer
  by_cases hcount : s.count ≠ 0
  · rw [if_pos hcount]
    exact h.store hcount
  · have hzero : s.count = 0 := not_not.mp hcount
    have hused : s.validsize = s.bufptr := by
      rw [← h.fits.used, hzero, subWord_zero h.validsize]
    have hone := subWord_one h.validsize
    have hlt : subWord s.validsize 1 < 2 ^ 32 := Nat.mod_lt _ (by decide)
    rw [if_neg hcount, if_neg (Int.not_lt.mpr h.fd), hzero, subWord_zero h.validsize, hused]
    rw [hused] at hone hlt
    generalize subWord s.bufptr 1 = n at hone hlt ⊢
    have hvalid := h.validsize
    rw [hused] at hvalid
    refine ⟨rfl, rfl, rfl, rfl, rfl, ?_, ?_, hlt, ?_, h.size.1, ?_⟩
    · simp only [Stream.store, Stream.writeFront, h.inside, Bool.true_and, decide_eq_true_eq]
      exact h.size.1
    · exact hvalid
    · simp only [Stream.store, Stream.writeFront]
      exact hone
    · exact congrArg (_ ++ ·) (front_store _ (toChar c))

/-- The line-buffered write path after it has written its buffer. -/
def flushed (s : Stream) : Stream :=
  { s with bufptr := 0, count := s.validsize }.writeFront (subWord s.validsize s.count)

lemma Puts.flushed (h : s.Puts s' bytes) : s.Puts s'.flushed bytes := by
  refine ⟨h.fd, h.flags, h.buffer, h.bufsize, h.size, h.inside, h.validsize, h.validsize,
    subWord_self _, Nat.zero_le _, ?_⟩
  change s'.written ++ s'.front (subWord s'.validsize s'.count) ++ [] = _
  rw [h.used, List.append_nil]
  exact h.output

/-- Without bytes in the buffer what is written is put out. -/
lemma Puts.append (h : s.Puts s'.flushed bytes) (more : List UInt8) :
    s.Puts { s'.flushed with written := s'.flushed.written ++ more } (bytes ++ more) := by
  refine ⟨h.fd, h.flags, h.buffer, h.bufsize, h.size, h.inside, h.validsize, h.count, h.used,
    h.bufptr, ?_⟩
  have houtput := h.output
  change s'.flushed.written ++ [] = _ at houtput
  change s'.flushed.written ++ more ++ [] = _
  rw [List.append_nil] at houtput ⊢
  rw [houtput, List.append_assoc]

lemma Ready.expected_eq (h : s.Ready c) (hplain : ¬(c = 10 ∧ s.flags.bin = false)) :
    expected s.flags.bin (toChar c) = [toChar c] := by
  rw [expected, if_neg]
  rintro ⟨hnewline, hbin⟩
  rcases h.newline hnewline with htrue | ⟨-, hc⟩
  · rw [hbin] at htrue
    cases htrue
  · exact hplain ⟨hc, hbin⟩

/-- What is in the buffer is written at a newline or when the buffer is full. -/
lemma Ready.writebufferl (h : s.Ready c) (hlbuf : s.flags.lbuf = true) :
    s.Puts (s.writebufferl c).1 (expected s.flags.bin (toChar c)) := by
  have hcount := h.fits.line hlbuf
  have hputs := h.store hcount
  unfold Stream.writebufferl
  simp only [if_pos hcount]
  generalize ({ s with count := s.count - 1 } : Stream).store (toChar c) = t at hputs ⊢
  have hfd : ¬t.fd < 0 := by
    rw [hputs.fd]
    exact Int.not_lt.mpr h.fd
  by_cases hflush : c = 10 ∨ t.count = 0
  · rw [if_pos hflush, if_neg hfd]
    change s.Puts (if c = 10 ∧ t.flags.bin = false then
      ({ t.flushed with written := t.flushed.written ++ [carriageReturn] }, c)
      else (t.flushed, c)).1 _
    by_cases hreturn : c = 10 ∧ t.flags.bin = false
    · have hexpected : expected s.flags.bin (toChar c) = [toChar c] ++ [carriageReturn] := by
        rw [expected, if_pos]
        · rfl
        · rw [hreturn.1, ← hputs.flags, hreturn.2]
          exact ⟨rfl, rfl⟩
      rw [if_pos hreturn, hexpected]
      exact hputs.flushed.append _
    · rw [if_neg hreturn, h.expected_eq (by rw [← hputs.flags]; exact hreturn)]
      exact hputs.flushed
  · rw [if_neg hflush, h.expected_eq fun hc => hflush (.inl hc.1)]
    exact hputs

/-- A character put into a buffer is put out once. -/
theorem Ready.put (h : s.Ready c) :
    s.Puts (s.putBuffered c).1 (expected s.flags.bin (toChar c)) := by
  unfold Stream.putBuffered
  cases hlbuf : s.flags.lbuf with
  | true =>
    rw [if_pos rfl]
    exact h.writebufferl hlbuf
  | false =>
    rw [if_neg Bool.false_ne_true]
    have hexpected : expected s.flags.bin (toChar c) = [toChar c] := by
      rw [expected, if_neg]
      rintro ⟨hnewline, hbin⟩
      rcases h.newline hnewline with htrue | ⟨hline, -⟩
      · rw [hbin] at htrue
        cases htrue
      · rw [hlbuf] at hline
        cases hline
    rw [hexpected]
    exact h.writebuffer

end Stream

/-! ## The account of the characters put -/

/-- What has been written and what is still in the buffer. -/
def Stream.output (s : Stream) : List UInt8 :=
  s.written ++ if s.flags.writing = true ∧ s.flags.nbuf = false then s.front s.bufptr else []

/-- The stream `fputc` goes on with. -/
def Stream.toWriting (s : Stream) : Stream :=
  { s with flags := { s.flags with reading := false, writing := true } }

/-- The stream `fputc` goes on with where no memory is left. -/
def Stream.noMemory (s : Stream) : Stream :=
  { s.toWriting with
    flags := { s.toWriting.flags with nbuf := true }
    count := 0, bufsize := 0, validsize := 0 }

section

variable (htakes : s.refuses = false)
include htakes

lemma Stream.fputc_unbuffered {malloc : Memory}
    (hnbuf : s.flags.nbuf = true) : s.fputc c malloc = s.toWriting.writebuffern c := by
  simp [Stream.fputc, htakes, hnbuf, Stream.toWriting]

lemma Stream.fputc_noMemory (hnbuf : s.flags.nbuf = false)
    (hbuffer : s.buffer = false) : s.fputc c none = s.noMemory.writebuffern c := by
  simp [Stream.fputc, htakes, hnbuf, hbuffer, Stream.toWriting, Stream.noMemory]

lemma Stream.fputc_allocated {content : Nat → UInt8}
    (hnbuf : s.flags.nbuf = false) (hbuffer : s.buffer = false) :
    s.fputc c (some content) = (s.toWriting.allocate content).putBuffered c := by
  simp [Stream.fputc, htakes, hnbuf, hbuffer, Stream.toWriting]

lemma Stream.fputc_buffered {malloc : Memory}
    (hnbuf : s.flags.nbuf = false) (hbuffer : s.buffer = true) :
    s.fputc c malloc = s.toWriting.putBuffered c := by
  simp [Stream.fputc, htakes, hnbuf, hbuffer, Stream.toWriting]

end

/-- The stream between two calls. -/
structure Stream.Sound (s : Stream) : Prop where
  fd : 0 ≤ s.fd
  inside : s.inside = true
  validsize : s.validsize < 2 ^ 32
  count : s.count < 2 ^ 32
  sized : s.buffer = true → s.bufsize = s.size ∧ 0 < s.size ∧ s.size < 2 ^ 32
  writing : s.flags.writing = true → s.flags.nbuf = false → s.buffer = true ∧
    subWord s.validsize s.count = s.bufptr ∧ s.bufptr ≤ s.size
  apart : s.flags.reading = true → s.flags.writing = false

namespace Stream.Sound

lemma output_not_writing (h : s.flags.writing = false) : s.output = s.written := by
  rw [Stream.output, if_neg (by simp [h]), List.append_nil]

lemma output_nbuf (h : s.flags.nbuf = true) : s.output = s.written := by
  rw [Stream.output, if_neg (by simp [h]), List.append_nil]

lemma output_writing (h : s.flags.writing = true) (hnbuf : s.flags.nbuf = false) :
    s.output = s.written ++ s.front s.bufptr := by
  rw [Stream.output, if_pos ⟨h, hnbuf⟩]

/-- A stream that fits a character has its buffer's characters put out. -/
lemma output_front (hfits : s.Fits) (hnbuf : s.flags.nbuf = false) :
    s.output = s.written ++ s.front s.bufptr := by
  cases hwriting : s.flags.writing with
  | true => exact output_writing hwriting hnbuf
  | false =>
    rw [output_not_writing hwriting, hfits.rest hwriting, Stream.front_zero, List.append_nil]

/-- What the write paths leave. -/
lemma puts (hputs : s.Puts s' bytes) (hfd : 0 ≤ s.fd) (hwriting : s.flags.writing = true)
    (hreading : s.flags.reading = false) (hnbuf : s.flags.nbuf = false) (hbuffer : s.buffer = true)
    (hsized : s.bufsize = s.size ∧ 0 < s.size ∧ s.size < 2 ^ 32) :
    s'.Sound ∧ s'.output = s.written ++ s.front s.bufptr ++ bytes := by
  have hwriting' : s'.flags.writing = true := by rw [hputs.flags]; exact hwriting
  have hreading' : s'.flags.reading = false := by rw [hputs.flags]; exact hreading
  have hnbuf' : s'.flags.nbuf = false := by rw [hputs.flags]; exact hnbuf
  refine ⟨⟨?_, hputs.inside, hputs.validsize, hputs.count, ?_, ?_, ?_⟩, ?_⟩
  · rw [hputs.fd]
    exact hfd
  · rw [hputs.bufsize, hputs.size]
    exact fun _ => hsized
  · rw [hputs.buffer, hputs.size]
    exact fun _ _ => ⟨hbuffer, hputs.used, hputs.bufptr⟩
  · rw [hreading']
    exact nofun
  · rw [output_writing hwriting' hnbuf']
    exact hputs.output

/-- An unbuffered stream that is being written. -/
lemma unbuffered (hfd : 0 ≤ s.fd) (hinside : s.inside = true) (hvalid : s.validsize < 2 ^ 32)
    (hcount : s.count < 2 ^ 32)
    (hsized : s.buffer = true → s.bufsize = s.size ∧ 0 < s.size ∧ s.size < 2 ^ 32)
    (hnbuf : s.flags.nbuf = true) (hreading : s.flags.reading = false) : s.Sound := by
  refine ⟨hfd, hinside, hvalid, hcount, hsized, ?_, ?_⟩
  · rw [hnbuf]
    exact fun _ => nofun
  · rw [hreading]
    exact nofun

/-- An unbuffered character is put out at once. -/
lemma writebuffern (h : s.Sound) (hnbuf : s.flags.nbuf = true)
    (hreading : s.flags.reading = false) (c : Int) :
    (s.writebuffern c).1.Sound ∧
      (s.writebuffern c).1.output = s.written ++ expected s.flags.bin (toChar c) ∧
      (s.writebuffern c).1.flags.bin = s.flags.bin := by
  rw [Stream.writebuffern, if_neg (Int.not_lt.mpr h.fd)]
  refine ⟨unbuffered h.fd h.inside h.validsize h.count h.sized hnbuf hreading, ?_, rfl⟩
  exact output_nbuf (s := { s with written := _ }) hnbuf

/-- A stream without a buffer has nothing in it. -/
lemma output_no_buffer (h : s.Sound) (hbuffer : s.buffer = false) : s.output = s.written := by
  cases hwriting : s.flags.writing with
  | false => exact output_not_writing hwriting
  | true =>
    cases hnbuf : s.flags.nbuf with
    | true => exact output_nbuf hnbuf
    | false =>
      have hsome := (h.writing hwriting hnbuf).1
      rw [hbuffer] at hsome
      cases hsome

/-- A character for a stream without a buffer. -/
lemma fputc_allocate (h : s.Sound) {malloc : Memory} (hnbuf : s.flags.nbuf = false)
    (hbuffer : s.buffer = false) (htakes : s.refuses = false)
    (hnewline : malloc.isNone ∨ s.NewlineOk c) :
    (s.fputc c malloc).1.Sound ∧
      (s.fputc c malloc).1.output = s.output ++ expected s.flags.bin (toChar c) ∧
      (s.fputc c malloc).1.flags.bin = s.flags.bin := by
  rw [h.output_no_buffer hbuffer]
  cases malloc with
  | none =>
    rw [fputc_noMemory htakes hnbuf hbuffer]
    have hsound : s.noMemory.Sound := by
      apply unbuffered (s := s.noMemory) h.fd h.inside _ _ _ rfl rfl
      · exact Nat.two_pow_pos 32
      · exact Nat.two_pow_pos 32
      · change s.buffer = true → _
        rw [hbuffer]
        exact nofun
    exact writebuffern hsound rfl rfl c
  | some content =>
    rw [Stream.fputc_allocated htakes hnbuf hbuffer]
    have hnew : s.NewlineOk c := by
      rcases hnewline with hnone | hok
      · cases hnone
      · exact hok
    have hsize : 0 < BUFSIZ ∧ BUFSIZ < 2 ^ 32 := by
      rw [BUFSIZ]
      omega
    have hready : (s.toWriting.allocate content).Ready c := by
      refine ⟨h.fd, h.inside, hsize.2, hsize.2, hsize, ⟨nofun, ?_, ?_, ?_⟩, hnew⟩
      · exact subWord_self BUFSIZ
      · exact fun _ => hsize.1
      · exact fun _ => Nat.ne_of_gt hsize.1
    have hputs := hready.put
    have hsound := puts hputs h.fd rfl rfl hnbuf rfl ⟨rfl, hsize⟩
    have hbin : (s.toWriting.allocate content).written ++
        (s.toWriting.allocate content).front (s.toWriting.allocate content).bufptr =
          s.written := List.append_nil s.written
    rw [hbin] at hsound
    refine ⟨hsound.1, hsound.2, ?_⟩
    rw [hputs.flags]
    rfl

/-- `fputc` on a prepared stream puts its character out once. -/
lemma fputc (h : s.Sound) {malloc : Memory} (htakes : s.refuses = false)
    (hprepared : s.flags.nbuf = false → (s.buffer = false ∧ malloc.isNone) ∨
      (s.NewlineOk c ∧ (s.buffer = true → s.Fits))) :
    (s.fputc c malloc).1.Sound ∧
      (s.fputc c malloc).1.output = s.output ++ expected s.flags.bin (toChar c) ∧
      (s.fputc c malloc).1.flags.bin = s.flags.bin := by
  cases hnbuf : s.flags.nbuf with
  | true =>
    rw [fputc_unbuffered htakes hnbuf, output_nbuf hnbuf]
    have hsound : s.toWriting.Sound :=
      unbuffered h.fd h.inside h.validsize h.count h.sized hnbuf rfl
    exact writebuffern hsound hnbuf rfl c
  | false =>
    cases hbuffer : s.buffer with
    | false =>
      apply h.fputc_allocate hnbuf hbuffer htakes
      rcases hprepared hnbuf with hnone | hok
      · exact .inl hnone.2
      · exact .inr hok.1
    | true =>
      have hok : s.NewlineOk c ∧ (s.buffer = true → s.Fits) := by
        rcases hprepared hnbuf with hnone | hok
        · rw [hbuffer] at hnone
          cases hnone.1
        · exact hok
      have hfits := hok.2 hbuffer
      have hsized := h.sized hbuffer
      have hready : s.toWriting.Ready c :=
        ⟨h.fd, h.inside, h.validsize, h.count, hsized.2,
          ⟨nofun, hfits.used, hfits.room, hfits.line⟩, hok.1⟩
      have hputs := hready.put
      have hsound := puts hputs h.fd rfl rfl hnbuf hbuffer hsized
      rw [fputc_buffered htakes hnbuf hbuffer, output_front hfits hnbuf]
      refine ⟨hsound.1, hsound.2, ?_⟩
      rw [hputs.flags]
      rfl

lemma fflush_idle (h : (s.flags.nbuf || !(s.flags.writing || s.flags.reading)) = true) :
    s.fflush = (s, 0) := by
  rw [Stream.fflush, if_pos h]

/-- `fflush` of a stream that is being read. -/
lemma fflush_reading (h : s.Sound) (hnbuf : s.flags.nbuf = false)
    (hreading : s.flags.reading = true) :
    s.fflush.1.Sound ∧ s.fflush.1.written = s.output ∧ s.fflush.1.output = s.output ∧
      s.fflush.1.flags.bin = s.flags.bin := by
  have hwriting := h.apart hreading
  have hbusy : ¬(s.flags.nbuf || !(s.flags.writing || s.flags.reading)) = true := by
    simp [hnbuf, hreading]
  rw [Stream.fflush, if_neg hbusy, if_pos hreading, output_not_writing hwriting]
  have hflags : (if s.flags.write then { s.flags with reading := false, writing := false }
      else s.flags).writing = false := by
    split
    · rfl
    · exact hwriting
  refine ⟨⟨h.fd, h.inside, h.validsize, Nat.two_pow_pos 32, h.sized, ?_, ?_⟩, rfl,
    output_not_writing hflags, ?_⟩
  · change (if s.flags.write then _ else _ : Flags).writing = true → _
    rw [hflags]
    exact nofun
  · exact fun _ => hflags
  · change (if s.flags.write then _ else _ : Flags).bin = _
    split <;> rfl

/-- A stream whose buffer holds nothing. -/
lemma emptied (hfd : 0 ≤ s.fd) (hinside : s.inside = true) (hvalid : s.validsize < 2 ^ 32)
    (hcount : s.count < 2 ^ 32)
    (hsized : s.buffer = true → s.bufsize = s.size ∧ 0 < s.size ∧ s.size < 2 ^ 32)
    (hbuffer : s.buffer = true) (hused : subWord s.validsize s.count = 0) (hptr : s.bufptr = 0)
    (hreading : s.flags.reading = false) : s.Sound ∧ s.output = s.written := by
  refine ⟨⟨hfd, hinside, hvalid, hcount, hsized, ?_, ?_⟩, ?_⟩
  · rw [hptr]
    exact fun _ _ => ⟨hbuffer, hused, Nat.zero_le _⟩
  · rw [hreading]
    exact nofun
  · rw [Stream.output, hptr, Stream.front_zero, ite_self, List.append_nil]

/-- `fflush` of a stream that is being written. -/
lemma fflush_writing (h : s.Sound) (hnbuf : s.flags.nbuf = false)
    (hreading : s.flags.reading = false) (hwriting : s.flags.writing = true) :
    s.fflush.1.Sound ∧ s.fflush.1.written = s.output ∧ s.fflush.1.output = s.output ∧
      s.fflush.1.flags.bin = s.flags.bin := by
  have hused := h.writing hwriting hnbuf
  have hsized := h.sized hused.1
  have hbusy : ¬(s.flags.nbuf || !(s.flags.writing || s.flags.reading)) = true := by
    simp [hnbuf, hwriting]
  rw [output_writing hwriting hnbuf, Stream.fflush, if_neg hbusy, if_neg (by simp [hreading])]
  generalize hflags : (if s.flags.read then { s.flags with writing := false } else s.flags) = f
  have hstream : (if s.flags.read then { s with flags := { s.flags with writing := false } }
      else s : Stream) = { s with flags := f } := by
    rw [← hflags]
    split <;> rfl
  have hfreading : f.reading = false := by
    rw [← hflags]
    split <;> exact hreading
  have hfbin : f.bin = s.flags.bin := by
    rw [← hflags]
    split <;> rfl
  simp only [hstream]
  rw [hused.2.1]
  by_cases hzero : s.bufptr = 0
  · have hfront : s.front s.bufptr = [] := by rw [hzero, Stream.front_zero]
    rw [if_pos hzero, hfront, List.append_nil]
    have hempty := emptied (s := { s with flags := f }) h.fd h.inside h.validsize h.count h.sized
      hused.1 (hused.2.1.trans hzero) hzero hfreading
    exact ⟨hempty.1, rfl, hempty.2, hfbin⟩
  · rw [if_neg hzero]
    have hlt : s.bufsize < 2 ^ 32 := by
      rw [hsized.1]
      exact hsized.2.2
    have hempty := emptied (s := Stream.writeFront { s with
      flags := f, bufptr := 0, count := s.bufsize, validsize := s.bufsize } s.bufptr) h.fd h.inside
      hlt hlt h.sized hused.1 (subWord_self _) rfl hfreading
    exact ⟨hempty.1, rfl, hempty.2, hfbin⟩

/-- `fflush` passes the rest to `write`. -/
lemma fflush (h : s.Sound) : s.fflush.1.Sound ∧ s.fflush.1.written = s.output ∧
    s.fflush.1.output = s.output ∧ s.fflush.1.flags.bin = s.flags.bin := by
  cases hnbuf : s.flags.nbuf with
  | true =>
    rw [fflush_idle (by rw [hnbuf, Bool.true_or])]
    exact ⟨h, (output_nbuf hnbuf).symm, rfl, rfl⟩
  | false =>
    cases hreading : s.flags.reading with
    | true => exact h.fflush_reading hnbuf hreading
    | false =>
      cases hwriting : s.flags.writing with
      | true => exact h.fflush_writing hnbuf hreading hwriting
      | false =>
        rw [fflush_idle (by rw [hnbuf, hreading, hwriting]; rfl)]
        exact ⟨h, (output_not_writing hwriting).symm, rfl, rfl⟩

/-- A stream that is not being written. -/
lemma not_writing (hfd : 0 ≤ s.fd) (hinside : s.inside = true) (hvalid : s.validsize < 2 ^ 32)
    (hcount : s.count < 2 ^ 32)
    (hsized : s.buffer = true → s.bufsize = s.size ∧ 0 < s.size ∧ s.size < 2 ^ 32)
    (hwriting : s.flags.writing = false) : s.Sound := by
  refine ⟨hfd, hinside, hvalid, hcount, hsized, ?_, fun _ => hwriting⟩
  rw [hwriting]
  exact nofun

variable (h : s.Sound)
include h

/-- `setvbuf` of a stream that has not been used. -/
lemma setvbuf (buf malloc : Memory) (mode : Option BufMode) {size : Nat}
    (hreading : s.flags.reading = false) (hwriting : s.flags.writing = false)
    (hsize : 0 < size ∧ size < 2 ^ 32) :
    (s.setvbuf buf mode size malloc).1.Sound ∧
      (s.setvbuf buf mode size malloc).1.output = s.output ∧
      (s.setvbuf buf mode size malloc).1.flags.bin = s.flags.bin ∧
      (s.setvbuf buf mode size malloc).1.flags.reading = false ∧
      (s.setvbuf buf mode size malloc).1.flags.writing = false := by
  cases mode with
  | none => exact ⟨h, rfl, rfl, hreading, hwriting⟩
  | some mode =>
    simp only [Stream.setvbuf]
    generalize (if (buf.isNone && mode != .IONBF && size ≠ 0) = true then malloc
      else buf) = memory
    refine ⟨?_, ?_, trivial, hreading, hwriting⟩
    · refine not_writing h.fd h.inside h.validsize (Nat.two_pow_pos 32) ?_ hwriting
      intro hsome
      simp only at hsome
      simp only [hsome, if_true, true_and]
      exact hsize
    · rw [output_not_writing hwriting, output_not_writing]
      exact hwriting

/-- The buffer a reader gets. -/
lemma readSetup (malloc : Memory) (hwriting : s.flags.writing = false) :
    (s.readSetup malloc).Sound ∧ (s.readSetup malloc).flags.writing = false ∧
      (s.readSetup malloc).written = s.written ∧
      (s.readSetup malloc).flags.bin = s.flags.bin ∧
      ((s.readSetup malloc).flags.nbuf = false → (s.readSetup malloc).buffer = true) := by
  unfold Stream.readSetup
  split
  · next hready =>
      refine ⟨h, hwriting, rfl, rfl, fun hnbuf => ?_⟩
      simpa [hnbuf] using hready
  · next hready =>
      simp only [Bool.not_eq_true, Bool.or_eq_false_iff] at hready
      cases malloc with
      | none =>
        refine ⟨?_, hwriting, rfl, rfl, nofun⟩
        refine not_writing h.fd h.inside h.validsize h.count ?_ hwriting
        change s.buffer = true → _
        rw [hready.2]
        exact nofun
      | some content =>
        have hsize : 0 < BUFSIZ ∧ BUFSIZ < 2 ^ 32 := by
          rw [BUFSIZ]
          omega
        refine ⟨?_, hwriting, rfl, rfl, fun _ => rfl⟩
        exact not_writing h.fd h.inside h.validsize h.count (fun _ => ⟨rfl, hsize⟩) hwriting

/-- What is read fits into the buffer. -/
lemma readInto (data : List UInt8) (hwriting : s.flags.writing = false)
    (hlength : s.flags.nbuf = false → data.length ≤ s.size) :
    (s.readInto data).Sound ∧ (s.readInto data).flags = s.flags ∧
      (s.readInto data).written = s.written := by
  unfold Stream.readInto
  split
  · exact ⟨h, rfl, rfl⟩
  · next hnbuf =>
      refine ⟨?_, rfl, rfl⟩
      refine not_writing h.fd ?_ h.validsize h.count h.sized hwriting
      simp only [h.inside, Bool.true_and, decide_eq_true_eq]
      exact hlength (Bool.not_eq_true _ ▸ hnbuf)

/-- The buffer is filled or the end of the file is noted. -/
lemma readbuffer (malloc : Memory) (data : List UInt8) :
    (s.readbuffer malloc data).1.Sound ∧ (s.readbuffer malloc data).1.output = s.output ∧
      (s.readbuffer malloc data).1.flags.bin = s.flags.bin := by
  unfold Stream.readbuffer
  split
  · exact ⟨h, rfl, rfl⟩
  split
  · exact ⟨⟨h.fd, h.inside, h.validsize, h.count, h.sized, h.writing, h.apart⟩, rfl, rfl⟩
  next hreads =>
    simp only [Bool.not_eq_true, Bool.or_eq_false_iff] at hreads
    have hwriting := hreads.2
    have hstart : ({ s with flags := { s.flags with reading := true } } : Stream).Sound :=
      not_writing h.fd h.inside h.validsize h.count h.sized hwriting
    have hsetup := hstart.readSetup malloc hwriting
    generalize ({ s with flags := { s.flags with reading := true } } : Stream).readSetup malloc = t
      at hsetup ⊢
    have hreset : ({ t with count := 0, bufptr := 0 } : Stream).Sound :=
      not_writing hsetup.1.fd hsetup.1.inside hsetup.1.validsize (Nat.two_pow_pos 32)
        hsetup.1.sized hsetup.2.1
    generalize hbytes : data.take (if t.flags.nbuf then 1 else t.bufsize) = bytes
    have hlength : t.flags.nbuf = false → bytes.length ≤ t.size := by
      intro hnbuf
      have hsized := hsetup.1.sized (hsetup.2.2.2.2 hnbuf)
      rw [← hbytes, hnbuf, ← hsized.1]
      exact List.length_take_le _ _
    have hcount : bytes.length - 1 < 2 ^ 32 := by
      cases hnbuf : t.flags.nbuf with
      | true =>
        have hone : bytes.length ≤ 1 := by
          rw [← hbytes, hnbuf]
          exact List.length_take_le _ _
        omega
      | false =>
        have hsized := hsetup.1.sized (hsetup.2.2.2.2 hnbuf)
        have hfits := hlength hnbuf
        omega
    have hread := hreset.readInto bytes hsetup.2.1 hlength
    simp only
    rw [hbytes]
    generalize ({ t with count := 0, bufptr := 0 } : Stream).readInto bytes = r at hread ⊢
    have hquiet : r.flags.writing = false := by
      rw [hread.2.1]
      exact hsetup.2.1
    have hwritten : r.written = s.written := hread.2.2.trans hsetup.2.2.1
    have hbin : r.flags.bin = s.flags.bin := by
      rw [hread.2.1]
      exact hsetup.2.2.2.1
    rw [output_not_writing hwriting, ← hwritten]
    split
    · refine ⟨?_, output_not_writing hquiet, hbin⟩
      exact not_writing hread.1.fd hread.1.inside (Nat.two_pow_pos 32) hread.1.count hread.1.sized
        hquiet
    · refine ⟨?_, output_not_writing hquiet, hbin⟩
      exact not_writing hread.1.fd hread.1.inside hcount hcount hread.1.sized hquiet

/-- `fgetc` puts nothing out. -/
lemma fgetc (malloc : Memory) (data : List UInt8)
    (hprepared : s.count ≠ 0 → s.flags.writing = false) :
    (s.fgetc malloc data).1.Sound ∧ (s.fgetc malloc data).1.output = s.output ∧
      (s.fgetc malloc data).1.flags.bin = s.flags.bin := by
  by_cases hcount : s.count ≠ 0
  · have hwriting := hprepared hcount
    have hless : s.count - 1 < 2 ^ 32 := by
      have hlt := h.count
      omega
    rw [Stream.fgetc, if_pos hcount, output_not_writing hwriting]
    refine ⟨?_, output_not_writing hwriting, rfl⟩
    exact not_writing h.fd h.inside h.validsize hless h.sized hwriting
  · rw [Stream.fgetc, if_neg hcount]
    exact h.readbuffer malloc data

end Stream.Sound

/-! ## Runs -/

/-- The account of the characters put. -/
structure Use.Accounted (u : Use) : Prop where
  sound : u.stream.Sound
  fresh : u.started = false → u.stream.flags.reading = false ∧ u.stream.flags.writing = false
  output : u.stream.output = u.put.flatMap (expected u.stream.flags.bin)

lemma Use.Accounted.start (h : s.Opened) : Use.Accounted ⟨s, false, []⟩ := by
  have hsound : s.Sound := by
    refine Stream.Sound.not_writing h.fd h.inside h.validsize ?_ ?_ h.writing
    · rw [h.count]
      exact Nat.two_pow_pos 32
    · rw [h.buffer]
      exact nofun
  refine ⟨hsound, fun _ => ⟨h.reading, h.writing⟩, ?_⟩
  exact (Stream.Sound.output_not_writing h.writing).trans h.written

/-- Each call keeps the account of the characters put. -/
theorem Use.Accounted.exec {u : Use} (h : u.Accounted) {r : Request} (hallowed : Allowed u r)
    (hprepared : Prepared u r) : (u.exec r).Accounted := by
  cases r with
  | setvbuf buf mode size malloc =>
    have hfresh := h.fresh hallowed.1
    have hset := h.sound.setvbuf buf malloc mode hfresh.1 hfresh.2 hallowed.2
    refine ⟨hset.1, fun _ => hset.2.2.2, ?_⟩
    simp only [Use.exec, hset.2.1, hset.2.2.1]
    exact h.output
  | fputc c malloc =>
    cases htakes : u.stream.refuses with
    | true =>
      have hsame : u.exec (.fputc c malloc) = { u with started := true } := by
        simp only [Use.exec, Stream.fputc, htakes, if_true]
      rw [hsame]
      exact ⟨h.sound, nofun, h.output⟩
    | false =>
      have hput := h.sound.fputc htakes (hprepared htakes)
      refine ⟨hput.1, nofun, ?_⟩
      simp only [Use.exec, htakes, Bool.false_eq_true, if_false, hput.2.1, hput.2.2, h.output,
        List.flatMap_append, List.flatMap_singleton]
  | fflush =>
    have hflush := h.sound.fflush
    refine ⟨hflush.1, fun hfresh => ?_, ?_⟩
    · have hidle := h.fresh hfresh
      simp only [Use.exec]
      rw [Stream.Sound.fflush_idle (by simp [hidle])]
      exact hidle
    · simp only [Use.exec, hflush.2.2.1, hflush.2.2.2]
      exact h.output
  | fgetc malloc data =>
    have hget := h.sound.fgetc malloc data hprepared
    refine ⟨hget.1, nofun, ?_⟩
    simp only [Use.exec, hget.2.1, hget.2.2]
    exact h.output

/-- The output is faithful in every run whose calls find the stream prepared. -/
theorem buffered_output {s₀ : Stream} {u : Use} (hopened : s₀.Opened)
    (hrun : Runs Use.exec (fun u r => Allowed u r ∧ Prepared u r) ⟨s₀, false, []⟩ u) :
    u.Faithful := by
  have haccounted : u.Accounted :=
    hrun.invariant (P := Use.Accounted) (fun _ _ h hok => h.exec hok.1 hok.2)
      (Use.Accounted.start hopened)
  exact ⟨haccounted.sound.inside, haccounted.sound.fflush.2.1.trans haccounted.output⟩

/-- The flags of a stream opened with `w` or `wb`. -/
def writeFlags (bin : Bool) : Flags :=
  ⟨false, true, false, false, false, false, false, false, false, false, false, bin⟩

lemma opened_writeFlags (bin : Bool) : (Stream.opened 3 (writeFlags bin) 0 fun _ => 0).Opened :=
  ⟨Int.zero_le_ofNat 3, rfl, rfl, rfl, rfl, rfl, rfl, Nat.two_pow_pos 32, rfl, rfl⟩

/-- Two characters go to a binary stream. -/
theorem buffered_output_two : ∃ u : Use, u.put = [0x61, 0x0A] ∧ u.stream.flags.bin = true ∧
    u.Faithful := by
  let u₀ : Use := ⟨Stream.opened 3 (writeFlags true) 0 fun _ => 0, false, []⟩
  let first : Request := .fputc 0x61 (some fun _ => 0)
  let second : Request := .fputc 0x0A none
  have hfirst : Allowed u₀ first ∧ Prepared u₀ first :=
    ⟨trivial, fun _ _ => .inr ⟨fun _ => .inl rfl, nofun⟩⟩
  have hsecond : Allowed (u₀.exec first) second ∧ Prepared (u₀.exec first) second :=
    ⟨trivial, fun _ _ => .inr ⟨fun _ => .inl rfl, fun _ => ⟨nofun, by decide, by decide, nofun⟩⟩⟩
  have hrun : Runs Use.exec (fun u r => Allowed u r ∧ Prepared u r) u₀
      ((u₀.exec first).exec second) := ((Runs.refl u₀).snoc hfirst).snoc hsecond
  exact ⟨_, rfl, rfl, buffered_output (opened_writeFlags true) hrun⟩

/-- A line-buffered stream with a buffer of its own loses a character. -/
theorem buffered_output_broken : ¬∀ (s₀ : Stream) (u : Use), s₀.Opened →
    Runs Use.exec Allowed ⟨s₀, false, []⟩ u → u.Faithful := by
  intro hclaim
  let u₀ : Use := ⟨Stream.opened 3 (writeFlags true) 0 fun _ => 0, false, []⟩
  let first : Request := .setvbuf (some fun _ => 0) (some .IOLBF) 4 none
  let second : Request := .fputc 0x61 none
  have hfirst : Allowed u₀ first := ⟨rfl, by decide, by decide⟩
  have hsecond : Allowed (u₀.exec first) second := trivial
  have hrun : Runs Use.exec Allowed u₀ ((u₀.exec first).exec second) :=
    ((Runs.refl u₀).snoc hfirst).snoc hsecond
  have hlost := (hclaim _ _ (opened_writeFlags true) hrun).output
  exact absurd hlost (by decide)

end DiegOS.Libc
