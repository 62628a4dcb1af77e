import DiegOS.Lib.ByteFiles
import DiegOS.Libc.StreamInput

/-!
# Positions in streams

A stream over a file with an offset: `fgetc`, `fputc`, `fflush`, `fseek` and
`ftell`, where `read`, `write` and `lseek` do what they say.  The descriptor is
ahead of a stream that is being read and behind one that is being written.

Main results:

- Theorem `Positioned.fputc_does`, Theorem `Positioned.fflush_does`: what the calls do
  is what they do without a file, and the bytes they pass to `write` go to the file.
- Theorem `Positioned.Placed.exec`: each call keeps the buffer and the descriptor together.
- Theorem `stream_position`: the positions are right in every run whose calls find the
  stream prepared.
- Theorem `stream_position_broken`: `ftell` adds what is left in the buffer.
-/

namespace DiegOS.Libc

open Lib (Along ByteFile OpenFile Origin)

/-! ## The code -/

/-- A stream over a file. -/
structure Positioned where
  stream : Stream
  file : OpenFile

namespace Positioned

def writebuffern (c : Int) (p : Positioned) : Positioned × Int :=
  let s := p.stream
  if s.fd < 0 then (⟨{ s with flags := { s.flags with error := true } }, p.file⟩, EOF)
  else
    (⟨s, p.file.write s.flags.append
      (if toChar c = newline ∧ s.flags.bin = false then [toChar c, carriageReturn]
        else [toChar c])⟩, c)

def writebufferl (c : Int) (p : Positioned) : Positioned × Int :=
  let s := p.stream
  let s := if s.count ≠ 0 then { s with count := s.count - 1 }.store (toChar c) else s
  if c = 10 ∨ s.count = 0 then
    if s.fd < 0 then (⟨{ s with flags := { s.flags with error := true } }, p.file⟩, EOF)
    else
      let count := subWord s.validsize s.count
      let file := p.file.write s.flags.append (s.front count)
      let s := { s with bufptr := 0, count := s.validsize }
      if c = 10 ∧ s.flags.bin = false then (⟨s, file.write false [carriageReturn]⟩, c)
      else (⟨s, file⟩, c)
  else (⟨s, p.file⟩, c)

def writebuffer (c : Int) (p : Positioned) : Positioned × Int :=
  let s := p.stream
  if s.count ≠ 0 then (⟨{ s with count := s.count - 1 }.store (toChar c), p.file⟩, c)
  else if s.fd < 0 then (⟨{ s with flags := { s.flags with error := true } }, p.file⟩, EOF)
  else
    let count := subWord s.validsize s.count
    let file := p.file.write s.flags.append (s.front count)
    (⟨{ s with count := subWord s.validsize 1, bufptr := 0 }.store (toChar c), file⟩, c)

/-- The fourth stage of `fputc`. -/
def putBuffered (c : Int) (p : Positioned) : Positioned × Int :=
  if p.stream.flags.lbuf then p.writebufferl c else p.writebuffer c

def fputc (c : Int) (malloc : Memory) (p : Positioned) : Positioned × Int :=
  if p.stream.refuses then (p, EOF)
  else
    let s := p.stream.toWriting
    if s.flags.nbuf then Positioned.mk s p.file |>.writebuffern c
    else if !s.buffer then
      match malloc with
      | none => Positioned.mk p.stream.noMemory p.file |>.writebuffern c
      | some content => Positioned.mk (s.allocate content) p.file |>.putBuffered c
    else Positioned.mk s p.file |>.putBuffered c

def fgetc (malloc : Memory) (p : Positioned) : Positioned × Int :=
  let r := p.stream.fgetcBy OpenFile.read malloc p.file
  (⟨r.1.1, r.1.2⟩, r.2)

/-- `fflush` of one stream. -/
def fflush (p : Positioned) : Positioned × Int :=
  let s := p.stream
  if s.flags.nbuf || !(s.flags.writing || s.flags.reading) then (p, 0)
  else if s.flags.reading then
    let adjust := -(s.count : Int)
    let s := { s with count := 0 }
    match p.file.lseek adjust .CUR with
    | none => (⟨{ s with flags := { s.flags with error := true } }, p.file⟩, EOF)
    | some file =>
      (⟨{ s with
          bufptr := 0
          flags := if s.flags.write then { s.flags with reading := false, writing := false }
            else s.flags }, file⟩, 0)
  else
    let s := if s.flags.read then { s with flags := { s.flags with writing := false } } else s
    let count := subWord s.validsize s.count
    if count = 0 then (⟨s, p.file⟩, 0)
    else
      (⟨{ s with bufptr := 0, count := s.bufsize, validsize := s.bufsize },
        p.file.write s.flags.append (s.front count)⟩, 0)

def clearerr (p : Positioned) : Positioned :=
  { p with stream := { p.stream with
      flags := { p.stream.flags with eof := false, error := false } } }

/-- What `fseek` does before it moves the descriptor, and what it takes off the distance. -/
def settle (origin : Origin) (p : Positioned) : Positioned × Int :=
  let s := p.stream
  if s.flags.reading then
    ({ p with stream := { s with count := 0 } },
      if origin = .CUR ∧ s.buffer ∧ !s.flags.nbuf then s.count else 0)
  else if s.flags.writing then (p.fflush.1, 0)
  else (p, 0)

def fseek (distance : Int) (origin : Origin) (p : Positioned) : Positioned × Int :=
  let (p, adjust) := p.clearerr.settle origin
  let pos := p.file.lseek (distance - adjust) origin
  let s := p.stream
  let flags := if s.flags.read && s.flags.write then
    { s.flags with reading := false, writing := false } else s.flags
  (⟨{ s with flags := flags, bufptr := 0 }, pos.getD p.file⟩, if pos = none then -1 else 0)

/-- `ftell`; where the descriptor is can always be told. -/
def ftell (p : Positioned) : Int :=
  let s := p.stream
  let adjust : Int :=
    if s.flags.reading then s.count
    else if s.flags.writing && s.buffer && !s.flags.nbuf then s.bufptr
    else 0
  p.file.pos + adjust

/-! ## What goes to the file -/

/-- A call leaves a stream as it does without a file, and the bytes that it passes to
`write` go to the file. -/
structure Does (f : OpenFile) (append : Bool) (t : Stream) (q : Positioned) : Prop where
  stream : q.stream = { t with written := [] }
  file : q.file = f.write append t.written ∨ (t.written = [] ∧ q.file = f)

/-- A call that passes nothing. -/
lemma Does.of_same {f : OpenFile} {append : Bool} {t : Stream} (h : t.written = []) :
    Does f append t ⟨t, f⟩ := by
  refine ⟨?_, .inr ⟨h, ?_⟩⟩
  · dsimp only
    rw [← h]
  · dsimp only

/-- A call that passes some bytes. -/
lemma Does.of_write {f : OpenFile} {append : Bool} {t : Stream} {l : List UInt8}
    (h : t.written = []) :
    Does f append { t with written := t.written ++ l } ⟨t, f.write append l⟩ := by
  rw [h, List.nil_append]
  refine ⟨?_, .inl ?_⟩
  · dsimp only
    rw [← h]
  · dsimp only

/-- The buffer may be written before or after a character is stored. -/
lemma store_writeFront (s : Stream) (n : Nat) (c : UInt8) :
    (s.writeFront n).store c =
      { s.store c with written := (s.store c).written ++ s.front n } := rfl

lemma front_emptied (s : Stream) (n count validsize bufptr : Nat) :
    ({ s with count := count, validsize := validsize, bufptr := bufptr } : Stream).front n =
      s.front n := rfl

lemma store_written (s : Stream) (c : UInt8) : (s.store c).written = s.written := rfl

lemma front_refilled (s : Stream) (n count bufptr : Nat) :
    ({ s with count := count, bufptr := bufptr } : Stream).front n = s.front n := rfl

variable {p : Positioned} {c : Int}

lemma writebuffer_does (hfd : 0 ≤ p.stream.fd) (hwritten : p.stream.written = []) (c : Int) :
    Does p.file p.stream.flags.append (p.stream.writebuffer c).1 (p.writebuffer c).1 := by
  unfold writebuffer Stream.writebuffer
  dsimp only
  by_cases hcount : p.stream.count ≠ 0
  · rw [if_pos hcount, if_pos hcount]
    exact Does.of_same hwritten
  · rw [if_neg hcount, if_neg hcount, if_neg (Int.not_lt.mpr hfd), if_neg (Int.not_lt.mpr hfd)]
    generalize subWord p.stream.validsize p.stream.count = used
    generalize subWord p.stream.validsize 1 = count
    rw [store_writeFront, front_refilled]
    exact Does.of_write ((store_written _ _).trans hwritten)

lemma writebufferl_does (hfd : 0 ≤ p.stream.fd) (hbin : p.stream.flags.bin = true)
    (hwritten : p.stream.written = []) (c : Int) :
    Does p.file p.stream.flags.append (p.stream.writebufferl c).1 (p.writebufferl c).1 := by
  have hstored : ∀ t : Stream, t = (if p.stream.count ≠ 0 then
      { p.stream with count := p.stream.count - 1 }.store (toChar c) else p.stream) →
        t.fd = p.stream.fd ∧ t.flags = p.stream.flags ∧ t.written = [] := by
    rintro t rfl
    split_ifs
    · exact ⟨rfl, rfl, hwritten⟩
    · exact ⟨rfl, rfl, hwritten⟩
  unfold writebufferl Stream.writebufferl
  dsimp only
  generalize (if p.stream.count ≠ 0 then _ else p.stream) = t at hstored
  obtain ⟨htfd, hflags, hnone⟩ := hstored t rfl
  have hnot : ¬t.fd < 0 := by omega
  by_cases hflush : c = 10 ∨ t.count = 0
  · rw [if_pos hflush, if_pos hflush, if_neg hnot, if_neg hnot, ← hflags]
    generalize subWord t.validsize t.count = used
    have htbin : t.flags.bin = true := hflags ▸ hbin
    simp only [Stream.writeFront, front_refilled, htbin, reduceCtorEq, and_false, if_false]
    exact Does.of_write (t := { t with bufptr := 0, count := t.validsize }) hnone
  · rw [if_neg hflush, if_neg hflush]
    exact Does.of_same hnone

lemma putBuffered_does (hfd : 0 ≤ p.stream.fd) (hbin : p.stream.flags.bin = true)
    (hwritten : p.stream.written = []) (c : Int) :
    Does p.file p.stream.flags.append (p.stream.putBuffered c).1 (p.putBuffered c).1 := by
  unfold putBuffered Stream.putBuffered
  split_ifs
  · exact writebufferl_does hfd hbin hwritten c
  · exact writebuffer_does hfd hwritten c

theorem fputc_does {malloc : Memory} (hsound : p.stream.Sound) (hnbuf : p.stream.flags.nbuf = false)
    (hbin : p.stream.flags.bin = true) (hwritten : p.stream.written = [])
    (htakes : p.stream.refuses = false) (hmalloc : p.stream.buffer = false → malloc.isSome) :
    Does p.file p.stream.flags.append (p.stream.fputc c malloc).1 (p.fputc c malloc).1 := by
  have hnot : ¬p.stream.refuses = true := Bool.eq_false_iff.mp htakes
  have hnbuf' : ¬p.stream.toWriting.flags.nbuf = true := Bool.eq_false_iff.mp hnbuf
  unfold fputc
  rw [if_neg hnot]
  rw [if_neg hnbuf']
  cases hbuffer : p.stream.buffer with
  | true =>
    have hsome : ¬(!p.stream.toWriting.buffer) = true := by
      rw [show p.stream.toWriting.buffer = true from hbuffer]
      exact Bool.false_ne_true
    rw [if_neg hsome, Stream.fputc_buffered htakes hnbuf hbuffer]
    exact @putBuffered_does ⟨p.stream.toWriting, p.file⟩ hsound.fd hbin hwritten c
  | false =>
    have hnone : (!p.stream.toWriting.buffer) = true := by
      rw [show p.stream.toWriting.buffer = false from hbuffer]
      rfl
    obtain ⟨content, rfl⟩ := Option.isSome_iff_exists.mp (hmalloc hbuffer)
    rw [if_pos hnone, Stream.fputc_allocated htakes hnbuf hbuffer]
    exact @putBuffered_does ⟨p.stream.toWriting.allocate content, p.file⟩ hsound.fd hbin hwritten c

/-- A number of characters is passed, if there are any. -/
lemma Does.of_front {f : OpenFile} {append : Bool} {t : Stream} (happend : t.flags.append = append)
    (h : t.written = []) {n : Nat} {r : Stream × Int} {r' : Positioned × Int}
    (hr : r = if n = 0 then (t, (0 : Int))
      else (Stream.writeFront { t with
        bufptr := 0, count := t.bufsize, validsize := t.bufsize } n, 0))
    (hr' : r' = if n = 0 then (Positioned.mk t f, (0 : Int))
      else (⟨{ t with bufptr := 0, count := t.bufsize, validsize := t.bufsize },
        f.write t.flags.append (t.front n)⟩, 0)) :
    Does f append r.1 r'.1 := by
  subst happend
  by_cases hn : n = 0
  · rw [hr, hr', if_pos hn, if_pos hn]
    exact Does.of_same h
  · rw [hr, hr', if_neg hn, if_neg hn]
    dsimp only [Stream.writeFront]
    rw [front_emptied]
    exact Does.of_write (t := { t with
      bufptr := 0, count := t.bufsize, validsize := t.bufsize }) h

/-- `fflush` of a stream that is not being read. -/
theorem fflush_does (hreading : p.stream.flags.reading = false) (hwritten : p.stream.written = []) :
    Does p.file p.stream.flags.append p.stream.fflush.1 p.fflush.1 := by
  have hnot : ¬p.stream.flags.reading = true := Bool.eq_false_iff.mp hreading
  have hstream : ∀ t : Stream, t = (if p.stream.flags.read then
      { p.stream with flags := { p.stream.flags with writing := false } } else p.stream) →
        t.flags.append = p.stream.flags.append ∧ t.written = [] := by
    rintro t rfl
    split_ifs
    · exact ⟨rfl, hwritten⟩
    · exact ⟨rfl, hwritten⟩
  unfold fflush Stream.fflush
  by_cases hidle : (p.stream.flags.nbuf ||
      !(p.stream.flags.writing || p.stream.flags.reading)) = true
  · rw [if_pos hidle, if_pos hidle]
    exact Does.of_same hwritten
  · rw [if_neg hidle, if_neg hidle, if_neg hnot, if_neg hnot]
    generalize hread : (if p.stream.flags.read = true then _ else p.stream) = t
    obtain ⟨happend, hnone⟩ := hstream t hread.symm
    exact @Does.of_front _ _ t happend hnone (subWord t.validsize t.count) _ _ rfl rfl

/-! ## The position -/

/-- The file as it is once the buffer has been written. -/
def logical (p : Positioned) : ByteFile :=
  p.file.bytes.overlay (p.file.base p.stream.flags.append) p.stream.output

/-- The offset of the next character. -/
def offset (p : Positioned) : Nat :=
  if p.stream.flags.reading then p.file.pos - p.stream.count
  else if p.stream.flags.writing then
    p.file.base p.stream.flags.append + p.stream.output.length
  else if p.stream.flags.append && !p.stream.flags.read then p.file.bytes.size
  else p.file.pos

/-- What the buffer of a stream that is being read holds. -/
structure Fetched (p : Positioned) : Prop where
  read : p.stream.flags.read = true
  buffer : p.stream.buffer = true
  room : p.stream.bufptr + p.stream.count ≤ p.stream.size
  behind : p.stream.count ≤ p.file.pos
  inside : p.stream.count ≠ 0 → p.file.pos ≤ p.file.bytes.size
  cells : ∀ k < p.stream.count,
    p.stream.cells (p.stream.bufptr + k) = p.file.bytes.byte (p.file.pos - p.stream.count + k)

/-- The buffer and the descriptor belong together. -/
structure Placed (p : Positioned) : Prop where
  sound : p.stream.Sound
  written : p.stream.written = []
  nbuf : p.stream.flags.nbuf = false
  bin : p.stream.flags.bin = true
  error : p.stream.flags.error = false
  fetched : p.stream.flags.reading = true → p.Fetched
  eof : p.stream.flags.eof = true → p.logical.size ≤ p.offset
  append : p.stream.flags.writing = true → p.stream.flags.append = true →
    p.stream.flags.read = true → p.stream.bufptr = 0 → p.file.pos = p.file.bytes.size

lemma output_of_not_writing (hwritten : p.stream.written = [])
    (hwriting : p.stream.flags.writing = false) : p.stream.output = [] := by
  rw [Stream.Sound.output_not_writing hwriting, hwritten]

lemma logical_of_empty (h : p.stream.output = []) : p.logical = p.file.bytes := by
  rw [logical, h, ByteFile.overlay_nil]

/-- Behind the end of a stream that is appended to there is nothing. -/
lemma logical_append_size (happend : p.stream.flags.append = true) :
    p.logical.size = p.file.base p.stream.flags.append + p.stream.output.length := by
  rw [logical, happend]
  exact ByteFile.overlay_end _ _

/-- What goes to the file is where the buffer was to go. -/
lemma Does.logical {f : OpenFile} {t : Stream} {q : Positioned}
    (h : Does f t.flags.append t q) :
    q.logical = f.bytes.overlay (f.base t.flags.append) t.output ∧
      q.file.base q.stream.flags.append + q.stream.output.length =
        f.base t.flags.append + t.output.length := by
  have happend : q.stream.flags.append = t.flags.append := by rw [h.stream]
  have houtput : t.output = t.written ++ q.stream.output := by
    rw [h.stream]
    rfl
  rw [Positioned.logical, happend, houtput, List.length_append]
  rcases h.file with hfile | ⟨hnone, hfile⟩
  · rw [hfile, OpenFile.write_bytes, OpenFile.write_base, ByteFile.overlay_append]
    exact ⟨rfl, Nat.add_assoc _ _ _⟩
  · rw [hfile, hnone, List.nil_append, List.length_nil, Nat.zero_add]
    exact ⟨rfl, rfl⟩

namespace Placed

variable (h : p.Placed)
include h

lemma not_writing (hreading : p.stream.flags.reading = true) :
    p.stream.flags.writing = false := h.sound.apart hreading

/-- A stream at its end holds nothing unread. -/
lemma count_of_eof (hreading : p.stream.flags.reading = true)
    (heof : p.stream.flags.eof = true) : p.stream.count = 0 := by
  have hend := h.eof heof
  have hfetched := h.fetched hreading
  rw [logical_of_empty (output_of_not_writing h.written (h.not_writing hreading)), offset,
    if_pos hreading] at hend
  by_contra hcount
  have hinside := hfetched.inside hcount
  have hbehind := hfetched.behind
  omega

lemma output_length (hwriting : p.stream.flags.writing = true) :
    p.stream.output.length = p.stream.bufptr := by
  rw [Stream.Sound.output_writing hwriting h.nbuf, h.written, List.nil_append, Stream.front,
    List.length_map, List.length_range]

/-- The next character of a stream that can take it goes to the end or to the offset. -/
lemma base_eq (htakes : p.stream.refuses = false) :
    p.file.base p.stream.flags.append + p.stream.output.length =
      if p.stream.flags.append then p.logical.size else p.offset := by
  cases happend : p.stream.flags.append with
  | true =>
    rw [if_pos rfl, logical_append_size happend, happend]
  | false =>
    rw [if_neg Bool.false_ne_true, offset]
    cases hreading : p.stream.flags.reading with
    | true =>
      have hwriting := h.not_writing hreading
      have heof : p.stream.flags.eof = true := by
        have hend := (Bool.or_eq_false_iff.mp htakes).2
        rw [hreading, Bool.true_and, Bool.not_eq_false'] at hend
        exact hend
      rw [if_pos rfl, output_of_not_writing h.written hwriting, h.count_of_eof hreading heof]
      rfl
    | false =>
      rw [if_neg Bool.false_ne_true, happend]
      cases hwriting : p.stream.flags.writing with
      | true => rw [if_pos rfl]
      | false =>
        rw [if_neg Bool.false_ne_true, output_of_not_writing h.written hwriting]
        rfl

end Placed

/-- `fputc` changes no other flags than these. -/
lemma fputc_flags {s : Stream} {malloc : Memory} (hfd : 0 ≤ s.fd) (hnbuf : s.flags.nbuf = false)
    (htakes : s.refuses = false) (hmalloc : s.buffer = false → malloc.isSome) :
    ∃ relbuf, (s.fputc c malloc).1.flags =
      { s.flags with reading := false, writing := true, relbuf := relbuf } := by
  cases hbuffer : s.buffer with
  | true =>
    rw [Stream.fputc_buffered htakes hnbuf hbuffer]
    exact ⟨_, (Stream.putBuffered_wrote (by exact hfd) c).flags⟩
  | false =>
    obtain ⟨content, rfl⟩ := Option.isSome_iff_exists.mp (hmalloc hbuffer)
    rw [Stream.fputc_allocated htakes hnbuf hbuffer]
    exact ⟨_, (Stream.putBuffered_wrote (by exact hfd) c).flags⟩

namespace Placed

/-- A character that is put goes to the end or to the offset, and the next one behind it. -/
theorem fputc (h : p.Placed) {malloc : Memory} (htakes : p.stream.refuses = false)
    (hmalloc : p.stream.buffer = false → malloc.isSome)
    (hfits : p.stream.buffer = true → p.stream.Fits) :
    (p.fputc c malloc).1.Placed ∧
      (p.fputc c malloc).1.logical = p.logical.overlay
        (if p.stream.flags.append then p.logical.size else p.offset) [toChar c] ∧
      (p.fputc c malloc).1.offset =
        (if p.stream.flags.append then p.logical.size else p.offset) + 1 := by
  have hnewline : p.stream.NewlineOk c := fun _ => .inl h.bin
  obtain ⟨hsound, houtput, -⟩ := @Stream.Sound.fputc _ c h.sound malloc htakes
    fun _ => .inr ⟨hnewline, hfits⟩
  have hexpected : expected p.stream.flags.bin (toChar c) = [toChar c] := by
    rw [expected, h.bin]
    exact if_neg fun hbin => Bool.noConfusion hbin.2
  rw [hexpected] at houtput
  obtain ⟨relbuf, hflags⟩ := fputc_flags (c := c) h.sound.fd h.nbuf htakes hmalloc
  have hdoes := fputc_does (c := c) h.sound h.nbuf h.bin h.written htakes hmalloc
  have hbase := h.base_eq htakes
  revert hsound houtput hflags hdoes
  generalize (p.stream.fputc c malloc).1 = t
  generalize (p.fputc c malloc).1 = q
  intro hsound houtput hflags hdoes
  have happend : t.flags.append = p.stream.flags.append := by rw [hflags]
  rw [← happend] at hdoes
  obtain ⟨hlogical, hplace⟩ := hdoes.logical
  rw [happend, houtput, List.length_append, List.length_singleton] at hplace
  rw [happend, houtput, ← ByteFile.overlay_append, ← Positioned.logical, hbase] at hlogical
  have hqflags : q.stream.flags = t.flags := by rw [hdoes.stream]
  have hoffset : q.offset =
      (if p.stream.flags.append then p.logical.size else p.offset) + 1 := by
    rw [Positioned.offset, if_neg (by rw [hqflags, hflags]; exact Bool.false_ne_true),
      if_pos (by rw [hqflags, hflags]), hplace, ← Nat.add_assoc, hbase]
  refine ⟨⟨?_, ?_, ?_, ?_, ?_, ?_, ?_, ?_⟩, hlogical, hoffset⟩
  · rw [hdoes.stream]
    exact ⟨hsound.fd, hsound.inside, hsound.validsize, hsound.count, hsound.sized, hsound.writing,
      hsound.apart⟩
  · rw [hdoes.stream]
  · rw [hqflags, hflags]
    exact h.nbuf
  · rw [hqflags, hflags]
    exact h.bin
  · rw [hqflags, hflags]
    exact h.error
  · rw [hqflags, hflags]
    exact fun hfalse => absurd hfalse Bool.false_ne_true
  · rw [hqflags, hflags, hlogical, hoffset, ByteFile.overlay_size (List.cons_ne_nil _ _)]
    intro heof
    apply Nat.max_le.mpr
    refine ⟨?_, le_rfl⟩
    split_ifs
    · exact Nat.le_succ _
    · exact Nat.le_succ_of_le (h.eof heof)
  · intro hwriting hqappend _ hptr
    rcases hdoes.file with hfile | ⟨hnone, -⟩
    · have hbase' := OpenFile.write_base p.file t.flags.append t.written
      rw [← OpenFile.write_pos, ← hfile, ← hqflags, hqappend] at hbase'
      exact hbase'.symm
    · -- nothing has been written, so the character is in the buffer
      have hempty : q.stream.output = [] := by
        rw [Stream.Sound.output_writing hwriting (by rw [hqflags, hflags]; exact h.nbuf), hptr,
          hdoes.stream]
        rfl
      have hall : t.output = q.stream.output := by
        rw [hdoes.stream, Stream.output, hnone]
        rfl
      rw [hall, hempty] at houtput
      exact absurd houtput.symm (List.append_ne_nil_of_right_ne_nil _ (List.cons_ne_nil _ _))

end Placed

/-- What a call that takes the next character does. -/
structure Gets (p : Positioned) (r : Positioned × Int) : Prop where
  placed : r.1.Placed
  logical : r.1.logical = p.logical
  result : r.2 = if p.offset < p.logical.size then ofChar (p.logical.byte p.offset) else EOF
  offset : r.1.offset = if p.offset < p.logical.size then p.offset + 1 else p.offset

namespace Placed

lemma logical_of_not_writing (h : p.Placed) (hwriting : p.stream.flags.writing = false) :
    p.logical = p.file.bytes :=
  logical_of_empty (output_of_not_writing h.written hwriting)

lemma fgetc_buffered (h : p.Placed) (hcount : p.stream.count ≠ 0)
    (hreading : p.stream.flags.reading = true) :
    p.Gets (⟨{ p.stream with count := p.stream.count - 1, bufptr := p.stream.bufptr + 1 },
      p.file⟩, ofChar (p.stream.cells p.stream.bufptr)) := by
  have hwriting := h.not_writing hreading
  have hfetched := h.fetched hreading
  have hroom := hfetched.room
  have hbehind := hfetched.behind
  have hinside := hfetched.inside hcount
  have hlogical := h.logical_of_not_writing hwriting
  have hsound := h.sound.count
  have hoffset : p.offset = p.file.pos - p.stream.count := if_pos hreading
  have hnext : p.offset < p.logical.size := by
    rw [hlogical, hoffset]
    omega
  have hlogical' : (Positioned.mk { p.stream with
      count := p.stream.count - 1, bufptr := p.stream.bufptr + 1 } p.file).logical =
        p.file.bytes :=
    logical_of_empty (output_of_not_writing (p := ⟨{ p.stream with
      count := p.stream.count - 1, bufptr := p.stream.bufptr + 1 }, p.file⟩) h.written hwriting)
  have hoffset' : (Positioned.mk { p.stream with
      count := p.stream.count - 1, bufptr := p.stream.bufptr + 1 } p.file).offset =
        p.offset + 1 := by
    rw [hoffset, Positioned.offset, if_pos hreading]
    dsimp only
    omega
  refine ⟨⟨?_, h.written, h.nbuf, h.bin, h.error, ?_, ?_, ?_⟩, ?_, ?_, ?_⟩
  · refine Stream.Sound.not_writing h.sound.fd h.sound.inside h.sound.validsize ?_ h.sound.sized
      hwriting
    dsimp only
    omega
  · intro _
    refine ⟨hfetched.read, hfetched.buffer, ?_, ?_, fun _ => hinside, ?_⟩
    · dsimp only
      omega
    · dsimp only
      omega
    · dsimp only
      intro k hk
      have hcell := hfetched.cells (k + 1) (by omega)
      rw [show p.stream.bufptr + (k + 1) = p.stream.bufptr + 1 + k by omega,
        show p.file.pos - p.stream.count + (k + 1) = p.file.pos - (p.stream.count - 1) + k by
          omega] at hcell
      exact hcell
  · intro heof
    exact absurd (h.count_of_eof hreading heof) hcount
  · intro hwrites
    exact absurd hwrites (Bool.eq_false_iff.mp hwriting)
  · rw [hlogical', hlogical]
  · have hcell := hfetched.cells 0 (by omega)
    rw [if_pos hnext, hlogical, hoffset]
    exact congrArg ofChar hcell
  · rw [if_pos hnext]
    exact hoffset'

end Placed

/-- A stream that is about to be filled. -/
structure Fillable (s : Stream) : Prop where
  fd : 0 ≤ s.fd
  inside : s.inside = true
  validsize : s.validsize < 2 ^ 32
  written : s.written = []
  read : s.flags.read = true
  writing : s.flags.writing = false
  reading : s.flags.reading = true
  nbuf : s.flags.nbuf = false
  bin : s.flags.bin = true
  error : s.flags.error = false
  eof : s.flags.eof = false
  buffer : s.buffer = true
  sized : s.bufsize = s.size ∧ 0 < s.size ∧ s.size < 2 ^ 32

lemma Placed.readSetup (h : p.Placed) {malloc : Memory} (hread : p.stream.flags.read = true)
    (hwriting : p.stream.flags.writing = false) (heof : p.stream.flags.eof = false)
    (hmalloc : p.stream.buffer = false → malloc.isSome) :
    Fillable ({ p.stream with
      flags := { p.stream.flags with reading := true } }.readSetup malloc) := by
  unfold Stream.readSetup
  dsimp only
  rw [h.nbuf, Bool.false_or]
  cases hbuffer : p.stream.buffer with
  | true =>
    rw [if_pos rfl]
    exact ⟨h.sound.fd, h.sound.inside, h.sound.validsize, h.written, hread, hwriting, rfl, rfl,
      h.bin, h.error, heof, rfl, h.sound.sized hbuffer⟩
  | false =>
    obtain ⟨content, rfl⟩ := Option.isSome_iff_exists.mp (hmalloc hbuffer)
    rw [if_neg Bool.false_ne_true]
    exact ⟨h.sound.fd, h.sound.inside, h.sound.validsize, h.written, hread, hwriting, rfl, rfl,
      h.bin, h.error, heof, rfl, rfl, Reader.Sound.BUFSIZ_bounds⟩

/-- The bytes that are read, with the first of them returned. -/
lemma Fillable.fill {s : Stream} (h : Fillable s) (f : OpenFile) {r : Positioned × Int}
    (hr : r = (⟨(s.fillBy OpenFile.read f).1.1, (s.fillBy OpenFile.read f).1.2⟩,
      (s.fillBy OpenFile.read f).2)) :
    r.1.Placed ∧ r.1.logical = f.bytes ∧
      r.2 = (if f.pos < f.bytes.size then ofChar (f.bytes.byte f.pos) else EOF) ∧
      r.1.offset = if f.pos < f.bytes.size then f.pos + 1 else f.pos := by
  obtain ⟨hbufsize, hpos, hlt⟩ := h.sized
  have hasked : (if s.flags.nbuf = true then 1 else s.bufsize) = s.bufsize :=
    if_neg (Bool.eq_false_iff.mp h.nbuf)
  have hlength := f.bytes.slice_length f.pos s.bufsize
  have hcells : ∀ k < (f.bytes.slice f.pos s.bufsize).length,
      (f.bytes.slice f.pos s.bufsize).getD k 0 = f.bytes.byte (f.pos + k) := by
    intro k hk
    exact f.bytes.slice_getD (by omega)
  unfold Stream.fillBy at hr
  dsimp only [OpenFile.read] at hr
  rw [hasked] at hr
  cases hdata : f.bytes.slice f.pos s.bufsize with
  | nil =>
    rw [hdata] at hr hlength
    rw [List.length_nil] at hlength
    have hend : ¬f.pos < f.bytes.size := by omega
    have hlogical : r.1.logical = f.bytes := by
      rw [hr]
      exact logical_of_empty (output_of_not_writing h.written h.writing)
    have hoffset : r.1.offset = f.pos := by
      rw [hr, Positioned.offset, if_pos h.reading]
      exact Nat.sub_zero _
    rw [if_neg hend, if_neg hend]
    refine ⟨⟨?_, ?_, ?_, ?_, ?_, ?_, ?_, ?_⟩, hlogical, ?_, hoffset⟩
    · rw [hr]
      exact Stream.Sound.not_writing h.fd h.inside (Nat.two_pow_pos 32) (Nat.two_pow_pos 32)
        (fun _ => h.sized) h.writing
    · rw [hr]
      exact h.written
    · rw [hr]
      exact h.nbuf
    · rw [hr]
      exact h.bin
    · rw [hr]
      exact h.error
    · rw [hr]
      exact fun _ => ⟨h.read, h.buffer, Nat.zero_le _, Nat.zero_le _, absurd rfl, nofun⟩
    · rw [hlogical, hoffset]
      exact fun _ => Nat.not_lt.mp hend
    · rw [hr]
      intro hwrites
      exact absurd hwrites (Bool.eq_false_iff.mp h.writing)
    · rw [hr]
  | cons c data =>
    rw [hdata] at hr hlength
    rw [List.length_cons] at hlength
    have hmore : f.pos < f.bytes.size := by omega
    simp only [Stream.readInto, h.nbuf, Bool.false_eq_true, if_false, Nat.zero_add] at hr
    have hfits : (c :: data).length ≤ s.size := by
      rw [List.length_cons]
      omega
    have hlogical : r.1.logical = f.bytes := by
      rw [hr]
      exact logical_of_empty (output_of_not_writing h.written h.writing)
    have hoffset : r.1.offset = f.pos + 1 := by
      rw [hr, Positioned.offset, if_pos h.reading]
      dsimp only
      rw [List.length_cons]
      omega
    rw [if_pos hmore, if_pos hmore]
    refine ⟨⟨?_, ?_, ?_, ?_, ?_, ?_, ?_, ?_⟩, hlogical, ?_, hoffset⟩
    · rw [hr]
      refine Stream.Sound.not_writing h.fd ?_ ?_ ?_ (fun _ => h.sized) h.writing
      · dsimp only
        rw [h.inside, decide_eq_true hfits]
        rfl
      · dsimp only
        omega
      · dsimp only
        omega
    · rw [hr]
      exact h.written
    · rw [hr]
      exact h.nbuf
    · rw [hr]
      exact h.bin
    · rw [hr]
      exact h.error
    · rw [hr]
      refine fun _ => ⟨h.read, h.buffer, ?_, ?_, ?_, ?_⟩
      · dsimp only
        omega
      · dsimp only
        rw [List.length_cons]
        omega
      · dsimp only
        rw [List.length_cons]
        omega
      · dsimp only
        intro k hk
        have hcell := hcells (1 + k) (by rw [hdata, List.length_cons]; omega)
        rw [hdata] at hcell
        rw [if_pos (by rw [List.length_cons]; omega), List.length_cons,
          show f.pos + (data.length + 1) - data.length + k = f.pos + (1 + k) by omega]
        exact hcell
    · rw [hr]
      intro heof
      exact absurd heof (Bool.eq_false_iff.mp h.eof)
    · rw [hr]
      intro hwrites
      exact absurd hwrites (Bool.eq_false_iff.mp h.writing)
    · have hcell := hcells 0 (by rw [hdata]; exact Nat.succ_pos _)
      rw [hdata] at hcell
      rw [hr]
      exact congrArg ofChar hcell

namespace Placed

/-- The next character is taken from the buffer or from the file. -/
theorem fgetc (h : p.Placed) {malloc : Memory} (hread : p.stream.flags.read = true)
    (hwriting : p.stream.flags.writing = false) (hmalloc : p.stream.buffer = false → malloc.isSome)
    (hprepared : p.stream.count ≠ 0 → p.stream.flags.reading = true) :
    p.Gets (p.fgetc malloc) := by
  unfold Positioned.fgetc Stream.fgetcBy
  by_cases hcount : p.stream.count ≠ 0
  · rw [if_pos hcount]
    exact h.fgetc_buffered hcount (hprepared hcount)
  rw [if_neg hcount]
  have hlogical := h.logical_of_not_writing hwriting
  have hoffset : p.offset = p.file.pos := by
    rw [offset, hwriting, hread, not_not.mp hcount]
    simp only [Bool.not_true, Bool.and_false, Bool.false_eq_true, if_false, Nat.sub_zero, ite_self]
  have hfd : decide (p.stream.fd < 0) = false := decide_eq_false (Int.not_lt.mpr h.sound.fd)
  unfold Stream.readbufferBy
  rw [hfd, h.error, Bool.or_self, Bool.false_or]
  cases heof : p.stream.flags.eof with
  | true =>
    rw [if_pos rfl]
    have hend : ¬p.offset < p.logical.size := Nat.not_lt.mpr (h.eof heof)
    exact ⟨h, rfl, (if_neg hend).symm, (if_neg hend).symm⟩
  | false =>
    have hreads : ¬(!p.stream.flags.read || p.stream.flags.writing) = true := by
      rw [hread, hwriting]
      exact Bool.false_ne_true
    rw [if_neg Bool.false_ne_true, if_neg hreads]
    obtain ⟨hplaced, hbytes, hresult, hnext⟩ :=
      (h.readSetup hread hwriting heof hmalloc).fill p.file rfl
    refine ⟨hplaced, hbytes.trans hlogical.symm, ?_, ?_⟩
    · rw [hlogical, hoffset]
      exact hresult
    · rw [hlogical, hoffset]
      exact hnext

end Placed

/-- A stream whose buffer is empty. -/
lemma Placed.of_empty (hsound : p.stream.Sound) (hwritten : p.stream.written = [])
    (hnbuf : p.stream.flags.nbuf = false) (hbin : p.stream.flags.bin = true)
    (herror : p.stream.flags.error = false) (hptr : p.stream.bufptr = 0)
    (hreading : p.stream.flags.reading = true →
      p.stream.flags.read = true ∧ p.stream.buffer = true ∧ p.stream.count = 0)
    (heof : p.stream.flags.eof = true → p.logical.size ≤ p.offset)
    (happend : p.stream.flags.writing = true → p.stream.flags.append = true →
      p.stream.flags.read = true → p.file.pos = p.file.bytes.size) : p.Placed := by
  refine ⟨hsound, hwritten, hnbuf, hbin, herror, fun hreads => ?_, heof, fun hw ha hr _ =>
    happend hw ha hr⟩
  obtain ⟨hread, hbuffer, hcount⟩ := hreading hreads
  refine ⟨hread, hbuffer, ?_, ?_, absurd hcount, ?_⟩
  · rw [hptr, hcount]
    exact Nat.zero_le _
  · rw [hcount]
    exact Nat.zero_le _
  · rw [hcount]
    exact fun k hk => absurd hk (Nat.not_lt_zero k)

/-- The flags after a stream that is being written has been flushed. -/
def flushedFlags (flags : Flags) : Flags :=
  if flags.read then { flags with writing := false } else flags

lemma fflush_fields (h : p.stream.Sound) (hnbuf : p.stream.flags.nbuf = false)
    (hreading : p.stream.flags.reading = false) (hwriting : p.stream.flags.writing = true) :
    p.fflush.2 = 0 ∧ p.fflush.1.stream.flags = flushedFlags p.stream.flags ∧
      p.fflush.1.stream.bufptr = 0 := by
  have hbusy : ¬(p.stream.flags.nbuf || !(p.stream.flags.writing || p.stream.flags.reading)) =
      true := by
    rw [hnbuf, hwriting]
    exact Bool.false_ne_true
  have hnot : ¬p.stream.flags.reading = true := Bool.eq_false_iff.mp hreading
  obtain ⟨-, hused, -⟩ := h.writing hwriting hnbuf
  have hstream : ∀ t : Stream, t = (if p.stream.flags.read then
      { p.stream with flags := { p.stream.flags with writing := false } } else p.stream) →
        t.flags = flushedFlags p.stream.flags ∧ t.bufptr = p.stream.bufptr ∧
          t.validsize = p.stream.validsize ∧ t.count = p.stream.count := by
    rintro t rfl
    unfold flushedFlags
    split_ifs
    · exact ⟨rfl, rfl, rfl, rfl⟩
    · exact ⟨rfl, rfl, rfl, rfl⟩
  have hboth : ∀ (t : Stream) (n : Nat) (r : Positioned × Int), (n = 0 → t.bufptr = 0) →
      r = (if n = 0 then (Positioned.mk t p.file, (0 : Int))
        else (⟨{ t with bufptr := 0, count := t.bufsize, validsize := t.bufsize },
          p.file.write t.flags.append (t.front n)⟩, 0)) →
        r.2 = 0 ∧ r.1.stream.flags = t.flags ∧ r.1.stream.bufptr = 0 := by
    rintro t n r hempty rfl
    split_ifs with hn
    · exact ⟨rfl, rfl, hempty hn⟩
    · exact ⟨rfl, rfl, rfl⟩
  unfold fflush
  rw [if_neg hbusy, if_neg hnot]
  generalize hread : (if p.stream.flags.read = true then _ else p.stream) = t
  obtain ⟨hflags, hptr, hvalid, hcount⟩ := hstream t hread.symm
  rw [← hflags]
  refine hboth t (subWord t.validsize t.count) _ ?_ rfl
  rw [hvalid, hcount, hused, hptr]
  exact id

namespace Placed

/-- What is in the buffer goes to the file. -/
lemma fflush_writing (h : p.Placed) (hwriting : p.stream.flags.writing = true) :
    p.fflush.1.Placed ∧ p.fflush.1.logical = p.logical ∧ p.fflush.1.offset = p.offset ∧
      p.fflush.1.stream.output = [] := by
  have hreading : p.stream.flags.reading = false := by
    cases hreads : p.stream.flags.reading with
    | false => rfl
    | true => exact absurd hwriting (Bool.eq_false_iff.mp (h.not_writing hreads))
  have hdoes := fflush_does hreading h.written
  obtain ⟨hsound, hwritten, houtput, -⟩ := h.sound.fflush
  obtain ⟨-, hflags, hptr⟩ := fflush_fields h.sound h.nbuf hreading hwriting
  have hlength := h.output_length hwriting
  have hoffset : p.offset = p.file.base p.stream.flags.append + p.stream.output.length := by
    rw [offset, if_neg (Bool.eq_false_iff.mp hreading), if_pos hwriting]
  revert hdoes hsound hwritten houtput hflags hptr
  generalize p.stream.fflush.1 = t
  generalize p.fflush.1 = q
  intro hdoes hsound hwritten houtput hflags hptr
  have hkept : q.stream.flags.append = p.stream.flags.append ∧
      q.stream.flags.nbuf = p.stream.flags.nbuf ∧ q.stream.flags.bin = p.stream.flags.bin ∧
      q.stream.flags.error = p.stream.flags.error ∧ q.stream.flags.eof = p.stream.flags.eof ∧
      q.stream.flags.reading = p.stream.flags.reading ∧
      q.stream.flags.read = p.stream.flags.read ∧
      (q.stream.flags.writing = !p.stream.flags.read) := by
    rw [hflags, flushedFlags]
    cases hread : p.stream.flags.read with
    | true => exact ⟨rfl, rfl, rfl, rfl, rfl, rfl, rfl, rfl⟩
    | false => exact ⟨rfl, rfl, rfl, rfl, rfl, rfl, hread, hwriting⟩
  obtain ⟨happend, hnbuf', hbin', herror', heof', hreading', hread', hwriting'⟩ := hkept
  have hempty : q.stream.output = [] := by
    have hall : t.output = t.written ++ q.stream.output := by
      rw [hdoes.stream]
      rfl
    rw [houtput, hwritten] at hall
    exact List.append_right_eq_self.mp hall.symm
  have htappend : t.flags.append = p.stream.flags.append := by
    rw [← happend, hdoes.stream]
  have hfile := hdoes.file
  rw [← htappend] at hdoes
  obtain ⟨hlogical, hplace⟩ := hdoes.logical
  rw [htappend, houtput] at hlogical hplace
  rw [hempty, List.length_nil, Nat.add_zero] at hplace
  have hoffset' : q.offset = p.offset := by
    rw [offset, hreading', hreading, if_neg Bool.false_ne_true, hwriting', hread']
    cases hread : p.stream.flags.read with
    | false =>
      rw [Bool.not_false, if_pos rfl, hempty, List.length_nil, Nat.add_zero, hplace, hoffset]
    | true =>
      rw [Bool.not_true, if_neg Bool.false_ne_true, Bool.and_false, if_neg Bool.false_ne_true,
        hoffset]
      rcases hfile with hfile | ⟨hnone, hfile⟩
      · rw [hfile, OpenFile.write_pos, hwritten]
      · rw [hwritten] at hnone
        rw [hnone, List.length_nil] at hlength
        rw [hfile, hnone, List.length_nil, Nat.add_zero, OpenFile.base]
        split_ifs with happends
        · exact h.append hwriting happends hread hlength.symm
        · rfl
  refine ⟨?_, hlogical, hoffset', hempty⟩
  apply of_empty
  · rw [hdoes.stream]
    exact ⟨hsound.fd, hsound.inside, hsound.validsize, hsound.count, hsound.sized, hsound.writing,
      hsound.apart⟩
  · rw [hdoes.stream]
  · exact hnbuf'.trans h.nbuf
  · exact hbin'.trans h.bin
  · exact herror'.trans h.error
  · exact hptr
  · rw [hreading', hreading]
    exact nofun
  · rw [heof', hoffset', hlogical]
    exact h.eof
  · rw [hwriting', hread']
    intro hwrites _ hread
    rw [hread] at hwrites
    cases hwrites

/-- The descriptor goes back to the next character. -/
lemma fflush_reading (h : p.Placed) (hreading : p.stream.flags.reading = true) :
    p.fflush.2 = 0 ∧ p.fflush.1.Placed ∧ p.fflush.1.logical = p.logical ∧
      p.fflush.1.offset = p.offset ∧ p.fflush.1.file.pos = p.offset := by
  have hwriting := h.not_writing hreading
  have hfetched := h.fetched hreading
  have hbehind := hfetched.behind
  have hbusy : ¬(p.stream.flags.nbuf || !(p.stream.flags.writing || p.stream.flags.reading)) =
      true := by
    rw [h.nbuf, hwriting, hreading]
    exact Bool.false_ne_true
  have hoffset : p.offset = p.file.pos - p.stream.count := if_pos hreading
  have htarget : p.file.target (-(p.stream.count : Int)) .CUR = (p.offset : Int) := by
    rw [OpenFile.target, hoffset]
    omega
  have hseek : p.file.lseek (-(p.stream.count : Int)) .CUR =
      some { p.file with pos := p.offset } := by
    rw [OpenFile.lseek_some (by omega), htarget, Int.toNat_natCast]
  have hlogical := h.logical_of_not_writing hwriting
  generalize hr : p.fflush = r
  unfold Positioned.fflush at hr
  rw [if_neg hbusy, if_pos hreading] at hr
  simp only [hseek] at hr
  generalize hflags : (if p.stream.flags.write = true then
    { p.stream.flags with reading := false, writing := false } else p.stream.flags) = flags at hr
  have hkept : flags.append = p.stream.flags.append ∧ flags.nbuf = p.stream.flags.nbuf ∧
      flags.bin = p.stream.flags.bin ∧ flags.error = p.stream.flags.error ∧
      flags.eof = p.stream.flags.eof ∧ flags.read = p.stream.flags.read ∧
      flags.writing = false := by
    rw [← hflags]
    split_ifs
    · exact ⟨rfl, rfl, rfl, rfl, rfl, rfl, rfl⟩
    · exact ⟨rfl, rfl, rfl, rfl, rfl, rfl, hwriting⟩
  obtain ⟨happend, hnbuf, hbin, herror, heof, hread, hstopped⟩ := hkept
  subst hr
  have hlogical' : (Positioned.mk { p.stream with count := 0, bufptr := 0, flags := flags }
      { p.file with pos := p.offset }).logical = p.logical := by
    rw [hlogical]
    exact logical_of_empty (output_of_not_writing h.written hstopped)
  have hoffset' : (Positioned.mk { p.stream with count := 0, bufptr := 0, flags := flags }
      { p.file with pos := p.offset }).offset = p.offset := by
    rw [Positioned.offset]
    dsimp only
    rw [hstopped, hread, hfetched.read]
    simp only [Bool.not_true, Bool.and_false, Bool.false_eq_true, if_false, Nat.sub_zero, ite_self]
  refine ⟨rfl, ?_, hlogical', hoffset', rfl⟩
  apply of_empty
  · exact Stream.Sound.not_writing h.sound.fd h.sound.inside h.sound.validsize (Nat.two_pow_pos 32)
      h.sound.sized hstopped
  · exact h.written
  · exact hnbuf.trans h.nbuf
  · exact hbin.trans h.bin
  · exact herror.trans h.error
  · rfl
  · exact fun _ => ⟨hread.trans hfetched.read, hfetched.buffer, rfl⟩
  · intro hend
    rw [hlogical', hoffset']
    exact h.eof (heof.symm.trans hend)
  · intro hwrites
    exact absurd hwrites (Bool.eq_false_iff.mp hstopped)

/-- `fflush` changes neither the file nor the position. -/
theorem fflush (h : p.Placed) :
    p.fflush.2 = 0 ∧ p.fflush.1.Placed ∧ p.fflush.1.logical = p.logical ∧
      p.fflush.1.offset = p.offset ∧
      (p.stream.flags.reading = true → p.fflush.1.file.pos = p.offset) := by
  cases hreading : p.stream.flags.reading with
  | true =>
    obtain ⟨hresult, hplaced, hlogical, hoffset, hpos⟩ := h.fflush_reading hreading
    exact ⟨hresult, hplaced, hlogical, hoffset, fun _ => hpos⟩
  | false =>
    cases hwriting : p.stream.flags.writing with
    | true =>
      obtain ⟨hplaced, hlogical, hoffset, -⟩ := h.fflush_writing hwriting
      exact ⟨(fflush_fields h.sound h.nbuf hreading hwriting).1, hplaced, hlogical, hoffset,
        nofun⟩
    | false =>
      have hidle : p.fflush = (p, 0) := by
        rw [Positioned.fflush, hreading, hwriting]
        exact if_pos (Bool.or_true _)
      rw [hidle]
      exact ⟨rfl, h, rfl, rfl, nofun⟩

end Placed

/-- Where a distance from an origin leads, counted from the next character. -/
def target (p : Positioned) (distance : Int) : Origin → Int
  | .SET => distance
  | .CUR => p.offset + distance
  | .END => p.logical.size + distance

/-- Characters put into the stream go to the end, and none are read from it. -/
def appends (p : Positioned) : Bool := p.stream.flags.append && !p.stream.flags.read

/-- A stream as `fseek` leaves it before it moves the descriptor. -/
structure Settled (p q : Positioned) (origin : Origin) (adjust : Int) : Prop where
  sound : q.stream.Sound
  written : q.stream.written = []
  nbuf : q.stream.flags.nbuf = false
  bin : q.stream.flags.bin = true
  error : q.stream.flags.error = false
  eof : q.stream.flags.eof = false
  output : q.stream.output = []
  bytes : q.file.bytes = p.logical
  appends : q.appends = p.appends
  reading : q.stream.flags.reading = true →
    q.stream.flags.read = true ∧ q.stream.buffer = true ∧ q.stream.count = 0
  writing : q.stream.flags.writing = true → q.stream.flags.read = false
  target : p.appends = false → ∀ distance,
    q.file.target (distance - adjust) origin = p.target distance origin
  size : p.appends = true → p.offset = p.logical.size

/-- With an empty buffer the descriptor is at the next character. -/
lemma offset_of_empty (houtput : p.stream.output = [])
    (hreading : p.stream.flags.reading = true → p.stream.count = 0)
    (hwriting : p.stream.flags.writing = true → p.stream.flags.read = false)
    (happends : p.appends = false) : p.offset = p.file.pos := by
  rw [appends] at happends
  rw [offset, houtput, List.length_nil, Nat.add_zero]
  split_ifs with hreads hwrites happends'
  · rw [hreading hreads]
    exact Nat.sub_zero _
  · rw [hwriting hwrites, Bool.not_false, Bool.and_true] at happends
    rw [OpenFile.base, if_neg (Bool.eq_false_iff.mp happends)]
  · rw [happends] at happends'
    cases happends'
  · rfl

namespace Placed

lemma clearerr (h : p.Placed) : p.clearerr.Placed := by
  refine ⟨⟨h.sound.fd, h.sound.inside, h.sound.validsize, h.sound.count, h.sound.sized,
    h.sound.writing, h.sound.apart⟩, h.written, h.nbuf, h.bin, rfl, fun hreads => ?_, nofun,
    h.append⟩
  have hfetched := h.fetched hreads
  exact ⟨hfetched.read, hfetched.buffer, hfetched.room, hfetched.behind, hfetched.inside,
    hfetched.cells⟩

/-- The next character of a stream that only appends is behind the end. -/
lemma offset_of_appends (h : p.Placed) (happends : p.appends = true) :
    p.offset = p.logical.size := by
  obtain ⟨happend, hread⟩ := Bool.and_eq_true_iff.mp happends
  have hreading : p.stream.flags.reading = false := by
    cases hreads : p.stream.flags.reading with
    | false => rfl
    | true =>
      rw [(h.fetched hreads).read] at hread
      cases hread
  rw [logical_append_size happend, offset, hreading, if_neg Bool.false_ne_true, happend, hread]
  cases hwriting : p.stream.flags.writing with
  | true => rfl
  | false =>
    rw [output_of_not_writing h.written hwriting]
    rfl

/-- A stream that holds nothing and is not being read. -/
lemma settled {q : Positioned} (hq : q.Placed) (origin : Origin)
    (heof : q.stream.flags.eof = false) (hreading : q.stream.flags.reading = false)
    (hwriting : q.stream.flags.writing = true → q.stream.flags.read = false)
    (houtput : q.stream.output = []) (hlogical : q.logical = p.logical)
    (hoffset : q.offset = p.offset) (happends : q.appends = p.appends) :
    p.Settled q origin 0 := by
  have hbytes : q.file.bytes = p.logical := (logical_of_empty houtput).symm.trans hlogical
  have hnot : ∀ {P : Prop}, q.stream.flags.reading = true → P := by
    rw [hreading]
    exact fun hfalse => absurd hfalse Bool.false_ne_true
  refine ⟨hq.sound, hq.written, hq.nbuf, hq.bin, hq.error, heof, houtput, hbytes, happends, hnot,
    hwriting, fun hends distance => ?_, fun hends => ?_⟩
  · have hpos := offset_of_empty houtput hnot hwriting (happends.trans hends)
    rw [Int.sub_zero]
    cases origin with
    | SET => rfl
    | CUR => rw [OpenFile.target, target, ← hpos, hoffset]
    | END => rw [OpenFile.target, target, hbytes]
  · rw [← hoffset, ← hlogical]
    exact hq.offset_of_appends (happends.trans hends)

/-- What is unread is forgotten, and what is unwritten goes to the file. -/
lemma settle (h : p.Placed) (heof : p.stream.flags.eof = false) (origin : Origin) :
    p.Settled (p.settle origin).1 origin (p.settle origin).2 := by
  cases hreading : p.stream.flags.reading with
  | true =>
    have hwriting := h.not_writing hreading
    have hfetched := h.fetched hreading
    have hbehind := hfetched.behind
    have hoffset : p.offset = p.file.pos - p.stream.count := if_pos hreading
    have hlogical := h.logical_of_not_writing hwriting
    have hsettle : p.settle origin = (⟨{ p.stream with count := 0 }, p.file⟩,
        if origin = .CUR ∧ p.stream.buffer ∧ !p.stream.flags.nbuf then (p.stream.count : Int)
        else 0) := if_pos hreading
    rw [hsettle]
    refine ⟨?_, h.written, h.nbuf, h.bin, h.error, heof,
      output_of_not_writing h.written hwriting, hlogical.symm, rfl,
      fun _ => ⟨hfetched.read, hfetched.buffer, rfl⟩, ?_, fun _ distance => ?_,
      h.offset_of_appends⟩
    · exact Stream.Sound.not_writing h.sound.fd h.sound.inside h.sound.validsize
        (Nat.two_pow_pos 32) h.sound.sized hwriting
    · intro hwrites
      exact absurd hwrites (Bool.eq_false_iff.mp hwriting)
    · dsimp only
      rw [hfetched.buffer, h.nbuf]
      cases origin with
      | SET => exact Int.sub_zero distance
      | CUR =>
        rw [if_pos ⟨rfl, rfl, rfl⟩, OpenFile.target, target, hoffset]
        omega
      | END =>
        rw [if_neg fun hcur => Origin.noConfusion hcur.1, OpenFile.target, target, hlogical,
          Int.sub_zero]
  | false =>
    have hnot : ¬p.stream.flags.reading = true := Bool.eq_false_iff.mp hreading
    cases hwriting : p.stream.flags.writing with
    | true =>
      obtain ⟨hplaced, hlogical, hoffset, houtput⟩ := h.fflush_writing hwriting
      have hflags := (fflush_fields h.sound h.nbuf hreading hwriting).2.1
      have hsettle : p.settle origin = (p.fflush.1, 0) :=
        (if_neg hnot).trans (if_pos hwriting)
      rw [hsettle]
      apply settled hplaced origin _ _ _ houtput hlogical hoffset _
      · rw [hflags, flushedFlags]
        split_ifs
        · exact heof
        · exact heof
      · rw [hflags, flushedFlags]
        split_ifs
        · exact hreading
        · exact hreading
      · rw [hflags, flushedFlags]
        split_ifs with hread
        · exact fun hfalse => hfalse.elim
        · exact fun _ => Bool.not_eq_true _ ▸ hread
      · rw [appends, hflags, flushedFlags]
        split_ifs
        · rfl
        · rfl
    | false =>
      have hsettle : p.settle origin = (p, 0) :=
        (if_neg hnot).trans (if_neg (Bool.eq_false_iff.mp hwriting))
      rw [hsettle]
      apply settled h origin heof hreading _ (output_of_not_writing h.written hwriting) rfl rfl
        rfl
      rw [hwriting]
      exact fun hfalse => absurd hfalse Bool.false_ne_true

end Placed

/-- What the calls that move a stream do. -/
structure Moves (p q : Positioned) (distance : Int) (origin : Origin) (result : Int) : Prop where
  placed : q.Placed
  logical : q.logical = p.logical
  appends : p.appends = true → q.offset = p.offset
  moved : p.appends = false → 0 ≤ p.target distance origin →
    result = 0 ∧ (q.offset : Int) = p.target distance origin
  refused : p.appends = false → p.target distance origin < 0 → result = -1

/-- The flags `fseek` leaves. -/
def seekFlags (flags : Flags) : Flags :=
  if flags.read && flags.write then { flags with reading := false, writing := false } else flags

lemma Settled.seek {q : Positioned} {origin : Origin} {adjust : Int}
    (h : p.Settled q origin adjust) (distance : Int) :
    p.Moves ⟨{ q.stream with flags := seekFlags q.stream.flags, bufptr := 0 },
      (q.file.lseek (distance - adjust) origin).getD q.file⟩ distance origin
      (if q.file.lseek (distance - adjust) origin = none then -1 else 0) := by
  have hflags : (seekFlags q.stream.flags).append = q.stream.flags.append ∧
      (seekFlags q.stream.flags).read = q.stream.flags.read ∧
      (seekFlags q.stream.flags).nbuf = q.stream.flags.nbuf ∧
      (seekFlags q.stream.flags).bin = q.stream.flags.bin ∧
      (seekFlags q.stream.flags).error = q.stream.flags.error ∧
      (seekFlags q.stream.flags).eof = q.stream.flags.eof ∧
      ((seekFlags q.stream.flags).reading = true → q.stream.flags.reading = true) ∧
      ((seekFlags q.stream.flags).writing = true → q.stream.flags.writing = true) := by
    rw [seekFlags]
    split_ifs
    · exact ⟨rfl, rfl, rfl, rfl, rfl, rfl, nofun, nofun⟩
    · exact ⟨rfl, rfl, rfl, rfl, rfl, rfl, id, id⟩
  revert hflags
  generalize seekFlags q.stream.flags = flags
  rintro ⟨happend, hread, hnbuf, hbin, herror, heof, hreading, hwriting⟩
  generalize hfile : (q.file.lseek (distance - adjust) origin).getD q.file = file
  have hbytes : file.bytes = p.logical := by
    rw [← hfile, ← h.bytes, OpenFile.lseek]
    split_ifs
    · rfl
    · rfl
  have hwrites : flags.writing = true → q.stream.flags.read = false :=
    fun hw => h.writing (hwriting hw)
  have hempty : ({ q.stream with flags := flags, bufptr := 0 } : Stream).output = [] := by
    rw [Stream.output]
    dsimp only
    rw [Stream.front_zero, ite_self, h.written, List.append_nil]
  have hlogical : (Positioned.mk { q.stream with flags := flags, bufptr := 0 } file).logical =
      p.logical := (logical_of_empty hempty).trans hbytes
  have happends : (Positioned.mk { q.stream with flags := flags, bufptr := 0 } file).appends =
      p.appends := by
    rw [← h.appends]
    simp only [Positioned.appends, happend, hread]
  have hplaced : (Positioned.mk { q.stream with flags := flags, bufptr := 0 } file).Placed := by
    apply Placed.of_empty
    · refine ⟨h.sound.fd, h.sound.inside, h.sound.validsize, h.sound.count, h.sound.sized, ?_, ?_⟩
      · intro hw _
        obtain ⟨hbuffer, hused, -⟩ := h.sound.writing (hwriting hw) h.nbuf
        have hlength := congrArg List.length h.output
        rw [Stream.Sound.output_writing (hwriting hw) h.nbuf, h.written, List.nil_append,
          Stream.front, List.length_map, List.length_range, List.length_nil] at hlength
        exact ⟨hbuffer, hused.trans hlength, Nat.zero_le _⟩
      · intro hr
        have hnot := h.sound.apart (hreading hr)
        dsimp only
        cases hw : flags.writing with
        | false => rfl
        | true => exact absurd (hwriting hw) (Bool.eq_false_iff.mp hnot)
    · exact h.written
    · exact hnbuf.trans h.nbuf
    · exact hbin.trans h.bin
    · exact herror.trans h.error
    · rfl
    · intro hr
      obtain ⟨hr', hbuffer, hcount⟩ := h.reading (hreading hr)
      exact ⟨hread.trans hr', hbuffer, hcount⟩
    · intro hend
      exact absurd (heof.symm.trans hend) (Bool.eq_false_iff.mp h.eof)
    · intro hw _ hr
      exact absurd (hread.symm.trans hr) (Bool.eq_false_iff.mp (hwrites hw))
  have hpos : p.appends = false →
      (Positioned.mk { q.stream with flags := flags, bufptr := 0 } file).offset = file.pos := by
    intro hends
    apply offset_of_empty hempty _ _ (happends.trans hends)
    · exact fun hr => (h.reading (hreading hr)).2.2
    · exact fun hw => hread.trans (hwrites hw)
  refine ⟨hplaced, hlogical, fun hends => ?_, fun hends htarget => ?_, fun hends htarget => ?_⟩
  · rw [hplaced.offset_of_appends (happends.trans hends), hlogical, h.size hends]
  · have hmove := h.target hends distance
    have hseek := OpenFile.lseek_some (hmove ▸ htarget)
    rw [hseek] at hfile ⊢
    refine ⟨if_neg (Option.some_ne_none _), ?_⟩
    rw [hpos hends, ← hfile, Option.getD_some, hmove]
    exact Int.toNat_of_nonneg htarget
  · rw [OpenFile.lseek_none (by rw [h.target hends distance]; exact htarget)]
    exact if_pos rfl

/-- `fseek` changes nothing but the position. -/
theorem Placed.fseek (h : p.Placed) (distance : Int) (origin : Origin) :
    p.Moves (p.fseek distance origin).1 distance origin (p.fseek distance origin).2 := by
  have hmoves := (h.clearerr.settle rfl origin).seek distance
  exact ⟨hmoves.placed, hmoves.logical, hmoves.appends, hmoves.moved, hmoves.refused⟩

end Positioned

/-! ## Runs -/

/-- The calls on a stream; the last one is `fseek(stream, ftell(stream), SEEK_SET)`. -/
inductive PositionCall where
  | fgetc (malloc : Memory)
  | fputc (c : Int) (malloc : Memory)
  | fflush
  | fseek (distance : Int) (origin : Origin)
  | ftell
  | tellSeek

namespace Positioned

/-- One call. -/
def exec (p : Positioned) : PositionCall → Positioned
  | .fgetc malloc => (p.fgetc malloc).1
  | .fputc c malloc => (p.fputc c malloc).1
  | .fflush => p.fflush.1
  | .fseek distance origin => (p.fseek distance origin).1
  | .ftell => p
  | .tellSeek => (p.fseek p.ftell .SET).1

/-- A stream as it is opened, or with a buffer set, over a file anywhere. -/
structure Fresh (p : Positioned) : Prop where
  fd : 0 ≤ p.stream.fd
  bin : p.stream.flags.bin = true
  nbuf : p.stream.flags.nbuf = false
  reading : p.stream.flags.reading = false
  writing : p.stream.flags.writing = false
  error : p.stream.flags.error = false
  eof : p.stream.flags.eof = false
  count : p.stream.count = 0
  bufptr : p.stream.bufptr = 0
  validsize : p.stream.validsize < 2 ^ 32
  sized : p.stream.buffer = true →
    p.stream.bufsize = p.stream.size ∧ 0 < p.stream.size ∧ p.stream.size < 2 ^ 32
  inside : p.stream.inside = true
  written : p.stream.written = []

lemma Fresh.placed {p : Positioned} (h : p.Fresh) : p.Placed := by
  have hcount : p.stream.count < 2 ^ 32 := by
    rw [h.count]
    exact Nat.two_pow_pos 32
  refine Placed.of_empty
    (Stream.Sound.not_writing h.fd h.inside h.validsize hcount h.sized h.writing) h.written h.nbuf
    h.bin h.error h.bufptr ?_ ?_ ?_
  · rw [h.reading]
    exact nofun
  · rw [h.eof]
    exact nofun
  · rw [h.writing]
    exact nofun

end Positioned

/-- There is memory for buffers, a stream is read if its mode allows it, and not while it is
being written. -/
def PositionAllowed (p : Positioned) : PositionCall → Prop
  | .fgetc malloc => p.stream.flags.read = true ∧ p.stream.flags.writing = false ∧
      (p.stream.buffer = false → malloc.isSome = true)
  | .fputc _ malloc => p.stream.buffer = false → malloc.isSome = true
  | _ => True

/-- What the calls are to do: `fgetc` takes the character at the offset; `fputc` puts
its character there, or to the end of a stream that appends, unless it refuses; `fflush`
changes neither the file nor the offset and takes the descriptor of a stream that is being read
there; `fseek` changes the offset and nothing else, and not that of a stream that only
appends; `ftell` returns the offset. -/
def PositionFaithful (p : Positioned) : PositionCall → Prop
  | .fgetc malloc =>
    (p.fgetc malloc).2 = (if p.offset < p.logical.size then ofChar (p.logical.byte p.offset)
      else EOF) ∧
    (p.fgetc malloc).1.offset = (if p.offset < p.logical.size then p.offset + 1
      else p.offset) ∧
    (p.fgetc malloc).1.logical = p.logical
  | .fputc c malloc =>
    if p.stream.refuses = true then (p.fputc c malloc).1 = p
    else
      (p.fputc c malloc).1.logical = p.logical.overlay
        (if p.stream.flags.append then p.logical.size else p.offset) [toChar c] ∧
      (p.fputc c malloc).1.offset =
        (if p.stream.flags.append then p.logical.size else p.offset) + 1
  | .fflush =>
    p.fflush.2 = 0 ∧ p.fflush.1.logical = p.logical ∧ p.fflush.1.offset = p.offset ∧
      (p.stream.flags.reading = true → p.fflush.1.file.pos = p.offset)
  | .fseek distance origin =>
    (p.fseek distance origin).1.logical = p.logical ∧
      (p.appends = true → (p.fseek distance origin).1.offset = p.offset) ∧
      (p.appends = false → 0 ≤ p.target distance origin →
        (p.fseek distance origin).2 = 0 ∧
          ((p.fseek distance origin).1.offset : Int) = p.target distance origin) ∧
      (p.appends = false → p.target distance origin < 0 → (p.fseek distance origin).2 = -1)
  | .ftell => p.ftell = p.offset
  | .tellSeek =>
    (p.fseek p.ftell .SET).1.logical = p.logical ∧
      (p.fseek p.ftell .SET).1.offset = p.offset

/-- The buffer of a stream that is being read is empty, and the descriptor of one that appends is
at the end. -/
def Positioned.Tells (p : Positioned) : Prop :=
  (p.stream.flags.reading = true → p.stream.count = 0) ∧
    (p.stream.flags.append = true → p.stream.flags.writing = true ∨ p.stream.flags.read = false →
      p.file.pos = p.file.bytes.size)

/-- A call finds the stream prepared: what the buffer holds has been read when a character is
taken, it is empty or filled from its start by characters that were put when one is put, and
`ftell` finds no character unread and nothing behind it to append to. -/
def PositionPrepared (p : Positioned) : PositionCall → Prop
  | .fgetc _ => p.stream.count ≠ 0 → p.stream.flags.reading = true
  | .fputc _ _ => p.stream.refuses = false → p.stream.buffer = true → p.stream.Fits
  | .ftell => p.Tells
  | .tellSeek => p.appends = true ∨ p.Tells
  | _ => True

instance (s : Stream) : Decidable s.Fits :=
  decidable_of_iff ((s.flags.writing = false → s.bufptr = 0) ∧
    subWord s.validsize s.count = s.bufptr ∧ (s.count ≠ 0 → s.bufptr < s.size) ∧
    (s.flags.lbuf = true → s.count ≠ 0))
    ⟨fun h => ⟨h.1, h.2.1, h.2.2.1, h.2.2.2⟩, fun h => ⟨h.rest, h.used, h.room, h.line⟩⟩

instance (p : Positioned) : Decidable p.Tells :=
  inferInstanceAs (Decidable ((_ → _) ∧ (_ → _ ∨ _ → _)))

instance (p : Positioned) : ∀ call, Decidable (PositionAllowed p call)
  | .fgetc _ => inferInstanceAs (Decidable (_ ∧ _ ∧ (_ → _)))
  | .fputc _ _ => inferInstanceAs (Decidable (_ → _))
  | .fflush | .fseek _ _ | .ftell | .tellSeek => isTrue trivial

instance (p : Positioned) : ∀ call, Decidable (PositionPrepared p call)
  | .fgetc _ => inferInstanceAs (Decidable (_ → _))
  | .fputc _ _ => inferInstanceAs (Decidable (_ → _ → _))
  | .ftell => inferInstanceAs (Decidable p.Tells)
  | .tellSeek => inferInstanceAs (Decidable (_ ∨ p.Tells))
  | .fflush | .fseek _ _ => isTrue trivial

namespace Positioned
namespace Placed

variable {p : Positioned}

/-- Where `ftell` tells the offset. -/
theorem ftell (h : p.Placed) (htells : p.Tells) : p.ftell = p.offset := by
  rw [Positioned.ftell, offset]
  cases hreading : p.stream.flags.reading with
  | true =>
    rw [if_pos rfl, if_pos rfl, htells.1 hreading, Nat.sub_zero]
    exact Int.add_zero _
  | false =>
    rw [if_neg Bool.false_ne_true, if_neg Bool.false_ne_true]
    cases hwriting : p.stream.flags.writing with
    | true =>
      have hbase : p.file.base p.stream.flags.append = p.file.pos := by
        rw [OpenFile.base]
        split_ifs with happend
        · exact (htells.2 happend (.inl hwriting)).symm
        · rfl
      rw [(h.sound.writing hwriting h.nbuf).1, h.nbuf, hbase, h.output_length hwriting]
      rfl
    | false =>
      rw [Bool.false_and, Bool.false_and, if_neg Bool.false_ne_true,
        if_neg Bool.false_ne_true]
      split_ifs with happends
      · obtain ⟨happend, hread⟩ := Bool.and_eq_true_iff.mp happends
        rw [htells.2 happend (.inr (Bool.not_eq_true' _ ▸ hread))]
        exact Int.add_zero _
      · exact Int.add_zero _

/-- Each call keeps the buffer and the descriptor together and is faithful. -/
theorem exec (h : p.Placed) {call : PositionCall} (hallowed : PositionAllowed p call)
    (hprepared : PositionPrepared p call) :
    (p.exec call).Placed ∧ PositionFaithful p call := by
  cases call with
  | fgetc malloc =>
    obtain ⟨hread, hwriting, hmalloc⟩ := hallowed
    have hgets := h.fgetc hread hwriting hmalloc hprepared
    exact ⟨hgets.placed, hgets.result, hgets.offset, hgets.logical⟩
  | fputc c malloc =>
    cases htakes : p.stream.refuses with
    | true =>
      have hsame : p.fputc c malloc = (p, EOF) := by
        rw [Positioned.fputc, if_pos htakes]
      simp only [Positioned.exec, PositionFaithful, hsame, htakes, if_true]
      exact ⟨h, trivial⟩
    | false =>
      obtain ⟨hplaced, hlogical, hoffset⟩ :=
        h.fputc (c := c) htakes hallowed (hprepared htakes)
      refine ⟨hplaced, ?_⟩
      rw [PositionFaithful, if_neg (Bool.eq_false_iff.mp htakes)]
      exact ⟨hlogical, hoffset⟩
  | fflush =>
    obtain ⟨hresult, hplaced, hlogical, hoffset, hpos⟩ := h.fflush
    exact ⟨hplaced, hresult, hlogical, hoffset, hpos⟩
  | fseek distance origin =>
    have hmoves := h.fseek distance origin
    exact ⟨hmoves.placed, hmoves.logical, hmoves.appends, hmoves.moved, hmoves.refused⟩
  | ftell => exact ⟨h, h.ftell hprepared⟩
  | tellSeek =>
    have hmoves := h.fseek p.ftell .SET
    refine ⟨hmoves.placed, hmoves.logical, ?_⟩
    cases happends : p.appends with
    | true => exact hmoves.appends happends
    | false =>
      have htells : p.Tells :=
        hprepared.resolve_left (Bool.eq_false_iff.mp happends)
      have hftell := h.ftell htells
      have htarget : p.target p.ftell .SET = p.offset := hftell
      have hmoved := (hmoves.moved happends (by omega)).2
      omega

end Placed
end Positioned

/-- The positions are right in every run whose calls find the stream prepared. -/
theorem stream_position {p : Positioned} (h : p.Fresh) (calls : List PositionCall)
    (hrun : Along Positioned.exec (fun p call => PositionAllowed p call ∧ PositionPrepared p call)
      p calls) : Along Positioned.exec PositionFaithful p calls :=
  Along.of_invariant (fun _ _ hplaced hok => hplaced.exec hok.1 hok.2) calls h.placed hrun

/-- A stream opened with `rb` or `r+b` over some bytes. -/
def positionedReader (write : Bool) (bytes : List UInt8) : Positioned :=
  ⟨.opened 3 ⟨true, write, false, false, false, false, false, false, false, false, false, true⟩ 0
      fun _ => 0, ⟨⟨bytes.length, fun i => bytes.getD i 0⟩, 0⟩⟩

lemma positionedReader_fresh (write : Bool) (bytes : List UInt8) :
    (positionedReader write bytes).Fresh :=
  ⟨Int.zero_le_ofNat 3, rfl, rfl, rfl, rfl, rfl, rfl, rfl, rfl, Nat.two_pow_pos 32, nofun, rfl, rfl⟩

/-- A byte is read and then another one written in its place. -/
theorem stream_position_replace :
    Along Positioned.exec PositionFaithful (positionedReader true [0x61])
      [.fgetc (some fun _ => 0), .ftell, .fseek 0 .SET, .fputc 0x62 none, .ftell, .tellSeek] :=
  stream_position (positionedReader_fresh true _) _ (by decide)

/-- `ftell` adds what is left in the buffer. -/
theorem stream_position_broken :
    ¬∀ (p : Positioned) (calls : List PositionCall), p.Fresh →
      Along Positioned.exec PositionAllowed p calls →
      Along Positioned.exec PositionFaithful p calls := by
  intro h
  have hfaithful := h (positionedReader false [0x61, 0x62, 0x63])
    [.fgetc (some fun _ => 0), .ftell] (positionedReader_fresh false _)
    ⟨⟨rfl, rfl, fun _ => rfl⟩, trivial, trivial⟩
  have htells : ((positionedReader false [0x61, 0x62, 0x63]).fgetc (some fun _ => 0)).1.ftell =
      ((positionedReader false [0x61, 0x62, 0x63]).fgetc (some fun _ => 0)).1.offset :=
    hfaithful.2.1
  exact absurd htells (by decide)

end DiegOS.Libc
