import DiegOS.Libc.Snprintf
import Mathlib.Tactic.SplitIfs

/-!
# Input from streams

`fgetc`, `fread` and `ungetc` over a descriptor whose `read` may fail or give
fewer bytes than asked for.  What is still to come is what the buffer holds unread and the rest of
the file behind it.

Main results:

- Theorem `Reader.Sound.fgetc`: what a character does to the bytes to come, in the buffer and
  at its end.
- Theorem `stream_input`: the input is faithful in every run whose calls find the stream
  prepared.
- Theorem `stream_input_broken`: the byte 0xFF is taken for the end.
-/

namespace DiegOS.Libc

open Function

open Lib (Along)

/-! ## The code -/

/-- `read` of so many bytes: nothing if it fails, or else the bytes. -/
abbrev ReadCall (ε : Type) := Nat → ε → Option (List UInt8) × ε

namespace Stream

variable {ε : Type}

/-- `readbuffer`, from the call of `read` on. -/
def fillBy (read : ReadCall ε) (s : Stream) (w : ε) : (Stream × ε) × Int :=
  let s := { s with count := 0, bufptr := 0 }
  let (answer, w) := read (if s.flags.nbuf then 1 else s.bufsize) w
  match answer with
  | none => (({ s with validsize := 0, flags := { s.flags with error := true } }, w), EOF)
  | some [] => (({ s with validsize := 0, flags := { s.flags with eof := true } }, w), EOF)
  | some (c :: data) =>
    let s := s.readInto (c :: data)
    (({ s with
        count := data.length
        validsize := data.length
        bufptr := if s.flags.nbuf then s.bufptr else s.bufptr + 1 }, w), ofChar c)

/-- `readbuffer` -/
def readbufferBy (read : ReadCall ε) (malloc : Memory) (s : Stream) (w : ε) :
    (Stream × ε) × Int :=
  if s.fd < 0 || s.flags.error || s.flags.eof then ((s, w), EOF)
  else if !s.flags.read || s.flags.writing then
    (({ s with flags := { s.flags with error := true } }, w), EOF)
  else
    ({ s with flags := { s.flags with reading := true } }.readSetup malloc).fillBy read w

/-- `fgetc` -/
def fgetcBy (read : ReadCall ε) (malloc : Memory) (s : Stream) (w : ε) : (Stream × ε) × Int :=
  if s.count ≠ 0 then
    (({ s with count := s.count - 1, bufptr := s.bufptr + 1 }, w), ofChar (s.cells s.bufptr))
  else s.readbufferBy read malloc w

def ungetc (ch : Int) (s : Stream) : Stream × Int :=
  if ch = EOF ∨ s.flags.reading = false ∨ s.flags.nbuf = true then (s, EOF)
  else if s.bufptr = 0 ∧ s.count = 0 then (s, EOF)
  else
    let s := if s.bufptr = 0 then { s with bufptr := s.bufptr + 1 } else s
    let s := { s with count := (s.count + 1) % 2 ^ 32, bufptr := s.bufptr - 1 }
    ({ s with
        cells := Function.update s.cells s.bufptr (toChar ch)
        inside := s.inside && decide (s.bufptr < s.size) }, ch)

end Stream

/-! ## The descriptor -/

/-- How a call of `read` behaves: it fails or gives at most so many bytes and one more. -/
inductive Reply where
  | fails
  | gives (n : Nat)
deriving DecidableEq, Repr

/-- The bytes of a file that have not been read, how the next calls of `read` behave, and
whether one has failed. -/
structure Input where
  rest : List UInt8
  reply : Nat → Reply
  failed : Bool

def Input.read (n : Nat) (i : Input) : Option (List UInt8) × Input :=
  let next := { i with reply := fun k => i.reply (k + 1) }
  match i.reply 0 with
  | .fails => (none, { next with failed := true })
  | .gives k =>
    (some (i.rest.take (min n (k + 1))), { next with rest := i.rest.drop (min n (k + 1)) })

/-! ## Readers -/

/-- A stream with its descriptor. -/
structure Reader where
  stream : Stream
  input : Input

/-- What the buffer holds unread. -/
def Stream.unread (s : Stream) : List UInt8 :=
  (List.range s.count).map fun k => s.cells (s.bufptr + k)

namespace Reader

def fgetc (malloc : Memory) (p : Reader) : Reader × Int :=
  let r := p.stream.fgetcBy Input.read malloc p.input
  (⟨r.1.1, r.1.2⟩, r.2)

/-- The loop of `fread`, with the characters it stores. -/
def freadLoop (malloc : Memory) : Nat → Reader → Reader × List UInt8
  | 0, p => (p, [])
  | n + 1, p =>
    let r := p.fgetc malloc
    if EOF ≠ r.2 then
      let rest := freadLoop malloc n r.1
      (rest.1, toChar r.2 :: rest.2)
    else (r.1, [])

/-- `fread` into memory that is there; `size * count` is a word. -/
def fread (malloc : Memory) (size count : Nat) (p : Reader) : Reader × List UInt8 × Nat :=
  if size = 0 ∨ count = 0 then (p, [], 0)
  else
    let r := freadLoop malloc (size * count % 2 ^ 32) p
    (r.1, r.2, r.2.length / size)

def ungetc (ch : Int) (p : Reader) : Reader × Int :=
  ({ p with stream := (p.stream.ungetc ch).1 }, (p.stream.ungetc ch).2)

/-- The bytes to come. -/
def pending (p : Reader) : List UInt8 := p.stream.unread ++ p.input.rest

/-- The next byte: there is none if no byte is left, or if the buffer is empty and `read`
fails or has failed. -/
def next (p : Reader) : Option UInt8 :=
  if p.stream.count = 0 ∧ (p.input.failed = true ∨ p.input.reply 0 = .fails) then none
  else p.pending.head?

/-- A stream that is open for reading, and what its buffer holds. -/
structure Sound (p : Reader) : Prop where
  fd : 0 ≤ p.stream.fd
  read : p.stream.flags.read = true
  writing : p.stream.flags.writing = false
  inside : p.stream.inside = true
  failed : p.stream.flags.error = p.input.failed
  ended : p.stream.flags.eof = true → p.input.rest = []
  unbuffered : p.stream.flags.nbuf = true → p.stream.count = 0
  fresh : p.stream.buffer = false → p.stream.count = 0 ∧ p.stream.bufptr = 0
  size : p.stream.flags.nbuf = false → p.stream.buffer = true →
    p.stream.bufsize = p.stream.size ∧ 0 < p.stream.size ∧ p.stream.size < 2 ^ 32
  room : p.stream.flags.nbuf = false → p.stream.buffer = true →
    p.stream.bufptr + p.stream.count ≤ p.stream.size

end Reader

lemma Stream.unread_zero {s : Stream} (h : s.count = 0) : s.unread = [] := by
  rw [unread, h]
  rfl

lemma Stream.unread_succ {s : Stream} (h : s.count ≠ 0) :
    s.unread = s.cells s.bufptr ::
      { s with count := s.count - 1, bufptr := s.bufptr + 1 }.unread := by
  obtain ⟨n, hn⟩ := Nat.exists_eq_succ_of_ne_zero h
  simp only [unread, hn, Nat.succ_eq_add_one, Nat.add_sub_cancel, List.range_succ_eq_map,
    List.map_cons, List.map_map, Nat.add_zero]
  refine congrArg _ (List.map_congr_left fun k _ => ?_)
  simp only [Function.comp_apply]
  congr 1
  omega

/-- Behind the first byte that is read, the others are unread. -/
lemma Stream.unread_readInto {s : Stream} (hnbuf : s.flags.nbuf = false) (hptr : s.bufptr = 0)
    (c : UInt8) (data : List UInt8) :
    { s.readInto (c :: data) with
      count := data.length, validsize := data.length,
      bufptr := (s.readInto (c :: data)).bufptr + 1 }.unread = data := by
  have hcells : (s.readInto (c :: data)).cells = fun i =>
      if i < (c :: data).length then (c :: data).getD i 0 else s.cells i := by
    rw [readInto, if_neg (Bool.not_eq_true _ ▸ hnbuf)]
  have hsame : (s.readInto (c :: data)).bufptr = 0 := by
    rw [readInto, if_neg (Bool.not_eq_true _ ▸ hnbuf), hptr]
  apply List.ext_getElem
  · simp only [unread, List.length_map, List.length_range]
  · intro k hk hk'
    simp only [unread, List.getElem_map, List.getElem_range, hcells, hsame, List.length_cons]
    rw [if_pos (by omega), Nat.zero_add, Nat.add_comm, List.getD_cons_succ]
    exact (List.getElem_eq_getD 0).symm

namespace Reader

variable {p : Reader}

lemma pending_of_count (h : p.stream.count = 0) : p.pending = p.input.rest := by
  rw [pending, Stream.unread_zero h, List.nil_append]

/-- What a call does that takes the next byte, if there is one. -/
structure Takes (p : Reader) (r : Reader × Int) : Prop where
  sound : r.1.Sound
  pending : r.1.pending = if p.next = none then p.pending else p.pending.tail
  result : r.2 = (p.next.map ofChar).getD EOF
  stopped : p.next = none → r.1.next = none

namespace Sound

lemma fgetc_buffered (h : p.Sound) (hcount : p.stream.count ≠ 0) :
    p.Takes (⟨{ p.stream with count := p.stream.count - 1, bufptr := p.stream.bufptr + 1 },
      p.input⟩, ofChar (p.stream.cells p.stream.bufptr)) := by
  have hnbuf : p.stream.flags.nbuf = false := by
    cases hn : p.stream.flags.nbuf with
    | true => exact absurd (h.unbuffered hn) hcount
    | false => rfl
  have hbuffer : p.stream.buffer = true := by
    cases hb : p.stream.buffer with
    | true => rfl
    | false => exact absurd (h.fresh hb).1 hcount
  have hroom := h.room hnbuf hbuffer
  have hpending : p.pending = p.stream.cells p.stream.bufptr ::
      (Reader.mk { p.stream with count := p.stream.count - 1, bufptr := p.stream.bufptr + 1 }
        p.input).pending := by
    rw [Reader.pending, Stream.unread_succ hcount]
    rfl
  have hnext : p.next = some (p.stream.cells p.stream.bufptr) := by
    rw [next, if_neg fun hempty => hcount hempty.1, hpending]
    rfl
  refine ⟨⟨h.fd, h.read, h.writing, h.inside, h.failed, h.ended, ?_, ?_, h.size, ?_⟩, ?_, ?_, ?_⟩
  · intro hn
    exact absurd hn (Bool.eq_false_iff.mp hnbuf)
  · intro hb
    exact absurd hbuffer (Bool.eq_false_iff.mp hb)
  · intro _ _
    dsimp only
    omega
  · rw [hnext, if_neg (Option.some_ne_none _), hpending]
    rfl
  · rw [hnext]
    rfl
  · intro hnone
    rw [hnext] at hnone
    contradiction

lemma BUFSIZ_bounds : 0 < BUFSIZ ∧ BUFSIZ < 2 ^ 32 := by decide

/-- A stream about to be filled: it is unbuffered or has a buffer. -/
structure Fillable (p : Reader) : Prop where
  sound : p.Sound
  error : p.stream.flags.error = false
  eof : p.stream.flags.eof = false
  buffer : p.stream.flags.nbuf = false → p.stream.buffer = true

lemma readSetup (h : p.Sound) (hcount : p.stream.count = 0)
    (herror : p.stream.flags.error = false) (heof : p.stream.flags.eof = false)
    (malloc : Memory) :
    Fillable ⟨{ p.stream with flags := { p.stream.flags with reading := true } }.readSetup malloc,
      p.input⟩ ∧
    ({ p.stream with flags := { p.stream.flags with reading := true } }.readSetup malloc).count =
      0 := by
  unfold Stream.readSetup
  dsimp only
  by_cases hready : (p.stream.flags.nbuf || p.stream.buffer) = true
  · rw [if_pos hready]
    refine ⟨⟨⟨h.fd, h.read, h.writing, h.inside, h.failed, h.ended, h.unbuffered, h.fresh, h.size,
      h.room⟩, herror, heof, ?_⟩, hcount⟩
    intro hn
    exact (Bool.or_eq_true_iff.mp hready).resolve_left (Bool.eq_false_iff.mp hn)
  · obtain ⟨hnbuf, hbuffer⟩ := Bool.or_eq_false_iff.mp (Bool.not_eq_true _ ▸ hready)
    obtain ⟨hzero, hptr⟩ := h.fresh hbuffer
    rw [if_neg hready]
    cases malloc with
    | none =>
      refine ⟨⟨⟨h.fd, h.read, h.writing, h.inside, h.failed, h.ended, fun _ => hcount, h.fresh,
        nofun, nofun⟩, herror, heof, nofun⟩, hcount⟩
    | some content =>
      refine ⟨⟨⟨h.fd, h.read, h.writing, h.inside, h.failed, h.ended, fun _ => hcount, nofun,
        fun _ _ => ⟨rfl, BUFSIZ_bounds⟩, ?_⟩, herror, heof, fun _ => rfl⟩, hcount⟩
      intro _ _
      rw [hzero, hptr]
      exact Nat.zero_le _

/-- How many bytes are asked for. -/
def asked (s : Stream) : Nat := if s.flags.nbuf then 1 else s.bufsize

lemma Fillable.asked_pos (h : Fillable p) : 0 < asked p.stream := by
  rw [asked]
  split_ifs with hn
  · exact Nat.one_pos
  · have hnbuf := Bool.not_eq_true _ ▸ hn
    have hsize := h.sound.size hnbuf (h.buffer hnbuf)
    omega

/-- A failing `read`. -/
lemma Fillable.fill_fails (h : Fillable p) (hcount : p.stream.count = 0)
    (hreply : p.input.reply 0 = .fails) :
    p.Takes (⟨(p.stream.fillBy Input.read p.input).1.1, (p.stream.fillBy Input.read p.input).1.2⟩,
      (p.stream.fillBy Input.read p.input).2) := by
  have hnext : p.next = none := by rw [next, if_pos ⟨hcount, Or.inr hreply⟩]
  have hs := h.sound
  have hfill : p.stream.fillBy Input.read p.input =
      (({ p.stream with
          count := 0, bufptr := 0, validsize := 0
          flags := { p.stream.flags with error := true } },
        { p.input with reply := fun k => p.input.reply (k + 1), failed := true }), EOF) := by
    simp only [Stream.fillBy, Input.read, hreply]
  rw [hfill]
  refine ⟨⟨hs.fd, hs.read, hs.writing, hs.inside, rfl, hs.ended, fun _ => rfl, fun _ => ⟨rfl, rfl⟩,
    hs.size, fun _ _ => Nat.zero_le _⟩, ?_, ?_, fun _ => ?_⟩
  · rw [hnext, if_pos rfl, pending_of_count hcount, pending_of_count rfl]
  · rw [hnext]
    rfl
  · rw [next, if_pos ⟨rfl, Or.inl rfl⟩]

/-- A `read` that gives bytes, or none at the end. -/
lemma Fillable.fill_gives (h : Fillable p) (hcount : p.stream.count = 0) {k : Nat}
    (hreply : p.input.reply 0 = .gives k) :
    p.Takes (⟨(p.stream.fillBy Input.read p.input).1.1, (p.stream.fillBy Input.read p.input).1.2⟩,
      (p.stream.fillBy Input.read p.input).2) := by
  have hs := h.sound
  have hpending := pending_of_count hcount
  have hunfailed : p.input.failed = false := hs.failed.symm.trans h.error
  have hnext : p.next = p.input.rest.head? := by
    rw [next, if_neg, hpending]
    intro hempty
    rcases hempty.2 with hfailed | hfails
    · exact absurd hfailed (Bool.eq_false_iff.mp hunfailed)
    · rw [hreply] at hfails
      contradiction
  have hread : Input.read (asked p.stream) p.input =
      (some (p.input.rest.take (min (asked p.stream) (k + 1))),
        { p.input with
          rest := p.input.rest.drop (min (asked p.stream) (k + 1))
          reply := fun j => p.input.reply (j + 1) }) := by
    simp only [Input.read, hreply]
  obtain ⟨m, hm⟩ : ∃ m, min (asked p.stream) (k + 1) = m + 1 := by
    have hpos := h.asked_pos
    exact Nat.exists_eq_succ_of_ne_zero (by omega)
  rw [hm] at hread
  have hempty : p.input.rest.take (m + 1) = [] → p.stream.fillBy Input.read p.input =
      (({ p.stream with
            count := 0, bufptr := 0, validsize := 0
            flags := { p.stream.flags with eof := true } },
          { p.input with
            rest := p.input.rest.drop (m + 1),
            reply := fun j => p.input.reply (j + 1) }), EOF) := by
    intro htake
    unfold asked at hread
    unfold Stream.fillBy
    dsimp only
    rw [hread, htake]
  have hbytes : ∀ c data, p.input.rest.take (m + 1) = c :: data →
      p.stream.fillBy Input.read p.input =
        let s := { p.stream with count := 0, bufptr := 0 }.readInto (c :: data)
        (({ s with
            count := data.length
            validsize := data.length
            bufptr := if s.flags.nbuf then s.bufptr else s.bufptr + 1 },
          { p.input with
            rest := p.input.rest.drop (m + 1), reply := fun j => p.input.reply (j + 1) }),
          ofChar c) := by
    intro c data htake
    unfold asked at hread
    unfold Stream.fillBy
    dsimp only
    rw [hread, htake]
  cases hrest : p.input.rest with
  | nil =>
    rw [hrest] at hnext hpending
    rw [hempty (by rw [hrest, List.take_nil]), hrest]
    refine ⟨⟨hs.fd, hs.read, hs.writing, hs.inside, hs.failed, fun _ => rfl, fun _ => rfl,
      fun _ => ⟨rfl, rfl⟩, hs.size, fun _ _ => Nat.zero_le _⟩, ?_, ?_, fun _ => ?_⟩
    · rw [hnext, hpending, pending_of_count rfl]
      rfl
    · rw [hnext]
      rfl
    · rw [next, pending_of_count rfl]
      split_ifs
      · rfl
      · rfl
  | cons c l =>
    rw [hrest] at hnext hpending
    rw [hbytes c (l.take m) (by rw [hrest, List.take_succ_cons]), hrest, List.drop_succ_cons]
    dsimp only
    cases hn : p.stream.flags.nbuf with
    | true =>
      -- one byte, which does not go through a buffer
      have hone : m = 0 := by
        rw [asked, if_pos hn] at hm
        omega
      have hread : { p.stream with count := 0, bufptr := 0 }.readInto (c :: l.take m) =
          { p.stream with count := 0, bufptr := 0 } := by
        rw [Stream.readInto, if_pos hn]
      rw [hread, hone, List.take_zero, List.drop_zero]
      dsimp only
      rw [if_pos hn]
      refine ⟨⟨hs.fd, hs.read, hs.writing, hs.inside, hs.failed, ?_, fun _ => rfl,
        fun _ => ⟨rfl, rfl⟩, hs.size, fun _ _ => Nat.zero_le _⟩, ?_, ?_, ?_⟩
      · intro heof
        exact absurd heof (Bool.eq_false_iff.mp h.eof)
      · rw [hnext, hpending, pending_of_count rfl]
        rfl
      · rw [hnext]
        rfl
      · intro hnone
        rw [hnext] at hnone
        contradiction
    | false =>
      have hbuffer := h.buffer hn
      obtain ⟨hsize, hpos, hlt⟩ := hs.size hn hbuffer
      have hlength : (l.take m).length + 1 ≤ p.stream.size := by
        rw [asked, if_neg (Bool.eq_false_iff.mp hn)] at hm
        have htake := List.length_take_le m l
        omega
      have hunread := @Stream.unread_readInto { p.stream with count := 0, bufptr := 0 } hn rfl c
        (l.take m)
      have hread : { p.stream with count := 0, bufptr := 0 }.readInto (c :: l.take m) =
          { p.stream with
            count := 0, bufptr := 0
            cells := fun i => if i < (c :: l.take m).length then (c :: l.take m).getD i 0
              else p.stream.cells i
            inside := p.stream.inside && decide ((c :: l.take m).length ≤ p.stream.size) } := by
        rw [Stream.readInto, if_neg (Bool.eq_false_iff.mp hn)]
      rw [hread] at hunread ⊢
      dsimp only at hunread ⊢
      rw [if_neg (Bool.eq_false_iff.mp hn)]
      refine ⟨⟨hs.fd, hs.read, hs.writing, ?_, hs.failed, ?_, ?_, ?_, hs.size, ?_⟩, ?_, ?_, ?_⟩
      · rw [hs.inside, List.length_cons, decide_eq_true hlength]
        rfl
      · intro heof
        exact absurd heof (Bool.eq_false_iff.mp h.eof)
      · intro hnbuf
        exact absurd hnbuf (Bool.eq_false_iff.mp hn)
      · intro hnone
        exact absurd hbuffer (Bool.eq_false_iff.mp hnone)
      · intro _ _
        dsimp only
        omega
      · rw [hnext, hpending, Reader.pending, hunread, List.take_append_drop]
        rfl
      · rw [hnext]
        rfl
      · intro hnone
        rw [hnext] at hnone
        contradiction

/-- A character is taken from the buffer or from the bytes that `read` gives. -/
theorem fgetc (h : p.Sound) (malloc : Memory) : p.Takes (p.fgetc malloc) := by
  unfold Reader.fgetc Stream.fgetcBy
  by_cases hcount : p.stream.count ≠ 0
  · rw [if_pos hcount]
    exact h.fgetc_buffered hcount
  rw [if_neg hcount]
  have hzero : p.stream.count = 0 := not_not.mp hcount
  have hpending := pending_of_count hzero
  have hfd : decide (p.stream.fd < 0) = false := decide_eq_false (Int.not_lt.mpr h.fd)
  unfold Stream.readbufferBy
  rw [hfd, Bool.false_or]
  by_cases hstopped : (p.stream.flags.error || p.stream.flags.eof) = true
  · -- an error or the end has been seen before
    rw [if_pos hstopped]
    have hnext : p.next = none := by
      rw [next]
      split_ifs with hstarved
      · rfl
      · rcases Bool.or_eq_true_iff.mp hstopped with herror | heof
        · exact absurd ⟨hzero, Or.inl (h.failed.symm.trans herror)⟩ hstarved
        · rw [hpending, h.ended heof]
          rfl
    refine ⟨h, ?_, ?_, fun _ => hnext⟩
    · rw [hnext, if_pos rfl]
    · rw [hnext]
      rfl
  · obtain ⟨herror, heof⟩ := Bool.or_eq_false_iff.mp (Bool.not_eq_true _ ▸ hstopped)
    have hreads : ¬(!p.stream.flags.read || p.stream.flags.writing) = true := by
      rw [h.read, h.writing]
      exact Bool.false_ne_true
    rw [if_neg hstopped, if_neg hreads]
    obtain ⟨hfillable, hstart⟩ := h.readSetup hzero herror heof malloc
    have hsame : ∀ t : Stream, t.count = 0 →
        (Reader.mk t p.input).next = p.next ∧ (Reader.mk t p.input).pending = p.pending := by
      intro t ht
      have hrest : (Reader.mk t p.input).pending = p.pending := by
        rw [hpending, pending_of_count ht]
      exact ⟨by simp only [next, ht, hzero, hrest], hrest⟩
    obtain ⟨hnext, hrest⟩ := hsame _ hstart
    have htakes : (Reader.mk ({ p.stream with
        flags := { p.stream.flags with reading := true } }.readSetup malloc) p.input).Takes
        (⟨(({ p.stream with flags := { p.stream.flags with reading := true } }.readSetup
            malloc).fillBy Input.read p.input).1.1,
          (({ p.stream with flags := { p.stream.flags with reading := true } }.readSetup
            malloc).fillBy Input.read p.input).1.2⟩,
          (({ p.stream with flags := { p.stream.flags with reading := true } }.readSetup
            malloc).fillBy Input.read p.input).2) := by
      cases hreply : p.input.reply 0 with
      | fails => exact hfillable.fill_fails hstart hreply
      | gives k => exact hfillable.fill_gives hstart hreply
    exact ⟨htakes.sound, by rw [htakes.pending, hnext, hrest], by rw [htakes.result, hnext],
      fun hnone => htakes.stopped (hnext.trans hnone)⟩

/-- A character goes back where the last one of the buffer was. -/
theorem ungetc (h : p.Sound) {ch : Int} (hch : ch ≠ EOF) (hreading : p.stream.flags.reading = true)
    (hnbuf : p.stream.flags.nbuf = false) (hptr : 0 < p.stream.bufptr) :
    (p.ungetc ch).1.Sound ∧ (p.ungetc ch).2 = ch ∧
      (p.ungetc ch).1.next = some (toChar ch) ∧
      (p.ungetc ch).1.pending = toChar ch :: p.pending := by
  have hbuffer : p.stream.buffer = true := by
    cases hb : p.stream.buffer with
    | true => rfl
    | false =>
      have hzero := (h.fresh hb).2
      omega
  obtain ⟨hsize, hpos, hlt⟩ := h.size hnbuf hbuffer
  have hroom := h.room hnbuf hbuffer
  have hcount : (p.stream.count + 1) % 2 ^ 32 = p.stream.count + 1 := Nat.mod_eq_of_lt (by omega)
  have hput : p.ungetc ch =
      (⟨{ p.stream with
          count := p.stream.count + 1
          bufptr := p.stream.bufptr - 1
          cells := update p.stream.cells (p.stream.bufptr - 1) (toChar ch)
          inside := p.stream.inside && decide (p.stream.bufptr - 1 < p.stream.size) },
        p.input⟩, ch) := by
    have hgoes : ¬(ch = EOF ∨ p.stream.flags.reading = false ∨ p.stream.flags.nbuf = true) := by
      rw [hreading, hnbuf]
      simp [hch]
    have hback : ¬(p.stream.bufptr = 0 ∧ p.stream.count = 0) := by omega
    simp only [Reader.ungetc, Stream.ungetc, if_neg hgoes, if_neg hback,
      if_neg (Nat.ne_of_gt hptr), hcount]
  have hunread : ({ p.stream with
        count := p.stream.count + 1
        bufptr := p.stream.bufptr - 1
        cells := update p.stream.cells (p.stream.bufptr - 1) (toChar ch)
        inside := p.stream.inside && decide (p.stream.bufptr - 1 < p.stream.size) } :
        Stream).unread = toChar ch :: p.stream.unread := by
    rw [Stream.unread_succ (Nat.succ_ne_zero _)]
    dsimp only [Stream.unread]
    rw [update_self, Nat.add_sub_cancel, Nat.sub_add_cancel hptr]
    refine congrArg _ (List.map_congr_left fun k _ => ?_)
    exact update_of_ne (by omega) _ _
  have hpending : (p.ungetc ch).1.pending = toChar ch :: p.pending := by
    rw [hput, Reader.pending, hunread]
    rfl
  refine ⟨?_, by rw [hput], ?_, hpending⟩
  · rw [hput]
    refine ⟨h.fd, h.read, h.writing, ?_, h.failed, h.ended, ?_, ?_, h.size, ?_⟩
    · dsimp only
      rw [h.inside, decide_eq_true (by omega)]
      rfl
    · intro hn
      exact absurd hn (Bool.eq_false_iff.mp hnbuf)
    · intro hb
      exact absurd hbuffer (Bool.eq_false_iff.mp hb)
    · intro _ _
      dsimp only
      omega
  · rw [next, hpending, if_neg]
    · rfl
    · intro hempty
      rw [hput] at hempty
      exact Nat.succ_ne_zero _ hempty.1

end Sound

/-- The bytes that so many calls of `fgetc` take. -/
def coming (malloc : Memory) : Nat → Reader → List UInt8
  | 0, _ => []
  | n + 1, p =>
    match p.next with
    | none => []
    | some c => c :: coming malloc n (p.fgetc malloc).1

namespace Sound

/-- The loop of `fread` stores the bytes to come, up to the first one that looks like the
end. -/
lemma freadLoop (h : p.Sound) (malloc : Memory) (n : Nat)
    (hcoming : eofChar ∉ p.coming malloc n) :
    (freadLoop malloc n p).1.Sound ∧
      p.pending = (Reader.freadLoop malloc n p).2 ++ (Reader.freadLoop malloc n p).1.pending ∧
      (Reader.freadLoop malloc n p).2.length ≤ n ∧
      ((Reader.freadLoop malloc n p).2.length = n ∨
        (Reader.freadLoop malloc n p).1.next = none) := by
  induction n generalizing p with
  | zero => exact ⟨h, rfl, Nat.le_refl 0, Or.inl rfl⟩
  | succ n ih =>
    have htakes := h.fgetc malloc
    have hresult := htakes.result
    have hpending := htakes.pending
    rw [coming] at hcoming
    cases hnext : p.next with
    | none =>
      rw [hnext] at hresult hpending
      have hloop : Reader.freadLoop malloc (n + 1) p = ((p.fgetc malloc).1, []) := by
        rw [Reader.freadLoop]
        exact if_neg (not_not.mpr hresult.symm)
      rw [hloop]
      exact ⟨htakes.sound, hpending.symm, Nat.zero_le _, Or.inr (htakes.stopped hnext)⟩
    | some c =>
      rw [hnext] at hresult hpending hcoming
      rw [Option.map_some, Option.getD_some] at hresult
      rw [if_neg (Option.some_ne_none c)] at hpending
      obtain ⟨hc, hrest⟩ := not_or.mp (List.mem_cons.not.mp hcoming)
      have hhead : p.pending = c :: p.pending.tail := by
        rw [next] at hnext
        split_ifs at hnext
        obtain ⟨l, hl⟩ := List.head?_eq_some_iff.mp hnext
        rw [hl, List.tail_cons]
      have hstays : EOF ≠ (p.fgetc malloc).2 := by
        rw [hresult]
        exact fun heof => hc (ofChar_eq_EOF.mp heof.symm).symm
      have hloop : Reader.freadLoop malloc (n + 1) p =
          ((Reader.freadLoop malloc n (p.fgetc malloc).1).1,
            c :: (Reader.freadLoop malloc n (p.fgetc malloc).1).2) := by
        rw [← toChar_ofChar c, ← hresult, Reader.freadLoop]
        exact if_pos hstays
      obtain ⟨hsound, hstored, hle, hend⟩ := ih htakes.sound hrest
      rw [hloop]
      refine ⟨hsound, ?_, Nat.succ_le_succ hle, hend.imp (congrArg Nat.succ) id⟩
      rw [hhead, List.cons_append, ← hpending, ← hstored]

end Sound
end Reader

/-! ## Runs -/

/-- The calls that read from a stream. -/
inductive InputCall where
  | fgetc (malloc : Memory)
  | fread (malloc : Memory) (size count : Nat)
  | ungetc (ch : Int)

namespace Reader

/-- One call. -/
def exec (p : Reader) : InputCall → Reader
  | .fgetc malloc => (p.fgetc malloc).1
  | .fread malloc size count => (p.fread malloc size count).1
  | .ungetc ch => (p.ungetc ch).1

end Reader

/-- There is memory for the items of `fread`, and `ungetc` is given a byte or
`EOF`. -/
def InputAllowed (_ : Reader) : InputCall → Prop
  | .fgetc _ => True
  | .fread _ size count => size * count < 2 ^ 32
  | .ungetc ch => ch = EOF ∨ (0 ≤ ch ∧ ch < 256)

/-- What the calls are to do: `fgetc` returns the next byte as a value from 0 to 255, and
`EOF` if there is none; `fread` stores bytes until it has all it is asked for or none is
left, and returns the number of whole items; `ungetc` makes its character the next one. -/
def InputFaithful (p : Reader) : InputCall → Prop
  | .fgetc malloc =>
    (p.fgetc malloc).2 = (p.next.map fun c => (c.toNat : Int)).getD EOF ∧
      (p.fgetc malloc).1.pending = if p.next = none then p.pending else p.pending.tail
  | .fread malloc size count =>
    p.pending = (p.fread malloc size count).2.1 ++ (p.fread malloc size count).1.pending ∧
      (p.fread malloc size count).2.1.length ≤ size * count ∧
      ((p.fread malloc size count).2.1.length = size * count ∨
        (p.fread malloc size count).1.next = none) ∧
      (p.fread malloc size count).2.2 = (p.fread malloc size count).2.1.length / size
  | .ungetc ch =>
    (p.ungetc ch).2 = ch ∧
      if ch = EOF then (p.ungetc ch).1 = p
      else (p.ungetc ch).1.next = some (toChar ch) ∧
        (p.ungetc ch).1.pending = toChar ch :: p.pending

/-- A call finds the stream prepared: the byte that `fgetc` returns is less than 0x80, none
of those that `fread` stores is 0xFF, and `ungetc` comes after a byte that has been read
from the buffer. -/
def InputPrepared (p : Reader) : InputCall → Prop
  | .fgetc _ => ∀ c ∈ p.next, c < 0x80
  | .fread malloc size count => eofChar ∉ p.coming malloc (size * count)
  | .ungetc ch => ch = EOF ∨ (p.stream.flags.reading = true ∧ p.stream.flags.nbuf = false ∧
      0 < p.stream.bufptr)

instance (p : Reader) : ∀ call, Decidable (InputAllowed p call)
  | .fgetc _ => isTrue trivial
  | .fread _ size count => inferInstanceAs (Decidable (size * count < 2 ^ 32))
  | .ungetc ch => inferInstanceAs (Decidable (ch = EOF ∨ (0 ≤ ch ∧ ch < 256)))

instance (p : Reader) : ∀ call, Decidable (InputPrepared p call)
  | .fgetc _ => inferInstanceAs (Decidable (∀ c ∈ p.next, c < 0x80))
  | .fread malloc size count =>
    inferInstanceAs (Decidable (eofChar ∉ p.coming malloc (size * count)))
  | .ungetc ch => inferInstanceAs (Decidable (ch = EOF ∨ _))

/-- A call keeps the reader sound and is faithful. -/
lemma Reader.Sound.exec {p : Reader} (h : p.Sound) {call : InputCall}
    (hallowed : InputAllowed p call) (hprepared : InputPrepared p call) :
    (p.exec call).Sound ∧ InputFaithful p call := by
  cases call with
  | fgetc malloc =>
    have htakes := h.fgetc malloc
    refine ⟨htakes.sound, ?_, htakes.pending⟩
    rw [htakes.result]
    cases hnext : p.next with
    | none => rfl
    | some c => exact if_pos (hprepared c hnext)
  | fread malloc size count =>
    by_cases hzero : size = 0 ∨ count = 0
    · have hnone : p.fread malloc size count = (p, [], 0) := by rw [Reader.fread, if_pos hzero]
      have hempty : size * count = 0 := Nat.mul_eq_zero.mpr hzero
      simp only [Reader.exec, InputFaithful, hnone, hempty]
      exact ⟨h, rfl, Nat.le_refl 0, Or.inl rfl, (Nat.zero_div size).symm⟩
    · have hread : p.fread malloc size count =
          ((Reader.freadLoop malloc (size * count) p).1,
            (Reader.freadLoop malloc (size * count) p).2,
            (Reader.freadLoop malloc (size * count) p).2.length / size) := by
        rw [Reader.fread, if_neg hzero, Nat.mod_eq_of_lt hallowed]
      obtain ⟨hsound, hstored, hle, hend⟩ := h.freadLoop malloc (size * count) hprepared
      simp only [Reader.exec, InputFaithful, hread]
      exact ⟨hsound, hstored, hle, hend, trivial⟩
  | ungetc ch =>
    by_cases hch : ch = EOF
    · have hsame : p.ungetc ch = (p, EOF) := by
        simp only [Reader.ungetc, Stream.ungetc, if_pos (Or.inl hch)]
      simp only [Reader.exec, InputFaithful, hsame, if_pos hch]
      exact ⟨h, hch.symm, trivial⟩
    · obtain ⟨hreading, hnbuf, hptr⟩ := hprepared.resolve_left hch
      obtain ⟨hsound, hresult, hnext, hpending⟩ := h.ungetc hch hreading hnbuf hptr
      refine ⟨hsound, hresult, ?_⟩
      rw [if_neg hch]
      exact ⟨hnext, hpending⟩

/-- The input is faithful in every run whose calls find the stream prepared. -/
theorem stream_input {p : Reader} (h : p.Sound) (calls : List InputCall)
    (hrun : Along Reader.exec (fun p call => InputAllowed p call ∧ InputPrepared p call) p calls) :
    Along Reader.exec InputFaithful p calls :=
  Along.of_invariant (fun _ _ hsound hok => hsound.exec hok.1 hok.2) calls h hrun

/-- A stream opened with `r`, with a buffer of two bytes. -/
def bufferedReader (bytes : List UInt8) : Reader :=
  ⟨((Stream.opened 3 ⟨true, false, false, false, false, false, false, false, false, false, false,
      false⟩ 0 fun _ => 0).setvbuf (some fun _ => 0) (some .IOFBF) 2 none).1,
    ⟨bytes, fun _ => .gives 9, false⟩⟩

lemma bufferedReader_sound (bytes : List UInt8) : (bufferedReader bytes).Sound where
  fd := Int.zero_le_ofNat 3
  read := rfl
  writing := rfl
  inside := rfl
  failed := rfl
  ended := nofun
  unbuffered := fun _ => rfl
  fresh := fun _ => ⟨rfl, rfl⟩
  size := fun _ _ => ⟨rfl, Nat.two_pos, show 2 < 2 ^ 32 by decide⟩
  room := fun _ _ => Nat.zero_le _

/-- One byte is read, another one put back and three are read. -/
theorem stream_input_abc :
    Along Reader.exec InputFaithful (bufferedReader [0x61, 0x62, 0x63])
      [.fgetc none, .ungetc 0x78, .fgetc none, .fread none 1 2] :=
  stream_input (bufferedReader_sound _) _ (by decide +kernel)

/-- The byte 0xFF is taken for the end. -/
theorem stream_input_broken :
    ¬∀ (p : Reader) (calls : List InputCall), p.Sound → Along Reader.exec InputAllowed p calls →
      Along Reader.exec InputFaithful p calls := by
  intro h
  have hfaithful := h (bufferedReader [eofChar]) [.fgetc none] (bufferedReader_sound _)
    ⟨trivial, trivial⟩
  exact absurd hfaithful.1.1 (by decide)

end DiegOS.Libc
