import DiegOS.Libc.Printf

/-!
# Printing into memory

`snprintf` prints to a stream without a descriptor whose buffer is the caller's memory:
`fputc` fails when it is full, and `formatted_printf` is told to go on.

Main results:

- Theorem `Stream.Filled.putAll`: the buffer holds the characters that fit.
- Theorem `cString_vsnprintf`: the memory holds the string, cut to its size.
-/

namespace DiegOS.Libc

open Function

/-- `stream_init(&tmpstream, -1, s, n, (IOBUF_WRITE | IOBUF_FBUF));`, where the memory of
`tmpstream` leaves `validsize`. -/
def memoryStream (validsize : Nat) (s : Nat → UInt8) (n : Nat) : Stream :=
  { fd := -1
    flags := ⟨false, true, false, false, false, false, false, true, false, false, false, false⟩
    bufsize := n
    validsize := validsize
    count := n
    buffer := true
    bufptr := 0
    size := n
    cells := s
    inside := true
    written := [] }

/-- `vsnprintf` into memory that is there, with the memory afterwards; `snprintf` is the
same for the arguments behind the format. -/
def vsnprintf (validsize : Nat) (string : UInt32 → List UInt8) (s : Nat → UInt8) (n : Nat)
    (fmt : List UInt8) (ap : VaList) : (Nat → UInt8) × Int :=
  if 0 < n then
    let (tmpstream, retval) :=
      formattedPrintf string none (memoryStream validsize s n) fmt true ap
    let s := tmpstream.stream.cells
    if 0 ≤ retval then
      if retval < n then (Function.update s retval.toNat 0, retval)
      else (Function.update s (n - 1) 0, retval)
    else (s, retval)
  else (s, 0)

/-- The string at the start of some memory. -/
def cString (s : Nat → UInt8) (n : Nat) : List UInt8 :=
  ((List.range n).map s).takeWhile (· ≠ 0)

/-- The buffer holds the characters put so far, as many as fit. -/
structure Stream.Filled (s : Stream) (n : Nat) (put : List UInt8) : Prop where
  fd : s.fd = -1
  write : s.flags.write = true
  reading : s.flags.reading = false
  nbuf : s.flags.nbuf = false
  lbuf : s.flags.lbuf = false
  buffer : s.buffer = true
  size : s.size = n
  inside : s.inside = true
  bufptr : s.bufptr = min put.length n
  count : s.count = n - s.bufptr
  front : s.front s.bufptr = put.take n

lemma memoryStream_filled (validsize : Nat) (s : Nat → UInt8) (n : Nat) :
    (memoryStream validsize s n).Filled n [] :=
  ⟨rfl, rfl, rfl, rfl, rfl, rfl, rfl, rfl, (Nat.zero_min n).symm, rfl,
    List.take_nil.symm⟩

lemma toChar_ofChar (c : UInt8) : toChar (ofChar c) = c := by
  have hc : c.toNat < 256 := UInt8.toNat_lt_size c
  have hmod : (ofChar c % 256).toNat = c.toNat := by
    unfold ofChar
    split_ifs <;> omega
  rw [toChar, hmod, UInt8.ofNat_toNat]

/-- A character goes behind the others, or nowhere once the buffer is full. -/
lemma Stream.Filled.writebuffer {s : Stream} {n : Nat} {put : List UInt8} (h : s.Filled n put)
    (c : UInt8) : (s.writebuffer (ofChar c)).1.Filled n (put ++ [c]) := by
  have hbufptr := h.bufptr
  have hcount := h.count
  have hlength : (put ++ [c]).length = put.length + 1 := List.length_append
  unfold Stream.writebuffer
  rcases Nat.lt_or_ge put.length n with hlt | hge
  · have hptr : s.bufptr = put.length := by omega
    rw [if_pos (by omega), toChar_ofChar]
    refine ⟨h.fd, h.write, h.reading, h.nbuf, h.lbuf, h.buffer, h.size, ?_, ?_, ?_, ?_⟩
    · have hsize : s.bufptr < s.size := by rw [h.size]; omega
      change (s.inside && decide (s.bufptr < s.size)) = true
      rw [h.inside, decide_eq_true hsize]
      rfl
    · change s.bufptr + 1 = _
      omega
    · change s.count - 1 = n - (s.bufptr + 1)
      omega
    · change Stream.front _ (s.bufptr + 1) = _
      have hstore := Stream.front_store { s with count := s.count - 1 } c
      refine hstore.trans ?_
      change s.front s.bufptr ++ [c] = _
      rw [h.front, List.take_of_length_le (Nat.le_of_lt hlt),
        List.take_of_length_le (by omega)]
  · have hneg : s.fd < 0 := by rw [h.fd]; decide
    rw [if_neg (by omega), if_pos hneg]
    refine ⟨h.fd, h.write, h.reading, h.nbuf, h.lbuf, h.buffer, h.size, h.inside, ?_, hcount, ?_⟩
    · change s.bufptr = _
      omega
    · exact h.front.trans (List.take_append_of_le_length hge).symm

lemma Stream.Filled.fputc_eq {s : Stream} {n : Nat} {put : List UInt8} (h : s.Filled n put)
    (c : UInt8) (malloc : Memory) : s.toWriting.Filled n put ∧
      s.fputc (ofChar c) malloc = s.toWriting.writebuffer (ofChar c) := by
  have hrefuses : s.refuses = false := by
    unfold Stream.refuses
    rw [h.write, h.reading]
    rfl
  have hwriting : s.toWriting.Filled n put :=
    ⟨h.fd, h.write, rfl, h.nbuf, h.lbuf, h.buffer, h.size, h.inside, h.bufptr, h.count, h.front⟩
  have hlbuf : ¬s.toWriting.flags.lbuf = true := by
    rw [hwriting.lbuf]
    exact Bool.false_ne_true
  rw [fputc_buffered hrefuses h.nbuf h.buffer, Stream.putBuffered, if_neg hlbuf]
  exact ⟨hwriting, rfl⟩

theorem Stream.Filled.fputc {s : Stream} {n : Nat} {put : List UInt8} (h : s.Filled n put)
    (c : UInt8) (malloc : Memory) : (s.fputc (ofChar c) malloc).1.Filled n (put ++ [c]) := by
  obtain ⟨hwriting, heq⟩ := h.fputc_eq c malloc
  rw [heq]
  exact hwriting.writebuffer c

lemma putAll_cons (c : UInt8) (text : List UInt8) (p : Printing) (malloc : Memory) :
    putAll (fputcInternal malloc true) (c :: text) p = putAll (fputcInternal malloc true) text
      ⟨(p.stream.fputc (ofChar c) malloc).1, p.bcount + 1, p.emitted ++ [c]⟩ := by
  have hput : fputcInternal malloc true c p =
      (⟨(p.stream.fputc (ofChar c) malloc).1, p.bcount + 1, p.emitted ++ [c]⟩, true) := by
    unfold fputcInternal
    exact if_neg fun h => Bool.noConfusion h.2
  rw [putAll, hput, if_pos rfl]

/-- The buffer holds the characters that fit, and all of them are counted. -/
theorem Stream.Filled.putAll {p : Printing} {n : Nat} {put : List UInt8} {malloc : Memory}
    (h : p.stream.Filled n put) (text : List UInt8) :
    (putAll (fputcInternal malloc true) text p).2 = true ∧
      (putAll (fputcInternal malloc true) text p).1.stream.Filled n (put ++ text) ∧
      (putAll (fputcInternal malloc true) text p).1.bcount =
        p.bcount + UInt32.ofNat text.length := by
  induction text generalizing p put with
  | nil => simpa [Libc.putAll] using h
  | cons c text ih =>
    rw [putAll_cons]
    rcases @ih ⟨_, p.bcount + 1, p.emitted ++ [c]⟩ _ (h.fputc c malloc) with
      ⟨hok, hfilled, hbcount⟩
    refine ⟨hok, ?_, ?_⟩
    · rwa [List.append_assoc, List.singleton_append] at hfilled
    · rw [hbcount, List.length_cons, UInt32.ofNat_add]
      grind

/-- What `formatted_printf` leaves in memory, and what it returns. -/
lemma formattedPrintf_filled (validsize : Nat) (string : UInt32 → List UInt8) (s : Nat → UInt8)
    (n : Nat) (fmt : List UInt8) (ap : VaList)
    (hlength : ((printed string fmt ap).length : Int) ≤ INT_MAX) :
    (formattedPrintf string none (memoryStream validsize s n) fmt true ap).1.stream.Filled n
        (printed string fmt ap) ∧
      (formattedPrintf string none (memoryStream validsize s n) fmt true ap).2 =
        (printed string fmt ap).length := by
  rcases @Stream.Filled.putAll ⟨memoryStream validsize s n, 0, []⟩ n [] none
    (memoryStream_filled validsize s n) (printed string fmt ap) with ⟨hok, hfilled, hbcount⟩
  rw [List.nil_append] at hfilled
  rw [formattedPrintf_eq, if_pos hok, hbcount, UInt32.zero_add]
  exact ⟨hfilled, (toInt_ofNat_iff _).mpr hlength⟩

/-- The characters that are stored are the first ones. -/
lemma Stream.Filled.cells {s : Stream} {n m : Nat} {put : List UInt8} (h : s.Filled n put)
    (hm : m ≤ s.bufptr) : (List.range m).map s.cells = put.take m := by
  have hbufptr := h.bufptr
  have htake := congrArg (List.take m) h.front
  rw [Stream.front, ← List.map_take, List.take_range, Nat.min_eq_left hm, List.take_take,
    Nat.min_eq_left (by omega)] at htake
  exact htake

/-- Where `vsnprintf` puts the zero. -/
lemma vsnprintf_eq (validsize : Nat) (string : UInt32 → List UInt8) (s : Nat → UInt8)
    {n : Nat} (fmt : List UInt8) (ap : VaList) (hn : 0 < n)
    (hlength : ((printed string fmt ap).length : Int) ≤ INT_MAX) :
    vsnprintf validsize string s n fmt ap =
      (update
        (formattedPrintf string none (memoryStream validsize s n) fmt true ap).1.stream.cells
        (min (printed string fmt ap).length (n - 1)) 0,
        ((printed string fmt ap).length : Int)) := by
  have hretval := (formattedPrintf_filled validsize string s n fmt ap hlength).2
  unfold vsnprintf
  rw [if_pos hn]
  simp only [hretval]
  rw [if_pos (Int.natCast_nonneg _)]
  split_ifs with hlt
  · rw [Int.toNat_natCast, Nat.min_eq_left (by omega)]
  · rw [Nat.min_eq_right (by omega)]

/-- The string ends at the first zero. -/
lemma cString_of_zero {s : Nat → UInt8} {n m : Nat} (hm : m < n) (hzero : s m = 0)
    (hnonzero : ∀ c ∈ (List.range m).map s, c ≠ 0) : cString s n = (List.range m).map s := by
  rcases Nat.exists_eq_add_of_lt hm with ⟨k, rfl⟩
  unfold cString
  rw [Nat.add_assoc, List.range_add, List.map_append,
    List.takeWhile_append_of_pos (fun c hc => by simp [hnonzero c hc]),
    List.range_succ_eq_map, List.map_cons, List.map_cons, Nat.add_zero, hzero,
    List.takeWhile_cons_of_neg (by simp), List.append_nil]

lemma map_update_of_le {s : Nat → UInt8} {n m : Nat} (h : m ≤ n) (c : UInt8) :
    (List.range m).map (update s n c) = (List.range m).map s := by
  refine List.map_congr_left fun i hi => update_of_ne ?_ c s
  have hlt := List.mem_range.mp hi
  omega

/-- The memory holds the string that is printed, cut to its size. -/
theorem cString_vsnprintf (validsize : Nat) (string : UInt32 → List UInt8) (s : Nat → UInt8)
    {n : Nat} (fmt : List UInt8) (ap : VaList) (hn : 0 < n)
    (hlength : ((printed string fmt ap).length : Int) ≤ INT_MAX)
    (hzero : 0 ∉ printed string fmt ap) :
    cString (vsnprintf validsize string s n fmt ap).1 n = (printed string fmt ap).take (n - 1) := by
  have hfilled := (formattedPrintf_filled validsize string s n fmt ap hlength).1
  have hbufptr := hfilled.bufptr
  rw [vsnprintf_eq validsize string s fmt ap hn hlength]
  generalize (formattedPrintf string none (memoryStream validsize s n) fmt true ap).1.stream = t
    at hfilled hbufptr
  have hmap := (map_update_of_le (Nat.le_refl _) 0).trans
    (hfilled.cells (m := min (printed string fmt ap).length (n - 1)) (by omega))
  rw [cString_of_zero (by omega) (update_self _ 0 _), hmap, List.take_eq_take_iff]
  · omega
  · rw [hmap]
    intro c hc heq
    exact hzero (heq ▸ List.mem_of_mem_take hc)

end DiegOS.Libc
