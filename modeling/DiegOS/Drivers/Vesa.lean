import DiegOS.Lib.Painting
import Mathlib.Order.Interval.Set.Basic
import Mathlib.Tactic.Ring

/-!
# Rectangles in the frame buffer

The spans of `vesa.c` and the rectangles that are made of them.  An offset is an
`unsigned`; a store of a word reaches four bytes.

Main results:

- Theorem `horizLine_eq`: a horizontal span stores its bytes at every alignment.
- Theorem `rect_eq` and theorem `fillrect_eq`: the pixels that the rectangles set.
- Theorem `rectangles_exact_iff`: the corners for which these are the pixels of the rectangle.
-/

namespace DiegOS.Drivers.Vesa

open Lib

/-! ## The code -/

/-- The memory at `frame_buffer`. -/
abbrev FrameBuffer := UInt32 → UInt8

/-- A `point_t`. -/
structure Point where
  x : Int
  y : Int
deriving DecidableEq, Repr

attribute [ext] Point

/-- What `vesa_gmode` says of the mode: a line has room for its pixels. -/
structure Mode where
  linBytesPerScanLine : UInt16
  xResolution : UInt16
  yResolution : UInt16
  wide : xResolution ≤ linBytesPerScanLine

/-- `vesa_gmode.LinBytesPerScanLine` -/
def Mode.line (m : Mode) : UInt32 := m.linBytesPerScanLine.toUInt32

def computeOffset (m : Mode) (x y : UInt32) : UInt32 := y * m.line + x

def computeLen (a b : Int) : UInt32 :=
  if a > b then UInt32.ofInt (a - b + 1) else UInt32.ofInt (b - a + 1)

/-- `frame_buffer[offset] = (uint8_t) c` -/
def store (fb : FrameBuffer) (offset c : UInt32) : FrameBuffer :=
  Function.update fb offset c.toUInt8

/-- `frame_buffer32[offset] = c`, byte by byte. -/
def store32 (fb : FrameBuffer) (offset c : UInt32) : FrameBuffer :=
  store (store (store (store fb (4 * offset) c) (4 * offset + 1) (c >>> 8))
    (4 * offset + 2) (c >>> 16)) (4 * offset + 3) (c >>> 24)

/-- The color in every byte of a word. -/
def expand (c : UInt32) : UInt32 :=
  let c := c &&& 0xFF
  let c := c ||| c <<< 8
  c ||| c <<< 16

/-- The loop up to the first word: the memory, `offset` and `len` after it. -/
def headBytes (c : UInt32) : Nat → UInt32 → FrameBuffer → FrameBuffer × UInt32 × Nat
  | 0, offset, fb => (fb, offset, 0)
  | len + 1, offset, fb =>
    if offset &&& 3 ≠ 0 then headBytes c len (offset + 1) (store fb offset c)
    else (fb, offset, len + 1)

/-- The loop over the words, while more than four bytes are left. -/
def words (c : UInt32) : Nat → UInt32 → FrameBuffer → FrameBuffer × UInt32 × Nat
  | len + 5, offset, fb => words c (len + 1) (offset + 1) (store32 fb offset c)
  | len, offset, fb => (fb, offset, len)

/-- A loop that stores bytes at a distance: the memory and `offset` after it. -/
def bytes (c d : UInt32) : Nat → UInt32 → FrameBuffer → FrameBuffer × UInt32
  | 0, offset, fb => (fb, offset)
  | len + 1, offset, fb => bytes c d len (offset + d) (store fb offset c)

def horizLine (offset len c : UInt32) (fb : FrameBuffer) : FrameBuffer × UInt32 :=
  let c := expand c
  let (fb, offset, len) := headBytes c len.toNat offset fb
  let offset := offset >>> 2
  let (fb, offset, len) := words c len offset fb
  let offset := offset <<< 2
  bytes c 1 len offset fb

def vertLine (m : Mode) (offset len c : UInt32) (fb : FrameBuffer) : FrameBuffer × UInt32 :=
  bytes c m.line len.toNat offset fb

/-- One round of the loop of `rect`, for what it changes. -/
structure Ring where
  width : UInt32
  height : UInt32
  offseta : UInt32
  offsetd : UInt32
  offsetc : UInt32

/-- The loop of `rect`. -/
def rings (m : Mode) (color : UInt32) : Nat → Ring → FrameBuffer → FrameBuffer
  | 0, _, fb => fb
  | wide + 1, r, fb =>
    let fb := (horizLine r.offseta r.width color fb).1
    let fb := (horizLine r.offsetd r.width color fb).1
    let fb := (vertLine m r.offseta r.height color fb).1
    let fb := (vertLine m r.offsetc r.height color fb).1
    rings m color wide
      ⟨r.width - 2, r.height - 2, r.offseta + (m.line + 1), r.offsetd - (m.line - 1),
        r.offsetc + (m.line - 1)⟩ fb

def rect (m : Mode) (a b : Point) (wide color : UInt32) (fb : FrameBuffer) : FrameBuffer :=
  let width := computeLen a.x b.x
  let height := computeLen a.y b.y
  let offseta := computeOffset m (UInt32.ofInt a.x) (UInt32.ofInt a.y)
  let offsetd := computeOffset m (UInt32.ofInt a.x) (UInt32.ofInt b.y)
  let offsetc := computeOffset m (UInt32.ofInt b.x) (UInt32.ofInt a.y)
  if width < 2 * wide then fb
  else if height < 2 * wide then fb
  else if wide = 0 then fb
  else rings m color wide.toNat ⟨width, height, offseta, offsetd, offsetc⟩ fb

/-- The loop of `fillrect`. -/
def rows (m : Mode) (c width : UInt32) : Nat → UInt32 → FrameBuffer → FrameBuffer
  | 0, _, fb => fb
  | height + 1, offset, fb =>
    rows m c width height (offset + m.line) (horizLine offset width c fb).1

def fillrect (m : Mode) (a b : Point) (c : UInt32) (fb : FrameBuffer) : FrameBuffer :=
  rows m c (computeLen a.x b.x) (computeLen a.y b.y).toNat
    (computeOffset m (UInt32.ofInt a.x) (UInt32.ofInt a.y)) fb

/-! ## The spans -/

variable {m : Mode} {a b : Point} {c d o x : UInt32} {fb : FrameBuffer} {n k : Nat}

/-- The offsets that are reached from one by so many steps of one length. -/
def steps (d : UInt32) : UInt32 → Nat → Set UInt32
  | _, 0 => ∅
  | o, n + 1 => {o} ∪ steps d (o + d) n

lemma steps_add (d o : UInt32) (n k : Nat) :
    steps d o (n + k) = steps d o n ∪ steps d (o + UInt32.ofNat n * d) k := by
  induction n generalizing o with
  | zero =>
    have hzero : o + UInt32.ofNat 0 * d = o := by grind
    rw [Nat.zero_add, steps, Set.empty_union, hzero]
  | succ n ih =>
    have hnext : o + d + UInt32.ofNat n * d = o + UInt32.ofNat (n + 1) * d := by
      rw [UInt32.ofNat_add]
      grind
    rw [Nat.succ_add, steps, steps, ih, hnext, Set.union_assoc]

lemma mem_steps : x ∈ steps d o n ↔ ∃ j < n, x = o + UInt32.ofNat j * d := by
  induction n generalizing o with
  | zero => simp [steps]
  | succ n ih =>
    rw [steps, Set.mem_union, ih, Set.mem_singleton_iff]
    constructor
    · intro h
      rcases h with rfl | ⟨j, hj, rfl⟩
      · exact ⟨0, Nat.succ_pos n, by grind⟩
      · refine ⟨j + 1, Nat.succ_lt_succ hj, ?_⟩
        rw [UInt32.ofNat_add]
        grind
    · intro h
      obtain ⟨j, hj, rfl⟩ := h
      cases j with
      | zero => exact .inl (by grind)
      | succ j =>
        refine .inr ⟨j, Nat.lt_of_succ_lt_succ hj, ?_⟩
        rw [UInt32.ofNat_add]
        grind

lemma store_eq (fb : FrameBuffer) (o c : UInt32) : store fb o c = paint {o} c.toUInt8 fb :=
  update_eq_paint fb o c.toUInt8

/-- What a loop over bytes stores, and where it ends. -/
lemma bytes_eq (c d : UInt32) (n : Nat) (o : UInt32) (fb : FrameBuffer) :
    bytes c d n o fb = (paint (steps d o n) c.toUInt8 fb, o + UInt32.ofNat n * d) := by
  induction n generalizing o fb with
  | zero =>
    have hzero : o + UInt32.ofNat 0 * d = o := by grind
    rw [bytes, steps, paint_empty, hzero]
  | succ n ih =>
    have hnext : o + d + UInt32.ofNat n * d = o + UInt32.ofNat (n + 1) * d := by
      rw [UInt32.ofNat_add]
      grind
    rw [bytes, ih, store_eq, paint_paint, hnext, steps]

/-- All bytes of a word are equal. -/
structure Expanded (v : UInt8) (c : UInt32) : Prop where
  byte0 : c.toUInt8 = v
  byte1 : (c >>> 8).toUInt8 = v
  byte2 : (c >>> 16).toUInt8 = v
  byte3 : (c >>> 24).toUInt8 = v

lemma or_shiftLeft {x s : UInt32} {k : Nat} (hs : s.toNat % 32 = k) (hx : x.toNat < 2 ^ k)
    (hroom : 2 ^ k * x.toNat < 2 ^ 32) : (x ||| x <<< s).toNat = 2 ^ k * x.toNat + x.toNat := by
  have hshift : (x <<< s).toNat = x.toNat <<< k := by
    rw [UInt32.toNat_shiftLeft, hs, Nat.shiftLeft_eq, Nat.mul_comm, Nat.mod_eq_of_lt hroom]
  rw [UInt32.toNat_or, hshift, Nat.or_comm, ← Nat.shiftLeft_add_eq_or_of_lt hx, Nat.shiftLeft_eq,
    Nat.mul_comm]

lemma toNat_expand (c : UInt32) : (expand c).toNat = 0x01010101 * (c.toNat % 256) := by
  have hlow : (c &&& 0xFF).toNat = c.toNat % 256 := by
    rw [UInt32.toNat_and]
    exact Nat.and_two_pow_sub_one_eq_mod c.toNat 8
  have hmod := Nat.mod_lt c.toNat (show 0 < 256 by decide)
  have hhalf : ((c &&& 0xFF) ||| (c &&& 0xFF) <<< (8 : UInt32)).toNat =
      257 * (c.toNat % 256) := by
    rw [or_shiftLeft (k := 8) rfl (by omega) (by omega), hlow]
    omega
  rw [expand, or_shiftLeft (k := 16) rfl (by omega) (by omega), hhalf]
  omega

lemma byte_expand (c : UInt32) {s : UInt32} {p q : Nat} (hp : 2 ^ (s.toNat % 32) = p)
    (hdiv : ∀ x < 256, 0x01010101 * x / p = q * x) (hmod : ∀ x < 256, q * x % 256 = x) :
    (expand c >>> s).toUInt8 = c.toUInt8 := by
  have hlt := Nat.mod_lt c.toNat (show 0 < 256 by decide)
  apply UInt8.toNat_inj.mp
  rw [UInt32.toNat_toUInt8, UInt32.toNat_toUInt8, UInt32.toNat_shiftRight, toNat_expand,
    Nat.shiftRight_eq_div_pow, hp, hdiv _ hlt]
  exact hmod _ hlt

/-- The color is in every byte. -/
lemma expand_expanded (c : UInt32) : Expanded c.toUInt8 (expand c) where
  byte0 := by
    apply UInt8.toNat_inj.mp
    rw [UInt32.toNat_toUInt8, UInt32.toNat_toUInt8, toNat_expand]
    omega
  byte1 := byte_expand c (p := 256) (q := 65793) rfl (by omega) (by omega)
  byte2 := byte_expand c (p := 65536) (q := 257) rfl (by omega) (by omega)
  byte3 := byte_expand c (p := 16777216) (q := 1) rfl (by omega) (by omega)

lemma store32_eq {v : UInt8} (h : Expanded v c) (fb : FrameBuffer) (o : UInt32) :
    store32 fb o c = paint (steps 1 (4 * o) 4) v fb := by
  have h1 : (4 * o + 1 + 1 : UInt32) = 4 * o + 2 := by grind
  have h2 : (4 * o + 2 + 1 : UInt32) = 4 * o + 3 := by grind
  rw [store32, store_eq, store_eq, store_eq, store_eq, h.byte0, h.byte1, h.byte2, h.byte3,
    paint_paint, paint_paint, paint_paint]
  simp only [steps, h1, h2, Set.union_empty]

/-- The bytes up to the first word, if the span reaches it. -/
lemma headBytes_eq (c : UInt32) (n : Nat) (o : UInt32) (fb : FrameBuffer) :
    ∃ k ≤ n, headBytes c n o fb =
        (paint (steps 1 o k) c.toUInt8 fb, o + UInt32.ofNat k, n - k) ∧
      (k = n ∨ (o + UInt32.ofNat k) &&& 3 = 0) ∧
      ∀ j < k, (o + UInt32.ofNat j) &&& 3 ≠ 0 := by
  induction n generalizing o fb with
  | zero =>
    have hzero : o + UInt32.ofNat 0 = o := by grind
    refine ⟨0, Nat.le_refl 0, ?_, .inl rfl, fun j hj => absurd hj (Nat.not_lt_zero j)⟩
    rw [headBytes, steps, paint_empty, hzero]
  | succ n ih =>
    have hzero : o + UInt32.ofNat 0 = o := by grind
    by_cases halign : o &&& 3 = 0
    · refine ⟨0, Nat.zero_le _, ?_, .inr (hzero.symm ▸ halign),
        fun j hj => absurd hj (Nat.not_lt_zero j)⟩
      rw [headBytes, if_neg (not_not.mpr halign), steps, paint_empty, hzero]
      rfl
    · have hnext : ∀ j, o + 1 + UInt32.ofNat j = o + UInt32.ofNat (j + 1) := by
        intro j
        rw [UInt32.ofNat_add]
        grind
      obtain ⟨k, hk, heq, hend, hbefore⟩ := ih (o + 1) (store fb o c)
      refine ⟨k + 1, Nat.succ_le_succ hk, ?_, ?_, ?_⟩
      · rw [headBytes, if_pos halign, heq, store_eq, paint_paint, hnext, steps,
          Nat.add_sub_add_right]
      · rw [← hnext]
        exact hend.imp (congrArg Nat.succ) id
      · intro j hj
        cases j with
        | zero => rwa [hzero]
        | succ j =>
          rw [← hnext]
          exact hbefore j (Nat.lt_of_succ_lt_succ hj)

lemma words_of_le (h : n ≤ 4) : words c n o fb = (fb, o, n) := by
  unfold words
  split
  · omega
  · rfl

/-- The words of a span. -/
lemma words_eq {v : UInt8} (h : Expanded v c) (n : Nat) (o : UInt32) (fb : FrameBuffer) :
    ∃ k, 4 * k ≤ n ∧ words c n o fb =
      (paint (steps 1 (4 * o) (4 * k)) v fb, o + UInt32.ofNat k, n - 4 * k) := by
  induction n using Nat.strong_induction_on generalizing o fb with
  | _ n ih =>
    by_cases hn : n ≤ 4
    · have hzero : o + UInt32.ofNat 0 = o := by grind
      refine ⟨0, Nat.zero_le n, ?_⟩
      rw [words_of_le hn, Nat.mul_zero, steps, paint_empty, hzero, Nat.sub_zero]
    · obtain ⟨len, rfl⟩ : ∃ len, n = len + 5 := ⟨n - 5, by omega⟩
      obtain ⟨k, hk, heq⟩ := ih (len + 1) (by omega) (o + 1) (store32 fb o c)
      refine ⟨k + 1, by omega, ?_⟩
      have hstart : 4 * (o + 1) = 4 * o + UInt32.ofNat 4 * 1 := by grind
      have hend : o + 1 + UInt32.ofNat k = o + UInt32.ofNat (k + 1) := by
        rw [UInt32.ofNat_add]
        grind
      rw [words, heq, store32_eq h, paint_paint, hstart, ← steps_add, hend,
        show 4 + 4 * k = 4 * (k + 1) by omega,
        show len + 1 - 4 * k = len + 5 - 4 * (k + 1) by omega]

lemma shiftLeft_two (x : UInt32) : x <<< 2 = (4 : UInt32) * x := by
  apply UInt32.toNat_inj.mp
  rw [UInt32.toNat_shiftLeft, UInt32.toNat_mul, Nat.shiftLeft_eq, Nat.mul_comm]
  rfl

lemma shiftRight_two (h : x &&& 3 = 0) : (4 : UInt32) * (x >>> 2) = x := by
  have hmod : x.toNat % 4 = 0 := by
    have hnat := congrArg UInt32.toNat h
    rw [UInt32.toNat_and] at hnat
    rw [← Nat.and_two_pow_sub_one_eq_mod x.toNat 2]
    exact hnat
  apply UInt32.toNat_inj.mp
  rw [UInt32.toNat_mul, UInt32.toNat_shiftRight, Nat.shiftRight_eq_div_pow]
  simp only [UInt32.reduceToNat, Nat.reduceMod, Nat.reducePow]
  have hlt := x.toNat_lt
  omega

/-- From a word on, the words and the bytes behind them are the rest of the span. -/
lemma tail_eq {v : UInt8} (h : Expanded v c) (halign : o &&& 3 = 0) (n : Nat)
    (fb : FrameBuffer) :
    bytes c 1 (words c n (o >>> 2) fb).2.2 ((words c n (o >>> 2) fb).2.1 <<< 2)
        (words c n (o >>> 2) fb).1 =
      (paint (steps 1 o n) v fb, o + UInt32.ofNat n) := by
  obtain ⟨k, hk, hwords⟩ := words_eq h n (o >>> 2) fb
  have hword : (o >>> 2 + UInt32.ofNat k) <<< 2 = o + UInt32.ofNat (4 * k) * 1 := by
    have hback := shiftRight_two halign
    rw [shiftLeft_two, UInt32.ofNat_mul]
    grind
  have hend : o + UInt32.ofNat (4 * k) * 1 + UInt32.ofNat (n - 4 * k) * 1 = o + UInt32.ofNat n := by
    have hsum : UInt32.ofNat n = UInt32.ofNat (4 * k) + UInt32.ofNat (n - 4 * k) := by
      rw [← UInt32.ofNat_add, Nat.add_sub_of_le hk]
    grind
  rw [hwords]
  rw [hword, bytes_eq, h.byte0, paint_paint, shiftRight_two halign, ← steps_add,
    Nat.add_sub_of_le hk, hend]

/-- Without bytes left, the loops only cut the offset back to a word. -/
lemma tail_zero (c o : UInt32) (fb : FrameBuffer) :
    bytes c 1 (words c 0 (o >>> 2) fb).2.2 ((words c 0 (o >>> 2) fb).2.1 <<< 2)
        (words c 0 (o >>> 2) fb).1 = (fb, (o >>> 2) <<< 2) := by
  rw [words_of_le (Nat.zero_le 4)]
  rfl

/-- Where a horizontal span ends: behind its bytes if it reaches a word, and at the word before
them otherwise. -/
def spanEnd (o n : UInt32) : UInt32 :=
  if ∃ j < n.toNat + 1, (o + UInt32.ofNat j) &&& 3 = 0 then o + n else ((o + n) >>> 2) <<< 2

/-- A horizontal span stores its bytes, however it lies to the words. -/
theorem horizLine_eq (o n c : UInt32) (fb : FrameBuffer) :
    horizLine o n c fb = (paint (steps 1 o n.toNat) c.toUInt8 fb, spanEnd o n) := by
  have hcolor := expand_expanded c
  obtain ⟨k, hk, hhead, hend, hbefore⟩ := headBytes_eq (expand c) n.toNat o fb
  rw [hcolor.byte0] at hhead
  simp only [horizLine, hhead]
  by_cases halign : (o + UInt32.ofNat k) &&& 3 = 0
  · have hsum : o + UInt32.ofNat k + UInt32.ofNat (n.toNat - k) = o + n := by
      rw [UInt32.add_assoc, ← UInt32.ofNat_add, Nat.add_sub_of_le hk, UInt32.ofNat_toNat]
    have hsteps : o + UInt32.ofNat k = o + UInt32.ofNat k * 1 := by grind
    rw [tail_eq hcolor halign, paint_paint, hsum, hsteps, ← steps_add, Nat.add_sub_of_le hk,
      spanEnd, if_pos ⟨k, Nat.lt_succ_of_le hk, halign⟩]
  · have hn : k = n.toNat := hend.resolve_right halign
    subst hn
    have hword : ¬∃ j < n.toNat + 1, (o + UInt32.ofNat j) &&& 3 = 0 := by
      intro h
      obtain ⟨j, hj, hzero⟩ := h
      rcases Nat.lt_or_eq_of_le (Nat.le_of_lt_succ hj) with hj | rfl
      · exact hbefore j hj hzero
      · exact halign hzero
    rw [Nat.sub_self, tail_zero, spanEnd, if_neg hword, UInt32.ofNat_toNat]

lemma vertLine_eq (m : Mode) (o n c : UInt32) (fb : FrameBuffer) :
    vertLine m o n c fb =
      (paint (steps m.line o n.toNat) c.toUInt8 fb, o + n * m.line) := by
  rw [vertLine, bytes_eq, UInt32.ofNat_toNat]

/-! ## The pixels -/

/-- The offset of a pixel. -/
def Mode.offset (m : Mode) (p : Point) : UInt32 :=
  computeOffset m (UInt32.ofInt p.x) (UInt32.ofInt p.y)

/-- The offset of a pixel from that of another. -/
lemma Mode.offset_add (m : Mode) (x y i j : Int) :
    m.offset ⟨x + i, y + j⟩ =
      m.offset ⟨x, y⟩ + UInt32.ofInt i + UInt32.ofInt j * m.line := by
  simp only [Mode.offset, computeOffset, UInt32.ofInt_add]
  grind

lemma Mode.offset_right_down (m : Mode) (x y : Int) :
    m.offset ⟨x, y⟩ + (m.line + 1) = m.offset ⟨x + 1, y + 1⟩ := by
  rw [m.offset_add, UInt32.ofInt_one]
  grind

lemma Mode.offset_left_down (m : Mode) (x y : Int) :
    m.offset ⟨x, y⟩ + (m.line - 1) = m.offset ⟨x - 1, y + 1⟩ := by
  rw [Int.sub_eq_add_neg, m.offset_add, UInt32.ofInt_one, UInt32.ofInt_neg_one]
  grind

lemma Mode.offset_right_up (m : Mode) (x y : Int) :
    m.offset ⟨x, y⟩ - (m.line - 1) = m.offset ⟨x + 1, y - 1⟩ := by
  rw [Int.sub_eq_add_neg, m.offset_add, UInt32.ofInt_one, UInt32.ofInt_neg_one]
  grind

lemma Mode.offset_down (m : Mode) (x y : Int) :
    m.offset ⟨x, y⟩ + m.line = m.offset ⟨x, y + 1⟩ := by
  have hoffset := m.offset_add x y 0 1
  rw [Int.add_zero, UInt32.ofInt_one, show UInt32.ofInt 0 = 0 from rfl] at hoffset
  grind

lemma ofInt_natCast (n : Nat) : UInt32.ofInt n = UInt32.ofNat n := by
  apply UInt32.toNat_inj.mp
  rw [UInt32.ofInt, UInt32.toNat_ofNat', UInt32.toNat_ofNat']
  omega

/-- Pixels from one on, at one distance from each other. -/
def ray (x y i j : Int) (n : Nat) : Set Point := {p | ∃ k < n, p = ⟨x + k * i, y + k * j⟩}

/-- The offsets at one distance are those of a ray. -/
lemma steps_ray (m : Mode) (x y i j : Int) (n : Nat) :
    steps (UInt32.ofInt i + UInt32.ofInt j * m.line) (m.offset ⟨x, y⟩) n =
      m.offset '' ray x y i j n := by
  have hoffset : ∀ k : Nat, m.offset ⟨x + k * i, y + k * j⟩ =
      m.offset ⟨x, y⟩ + UInt32.ofNat k * (UInt32.ofInt i + UInt32.ofInt j * m.line) := by
    intro k
    rw [m.offset_add, UInt32.ofInt_mul, UInt32.ofInt_mul, ofInt_natCast]
    grind
  ext o
  rw [mem_steps]
  constructor
  · intro h
    obtain ⟨k, hk, rfl⟩ := h
    exact ⟨_, ⟨k, hk, rfl⟩, hoffset k⟩
  · intro h
    obtain ⟨_, ⟨k, hk, rfl⟩, rfl⟩ := h
    exact ⟨k, hk, hoffset k⟩

/-- Pixels beside each other. -/
def row (x y : Int) (n : Nat) : Set Point := ray x y 1 0 n

/-- Pixels below each other. -/
def column (x y : Int) (n : Nat) : Set Point := ray x y 0 1 n

lemma mem_row {p : Point} {x y : Int} : p ∈ row x y n ↔ p.y = y ∧ x ≤ p.x ∧ p.x < x + n := by
  constructor
  · intro h
    obtain ⟨k, hk, rfl⟩ := h
    dsimp only
    omega
  · intro h
    refine ⟨(p.x - x).toNat, by omega, ?_⟩
    rw [Int.toNat_of_nonneg (by omega), ← h.1]
    ext
    · dsimp only
      omega
    · dsimp only
      omega

lemma mem_column {p : Point} {x y : Int} :
    p ∈ column x y n ↔ p.x = x ∧ y ≤ p.y ∧ p.y < y + n := by
  constructor
  · intro h
    obtain ⟨k, hk, rfl⟩ := h
    dsimp only
    omega
  · intro h
    refine ⟨(p.y - y).toNat, by omega, ?_⟩
    rw [Int.toNat_of_nonneg (by omega), ← h.1]
    ext
    · dsimp only
      omega
    · dsimp only
      omega

lemma steps_row (m : Mode) (x y : Int) (n : Nat) :
    steps 1 (m.offset ⟨x, y⟩) n = m.offset '' row x y n := by
  have hstep : (1 : UInt32) = UInt32.ofInt 1 + UInt32.ofInt 0 * m.line := by
    rw [UInt32.ofInt_one, show UInt32.ofInt 0 = 0 from rfl]
    grind
  rw [hstep, steps_ray]
  rfl

lemma steps_column (m : Mode) (x y : Int) (n : Nat) :
    steps m.line (m.offset ⟨x, y⟩) n = m.offset '' column x y n := by
  have hstep : m.line = UInt32.ofInt 0 + UInt32.ofInt 1 * m.line := by
    rw [UInt32.ofInt_one, show UInt32.ofInt 0 = 0 from rfl]
    grind
  rw [column, ← steps_ray, ← hstep]

/-! ## The rectangles -/

/-- A block of pixels. -/
def block (x y : Int) (width height : Nat) : Set Point :=
  {p | (y ≤ p.y ∧ p.y < y + height) ∧ x ≤ p.x ∧ p.x < x + width}

lemma mem_block {p : Point} {x y : Int} {width height : Nat} :
    p ∈ block x y width height ↔
      (y ≤ p.y ∧ p.y < y + height) ∧ x ≤ p.x ∧ p.x < x + width :=
  Iff.rfl

/-- The pixels that the loop of `fillrect` sets. -/
lemma rows_eq (m : Mode) (c width : UInt32) (x : Int) (n : Nat) (y : Int) (fb : FrameBuffer) :
    rows m c width n (m.offset ⟨x, y⟩) fb =
      paint (m.offset '' block x y width.toNat n) c.toUInt8 fb := by
  induction n generalizing y fb with
  | zero =>
    have hempty : block x y width.toNat 0 = ∅ := by
      apply Set.eq_empty_of_forall_notMem
      intro p hp
      have hrows := (mem_block.mp hp).1
      omega
    rw [rows, hempty, Set.image_empty, paint_empty]
  | succ n ih =>
    rw [rows, m.offset_down, ih, horizLine_eq, steps_row, paint_paint, ← Set.image_union]
    congr 2
    ext p
    simp only [Set.mem_union, mem_row, mem_block]
    omega

lemma toNat_ofInt {z : Int} (hlow : 0 ≤ z) (hhigh : z < 2 ^ 32) :
    (UInt32.ofInt z).toNat = z.toNat := by
  obtain ⟨n, rfl⟩ := Int.eq_ofNat_of_zero_le hlow
  rw [ofInt_natCast, UInt32.toNat_ofNat', Nat.mod_eq_of_lt (by omega), Int.toNat_natCast]

lemma toNat_computeLen {a b : Int} (h : (a - b).natAbs < 2 ^ 31) :
    (computeLen a b).toNat = (a - b).natAbs + 1 := by
  rw [computeLen]
  split
  · rw [toNat_ofInt (by omega) (by omega)]
    omega
  · rw [toNat_ofInt (by omega) (by omega)]
    omega

/-- `fillrect` sets the pixels from the first corner on. -/
theorem fillrect_eq (m : Mode) (a b : Point) (c : UInt32) (fb : FrameBuffer) :
    fillrect m a b c fb =
      paint (m.offset '' block a.x a.y (computeLen a.x b.x).toNat (computeLen a.y b.y).toNat)
        c.toUInt8 fb :=
  rows_eq m c _ a.x _ a.y fb

/-- The pixels that the loop of `rect` sets, from the corners of the outermost ring on. -/
def ringPixels : Nat → Point → Point → Nat → Nat → Set Point
  | 0, _, _, _, _ => ∅
  | wide + 1, a, b, width, height =>
    row a.x a.y width ∪ row a.x b.y width ∪ column a.x a.y height ∪ column b.x a.y height ∪
      ringPixels wide ⟨a.x + 1, a.y + 1⟩ ⟨b.x - 1, b.y - 1⟩ (width - 2) (height - 2)

lemma ofNat_sub_two (hn : 2 ≤ n) : UInt32.ofNat n - 2 = UInt32.ofNat (n - 2) := by
  obtain ⟨k, rfl⟩ := Nat.exists_eq_add_of_le hn
  rw [Nat.add_sub_cancel_left, UInt32.ofNat_add]
  grind

lemma toNat_ofNat (hn : n < 2 ^ 32) : (UInt32.ofNat n).toNat = n := by
  rw [UInt32.toNat_ofNat', Nat.mod_eq_of_lt hn]

lemma rings_eq (m : Mode) (c : UInt32) {wide width height : Nat} (hwidth : 2 * wide ≤ width)
    (hheight : 2 * wide ≤ height) (hw : width < 2 ^ 32) (hh : height < 2 ^ 32) (a b : Point)
    (fb : FrameBuffer) :
    rings m c wide ⟨UInt32.ofNat width, UInt32.ofNat height, m.offset ⟨a.x, a.y⟩,
        m.offset ⟨a.x, b.y⟩, m.offset ⟨b.x, a.y⟩⟩ fb =
      paint (m.offset '' ringPixels wide a b width height) c.toUInt8 fb := by
  induction wide generalizing width height a b fb with
  | zero => rw [rings, ringPixels, Set.image_empty, paint_empty]
  | succ wide ih =>
    have hrest := @ih (width - 2) (height - 2) (by omega) (by omega) (by omega) (by omega)
      ⟨a.x + 1, a.y + 1⟩ ⟨b.x - 1, b.y - 1⟩
    simp only [rings, ringPixels, horizLine_eq, vertLine_eq,
      m.offset_right_down, m.offset_right_up, m.offset_left_down,
      ofNat_sub_two (show 2 ≤ width by omega), ofNat_sub_two (show 2 ≤ height by omega), hrest,
      toNat_ofNat hw, toNat_ofNat hh, paint_paint, steps_row, steps_column, Set.image_union]

/-- The pixels that `rect` sets. -/
theorem rect_eq (m : Mode) {a b : Point} {wide : UInt32} (c : UInt32)
    (hx : (a.x - b.x).natAbs < 2 ^ 31 - 1) (hy : (a.y - b.y).natAbs < 2 ^ 31 - 1)
    (hwidth : 2 * wide.toNat ≤ (a.x - b.x).natAbs + 1)
    (hheight : 2 * wide.toNat ≤ (a.y - b.y).natAbs + 1) (fb : FrameBuffer) :
    rect m a b wide c fb =
      paint (m.offset '' ringPixels wide.toNat a b ((a.x - b.x).natAbs + 1)
        ((a.y - b.y).natAbs + 1)) c.toUInt8 fb := by
  have hlenx := @toNat_computeLen a.x b.x (by omega)
  have hleny := @toNat_computeLen a.y b.y (by omega)
  have htwo : (2 * wide).toNat = 2 * wide.toNat := by
    rw [UInt32.toNat_mul]
    simp only [UInt32.reduceToNat]
    omega
  have hx' : ¬computeLen a.x b.x < 2 * wide := by
    rw [UInt32.lt_iff_toNat_lt, hlenx, htwo]
    omega
  have hy' : ¬computeLen a.y b.y < 2 * wide := by
    rw [UInt32.lt_iff_toNat_lt, hleny, htwo]
    omega
  simp only [rect, if_neg hx', if_neg hy']
  by_cases hzero : wide = 0
  · rw [if_pos hzero, hzero]
    simp only [UInt32.reduceToNat, ringPixels, Set.image_empty, paint_empty]
  · have hwidths : computeLen a.x b.x = UInt32.ofNat ((a.x - b.x).natAbs + 1) := by
      rw [← hlenx, UInt32.ofNat_toNat]
    have hheights : computeLen a.y b.y = UInt32.ofNat ((a.y - b.y).natAbs + 1) := by
      rw [← hleny, UInt32.ofNat_toNat]
    rw [if_neg hzero, hwidths, hheights]
    exact rings_eq m c hwidth hheight (by omega) (by omega) a b fb

/-- From the upper left corner on, the rings are the border. -/
lemma mem_ringPixels {wide width height : Nat} {p : Point} (hx : b.x = a.x + width - 1)
    (hy : b.y = a.y + height - 1) (hwidth : 2 * wide ≤ width) (hheight : 2 * wide ≤ height) :
    p ∈ ringPixels wide a b width height ↔
      (a.x ≤ p.x ∧ p.x ≤ b.x ∧ a.y ≤ p.y ∧ p.y ≤ b.y) ∧
        (p.x < a.x + wide ∨ b.x - wide < p.x ∨ p.y < a.y + wide ∨ b.y - wide < p.y) := by
  induction wide generalizing width height a b with
  | zero =>
    rw [ringPixels]
    constructor
    · exact fun h => absurd h (Set.notMem_empty p)
    · intro h
      omega
  | succ wide ih =>
    have hrest := @ih ⟨a.x + 1, a.y + 1⟩ ⟨b.x - 1, b.y - 1⟩ (width - 2) (height - 2)
      (by dsimp only; omega) (by dsimp only; omega) (by omega) (by omega)
    simp only [ringPixels, Set.mem_union, mem_row, mem_column, hrest]
    have hwide : ((wide + 1 : Nat) : Int) = wide + 1 := rfl
    rw [hwide]
    clear ih hrest
    constructor
    · rintro ((((⟨hrow, hle, hlt⟩ | ⟨hrow, hle, hlt⟩) | ⟨hcol, hle, hlt⟩) | ⟨hcol, hle, hlt⟩) |
        ⟨hin, hnear⟩)
      · exact ⟨by omega, .inr (.inr (.inl (by omega)))⟩
      · exact ⟨by omega, .inr (.inr (.inr (by omega)))⟩
      · exact ⟨by omega, .inl (by omega)⟩
      · exact ⟨by omega, .inr (.inl (by omega))⟩
      · exact ⟨by omega, by omega⟩
    · rintro ⟨hin, hnear⟩
      by_cases htop : p.y = a.y
      · exact .inl (.inl (.inl (.inl ⟨htop, hin.1, by omega⟩)))
      by_cases hbottom : p.y = b.y
      · exact .inl (.inl (.inl (.inr ⟨hbottom, hin.1, by omega⟩)))
      by_cases hleft : p.x = a.x
      · exact .inl (.inl (.inr ⟨hleft, hin.2.2.1, by omega⟩))
      by_cases hright : p.x = b.x
      · exact .inl (.inr ⟨hright, hin.2.2.1, by omega⟩)
      · exact .inr ⟨by omega, by omega⟩

/-! ## The corners -/

/-- The rectangle that is spanned by two corners. -/
def rectangle (a b : Point) : Set Point :=
  {p | min a.x b.x ≤ p.x ∧ p.x ≤ max a.x b.x ∧ min a.y b.y ≤ p.y ∧ p.y ≤ max a.y b.y}

lemma mem_rectangle {p : Point} :
    p ∈ rectangle a b ↔
      min a.x b.x ≤ p.x ∧ p.x ≤ max a.x b.x ∧ min a.y b.y ≤ p.y ∧ p.y ≤ max a.y b.y :=
  Iff.rfl

/-- The pixels of a rectangle that are near its border. -/
def border (a b : Point) (wide : Nat) : Set Point :=
  {p | p ∈ rectangle a b ∧ (p.x < min a.x b.x + wide ∨ max a.x b.x - wide < p.x ∨
    p.y < min a.y b.y + wide ∨ max a.y b.y - wide < p.y)}

lemma mem_border {p : Point} {wide : Nat} :
    p ∈ border a b wide ↔ p ∈ rectangle a b ∧ (p.x < min a.x b.x + wide ∨
      max a.x b.x - wide < p.x ∨ p.y < min a.y b.y + wide ∨ max a.y b.y - wide < p.y) :=
  Iff.rfl

/-- The border of ordered corners. -/
lemma mem_border_of_le {n : Nat} {p : Point} (hx : a.x ≤ b.x) (hy : a.y ≤ b.y) :
    p ∈ border a b n ↔ (a.x ≤ p.x ∧ p.x ≤ b.x ∧ a.y ≤ p.y ∧ p.y ≤ b.y) ∧
      (p.x < a.x + n ∨ b.x - n < p.x ∨ p.y < a.y + n ∨ b.y - n < p.y) := by
  rw [mem_border, mem_rectangle, min_eq_left hx, max_eq_right hx, min_eq_left hy,
    max_eq_right hy]

/-- The point is one of the mode's. -/
def Mode.OnScreen (m : Mode) (p : Point) : Prop :=
  0 ≤ p.x ∧ p.x < m.xResolution.toNat ∧ 0 ≤ p.y ∧ p.y < m.yResolution.toNat

instance (m : Mode) (p : Point) : Decidable (m.OnScreen p) :=
  inferInstanceAs (Decidable (_ ∧ _ ∧ _ ∧ _))

/-- The offset of a pixel, as a number of the lines and pixels before it. -/
def Mode.place (m : Mode) (p : Point) : Int := p.y * m.linBytesPerScanLine.toNat + p.x

lemma Mode.toNat_offset {p : Point} (hlow : 0 ≤ m.place p) (hhigh : m.place p < 2 ^ 32) :
    (m.offset p).toNat = m.place p := by
  have hline : m.line = UInt32.ofInt m.linBytesPerScanLine.toNat := by
    rw [ofInt_natCast]
    apply UInt32.toNat_inj.mp
    have hlt := m.linBytesPerScanLine.toNat_lt
    rw [Mode.line, UInt16.toNat_toUInt32, UInt32.toNat_ofNat', Nat.mod_eq_of_lt (by omega)]
  have hoffset : m.offset p = UInt32.ofInt (m.place p) := by
    rw [Mode.offset, computeOffset, Mode.place, UInt32.ofInt_add, UInt32.ofInt_mul, hline]
  rw [hoffset, toNat_ofInt hlow hhigh, Int.toNat_of_nonneg hlow]

/-- An offset behind those of all pixels of a set is none of them. -/
lemma Mode.offset_notMem {S : Set Point} {p : Point} (hp : m.place p < 2 ^ 32)
    (hS : ∀ q ∈ S, 0 ≤ m.place q ∧ m.place q < m.place p) : m.offset p ∉ m.offset '' S := by
  intro h
  obtain ⟨q, hq, heq⟩ := h
  have hbounds := hS q hq
  have hnat := m.toNat_offset hbounds.1 (hbounds.2.trans hp)
  rw [heq, m.toNat_offset (hbounds.1.trans hbounds.2.le) hp] at hnat
  omega

lemma Mode.line_bounds (m : Mode) :
    m.xResolution.toNat ≤ m.linBytesPerScanLine.toNat ∧ m.linBytesPerScanLine.toNat < 2 ^ 16 ∧
      m.yResolution.toNat < 2 ^ 16 :=
  ⟨UInt16.le_iff_toNat_le.mp m.wide, m.linBytesPerScanLine.toNat_lt, m.yResolution.toNat_lt⟩

/-- The place of a pixel on the screen is in the lines up to its own. -/
lemma Mode.OnScreen.place {p : Point} (h : m.OnScreen p) :
    0 ≤ m.place p ∧ m.place p < (p.y + 1) * m.linBytesPerScanLine.toNat := by
  obtain ⟨hx, hxlt, hy, -⟩ := h
  have hwide := m.line_bounds.1
  have hpos : 0 ≤ p.y * m.linBytesPerScanLine.toNat := Int.mul_nonneg hy (by omega)
  rw [Mode.place, Int.add_mul, Int.one_mul]
  omega

/-- All offsets up to the line behind the last one are different. -/
lemma Mode.lines_lt {y : Int} (h : y ≤ m.yResolution.toNat) :
    (y + 1) * m.linBytesPerScanLine.toNat < 2 ^ 32 := by
  obtain ⟨-, hline, hlines⟩ := m.line_bounds
  calc (y + 1) * (m.linBytesPerScanLine.toNat : Int)
      ≤ 2 ^ 16 * m.linBytesPerScanLine.toNat :=
        Int.mul_le_mul_of_nonneg_right (by omega) (by omega)
    _ < 2 ^ 32 := by omega

section Corners

variable (ha : m.OnScreen a) (hb : m.OnScreen b)
include ha hb

lemma onScreen_of_mem {p : Point} (hp : p ∈ rectangle a b) : m.OnScreen p := by
  obtain ⟨hleft, hright, htop, hbottom⟩ := hp
  simp only [Mode.OnScreen] at ha hb ⊢
  omega

/-- From a right corner on, a span leaves the rectangle. -/
lemma right_outside (h : b.x < a.x) :
    m.offset ⟨a.x + 1, max a.y b.y⟩ ∉ m.offset '' rectangle a b := by
  have hplace : m.place ⟨a.x + 1, max a.y b.y⟩ =
      max a.y b.y * m.linBytesPerScanLine.toNat + a.x + 1 :=
    (Int.add_assoc _ _ _).symm
  apply m.offset_notMem
  · have hlt := m.lines_lt (y := max a.y b.y) (by simp only [Mode.OnScreen] at ha hb; omega)
    have hx := ha.2.1
    have hwide := m.line_bounds.1
    rw [Int.add_mul, Int.one_mul] at hlt
    omega
  · intro q hq
    have hscreen := onScreen_of_mem ha hb hq
    refine ⟨hscreen.place.1, ?_⟩
    obtain ⟨hleft, hright, htop, hbottom⟩ := hq
    have hlines : q.y * (m.linBytesPerScanLine.toNat : Int) ≤
        max a.y b.y * m.linBytesPerScanLine.toNat :=
      Int.mul_le_mul_of_nonneg_right hbottom (by omega)
    rw [hplace, Mode.place]
    omega

/-- From a lower corner on, a column leaves the rectangle. -/
lemma below_outside (h : b.y < a.y) :
    m.offset ⟨a.x, a.y + 1⟩ ∉ m.offset '' rectangle a b := by
  have hplace : m.place ⟨a.x, a.y + 1⟩ = (a.y + 1) * m.linBytesPerScanLine.toNat + a.x := rfl
  obtain ⟨hx, hxlt, hy, hylt⟩ := ha
  apply m.offset_notMem
  · have hlt := m.lines_lt (y := a.y + 1) (by omega)
    have hwide := m.line_bounds.1
    rw [Int.add_mul, Int.one_mul] at hlt
    omega
  · intro q hq
    have hscreen := onScreen_of_mem ⟨hx, hxlt, hy, hylt⟩ hb hq
    refine ⟨hscreen.place.1, hscreen.place.2.trans_le ?_⟩
    obtain ⟨hleft, hright, htop, hbottom⟩ := hq
    have hlines : (q.y + 1) * (m.linBytesPerScanLine.toNat : Int) ≤
        (a.y + 1) * m.linBytesPerScanLine.toNat :=
      Int.mul_le_mul_of_nonneg_right (by omega) (by omega)
    rw [hplace]
    omega

end Corners

lemma exists_ne_byte (v : UInt8) : ∃ u, u ≠ v := by
  by_cases h : v = 0
  · exact ⟨1, by rw [h]; decide⟩
  · exact ⟨0, fun hzero => h hzero.symm⟩

/-- `fillrect` sets the pixels of the rectangle. -/
def FillExact (m : Mode) (a b : Point) (c : UInt32) : Prop :=
  ∀ fb, fillrect m a b c fb = paint (m.offset '' rectangle a b) c.toUInt8 fb

/-- `rect` sets the pixels of the rectangle that are near its border. -/
def RectExact (m : Mode) (a b : Point) (wide c : UInt32) : Prop :=
  ∀ fb, rect m a b wide c fb = paint (m.offset '' border a b wide.toNat) c.toUInt8 fb

/-- `fillrect` is exact for corners given from the upper left to the lower right one. -/
lemma fillExact_iff (ha : m.OnScreen a) (hb : m.OnScreen b) (c : UInt32) :
    FillExact m a b c ↔ a.x ≤ b.x ∧ a.y ≤ b.y := by
  have hlines := m.line_bounds
  have hax := ha.2.1
  have hbx := hb.2.1
  have hay := ha.2.2.2
  have hby := hb.2.2.2
  have hlenx := @toNat_computeLen a.x b.x (by simp only [Mode.OnScreen] at ha hb; omega)
  have hleny := @toNat_computeLen a.y b.y (by simp only [Mode.OnScreen] at ha hb; omega)
  simp only [FillExact, fillrect_eq]
  rw [paint_inj (exists_ne_byte _), hlenx, hleny]
  constructor
  · intro h
    by_contra hnot
    by_cases hx : b.x < a.x
    · apply right_outside ha hb hx
      rw [← h]
      refine Set.mem_image_of_mem _ (mem_block.mpr ?_)
      dsimp only
      omega
    · have hy : b.y < a.y := by omega
      apply below_outside ha hb hy
      rw [← h]
      refine Set.mem_image_of_mem _ (mem_block.mpr ?_)
      dsimp only
      omega
  · intro h
    congr 1
    ext p
    rw [mem_block, mem_rectangle]
    omega

/-- `rect` is exact for such corners, and if it draws nothing. -/
lemma rectExact_iff (ha : m.OnScreen a) (hb : m.OnScreen b) (wide c : UInt32)
    (hwidth : 2 * wide.toNat ≤ (a.x - b.x).natAbs + 1)
    (hheight : 2 * wide.toNat ≤ (a.y - b.y).natAbs + 1) :
    RectExact m a b wide c ↔ wide = 0 ∨ (a.x ≤ b.x ∧ a.y ≤ b.y) := by
  have hlines := m.line_bounds
  have hsmall : (a.x - b.x).natAbs < 2 ^ 31 - 1 ∧ (a.y - b.y).natAbs < 2 ^ 31 - 1 := by
    simp only [Mode.OnScreen] at ha hb
    omega
  have hrect := rect_eq m c hsmall.1 hsmall.2 hwidth hheight
  simp only [RectExact, hrect]
  rw [paint_inj (exists_ne_byte _)]
  constructor
  · intro h
    by_contra hnot
    obtain ⟨hne, hcorners⟩ := not_or.mp hnot
    obtain ⟨n, hn⟩ : ∃ n, wide.toNat = n + 1 := by
      apply Nat.exists_eq_succ_of_ne_zero
      exact fun hnat => hne (UInt32.toNat_inj.mp hnat)
    have hborder : border a b wide.toNat ⊆ rectangle a b := fun p hp => (mem_border.mp hp).1
    rw [hn, ringPixels, ← hn] at h
    by_cases hx : b.x < a.x
    · apply right_outside ha hb hx
      apply Set.image_mono hborder
      rw [← h]
      apply Set.mem_image_of_mem
      simp only [Set.mem_union, mem_row]
      omega
    · have hy : b.y < a.y := by omega
      apply below_outside ha hb hy
      apply Set.image_mono hborder
      rw [← h]
      apply Set.mem_image_of_mem
      refine .inl (.inl (.inr (mem_column.mpr ⟨rfl, ?_, ?_⟩)))
      · dsimp only
        omega
      · dsimp only
        omega
  · intro h
    congr 1
    ext p
    rcases h with rfl | h
    · constructor
      · exact fun hp => absurd hp (Set.notMem_empty p)
      · intro hp
        have hzero : (0 : UInt32).toNat = 0 := rfl
        rw [mem_border, mem_rectangle, hzero] at hp
        omega
    · rw [mem_ringPixels (by omega) (by omega) hwidth hheight, mem_border, mem_rectangle]
      omega

/-- Two corners draw the rectangle that they span, with and without its inside, exactly if the
first one is the upper left one; a border without thickness is never drawn. -/
theorem rectangles_exact_iff (m : Mode) (a b : Point) (wide c : UInt32) (ha : m.OnScreen a)
    (hb : m.OnScreen b) (hwidth : 2 * wide.toNat ≤ (a.x - b.x).natAbs + 1)
    (hheight : 2 * wide.toNat ≤ (a.y - b.y).natAbs + 1) :
    (RectExact m a b wide c ↔ wide = 0 ∨ (a.x ≤ b.x ∧ a.y ≤ b.y)) ∧
      (FillExact m a b c ↔ a.x ≤ b.x ∧ a.y ≤ b.y) :=
  ⟨rectExact_iff ha hb wide c hwidth hheight, fillExact_iff ha hb c⟩

/-- 640 by 480 pixels, with a line of 640 bytes. -/
def vga : Mode := ⟨640, 640, 480, by decide⟩

theorem rectangles_exact_vga :
    (RectExact vga ⟨10, 20⟩ ⟨17, 29⟩ 2 7 ↔
        (2 : UInt32) = 0 ∨ ((10 : Int) ≤ 17 ∧ (20 : Int) ≤ 29)) ∧
      (FillExact vga ⟨10, 20⟩ ⟨17, 29⟩ 7 ↔ (10 : Int) ≤ 17 ∧ (20 : Int) ≤ 29) :=
  rectangles_exact_iff vga ⟨10, 20⟩ ⟨17, 29⟩ 2 7 (by decide) (by decide) (by decide) (by decide)

theorem rectangles_not_exact :
    ¬∀ (m : Mode) (a b : Point) (wide c : UInt32), m.OnScreen a → m.OnScreen b →
      2 * wide.toNat ≤ (a.x - b.x).natAbs + 1 → 2 * wide.toNat ≤ (a.y - b.y).natAbs + 1 →
      RectExact m a b wide c ∧ FillExact m a b c := by
  intro h
  have hexact := h vga ⟨17, 20⟩ ⟨10, 29⟩ 2 7 (by decide) (by decide) (by decide) (by decide)
  have hcorners := (@fillExact_iff vga ⟨17, 20⟩ ⟨10, 29⟩ (by decide) (by decide) 7).mp hexact.2
  exact absurd hcorners.1 (by decide)

end DiegOS.Drivers.Vesa
