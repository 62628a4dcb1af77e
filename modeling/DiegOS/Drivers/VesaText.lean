import DiegOS.Drivers.Vesa
import DiegOS.Lib.Plotting
import DiegOS.Libc.Streams
import Mathlib.Data.List.Nodup
import Mathlib.Data.Nat.Bitwise

/-!
# Text and sprites in the frame buffer

`vesa_write_text`, `vesa_write_bgtext` and `draw_sprite`.  A store outside the frame
buffer and a character read outside the font, the text or the sprite are `none`.  All three go
from row to row by `XResolution`, and take the characters of the text as signed.

Main results:

- Theorem `shows_iff`: strokes that are placed by `XResolution` are a picture exactly if
  lines have no more bytes than pixels, or there is only a first row.
- Theorem `lands_iff`: when text and sprites are where they should be.
-/

namespace DiegOS.Drivers.Vesa

open Lib

/-! ## The code -/

/-- `vesa_gmode.XResolution` -/
def Mode.width (m : Mode) : UInt32 := m.xResolution.toUInt32

/-- The size of the frame buffer. -/
def Mode.size (m : Mode) : Nat := m.linBytesPerScanLine.toNat * m.yResolution.toNat

/-- `*fb = (uint8_t) c`, inside the frame buffer. -/
def storeIn (m : Mode) (fb : FrameBuffer) (offset c : UInt32) : Option FrameBuffer :=
  if offset.toNat < m.size then some (store fb offset c) else none

/-- `W`, the width of the characters. -/
def W : UInt32 := 8

/-- The loop over the bits of a row, for at most so many rounds; without a background only the bits
that are set are stored. -/
def cellBits (m : Mode) (bg : Option UInt32) (c : UInt32) (bits : UInt8) (p : UInt32) :
    Nat → UInt8 → UInt32 → FrameBuffer → Option FrameBuffer
  | 0, _, _, fb => some fb
  | n + 1, cursor, loop, fb =>
    if cursor = 0 then some fb
    else
      let loop := loop - 1
      let stored :=
        if cursor &&& bits ≠ 0 then storeIn m fb (p + loop) c
        else
          match bg with
          | some bg => storeIn m fb (p + loop) bg
          | none => some fb
      stored.bind (cellBits m bg c bits p n (cursor + cursor) loop)

/-- The loop over the rows of a character. -/
def cellRows (m : Mode) (font : List UInt8) (bg : Option UInt32) (c fontptr : UInt32) :
    Nat → UInt32 → UInt32 → FrameBuffer → Option FrameBuffer
  | 0, _, _, fb => some fb
  | n + 1, scan, p, fb =>
    (font[(fontptr + scan).toNat]?).bind fun bits =>
      (cellBits m bg c bits p 9 1 W fb).bind
        (cellRows m font bg c fontptr n (scan + 1) (p + m.width))

/-- The loop over the characters. -/
def writeChars (m : Mode) (font : List UInt8) (H : UInt32) (bg : Option UInt32) (c : UInt32) :
    List UInt8 → UInt32 → UInt32 → FrameBuffer → Option FrameBuffer
  | [], _, _, _ => none
  | ch :: str, x, y, fb =>
    if ch = 0 then some fb
    else
      let fontptr := UInt32.ofInt (Libc.ofChar ch) * H
      (cellRows m font bg c fontptr H.toNat 0 (computeOffset m x y) fb).bind
        (writeChars m font H bg c str (x + W) y)

def vesaWriteText (m : Mode) (font : List UInt8) (H : UInt32) (a : Point) (c : UInt32)
    (str : List UInt8) (fb : FrameBuffer) : Option FrameBuffer :=
  if str.head? = some 0 then some fb
  else writeChars m font H none c str (UInt32.ofInt a.x) (UInt32.ofInt a.y) fb

def vesaWriteBgtext (m : Mode) (font : List UInt8) (H : UInt32) (a : Point) (bg c : UInt32)
    (str : List UInt8) (fb : FrameBuffer) : Option FrameBuffer :=
  if str.head? = some 0 then some fb
  else writeChars m font H (some bg) c str (UInt32.ofInt a.x) (UInt32.ofInt a.y) fb

/-- One round of the loops over the bits of a sprite: `cursor` and `fb` after it. -/
def spriteBit (m : Mode) (color : UInt32) (bits cursor : UInt8) (p : UInt32) (fb : FrameBuffer) :
    Option (UInt8 × UInt32 × FrameBuffer) :=
  (if cursor &&& bits ≠ 0 then storeIn m fb p color else some fb).map fun fb =>
    (cursor + cursor, p + 1, fb)

/-- The loop over a whole byte of a sprite, for at most so many rounds. -/
def spriteByte (m : Mode) (color : UInt32) (bits : UInt8) :
    Nat → UInt8 → UInt32 → FrameBuffer → Option (UInt32 × FrameBuffer)
  | 0, _, p, fb => some (p, fb)
  | n + 1, cursor, p, fb =>
    if cursor = 0 then some (p, fb)
    else (spriteBit m color bits cursor p fb).bind fun s =>
      spriteByte m color bits n s.1 s.2.1 s.2.2

/-- The loop over the last `scan` bits of a row of a sprite. -/
def spriteBits (m : Mode) (color : UInt32) (bits : UInt8) :
    Nat → UInt8 → UInt32 → FrameBuffer → Option (UInt32 × FrameBuffer)
  | 0, _, p, fb => some (p, fb)
  | scan + 1, cursor, p, fb =>
    (spriteBit m color bits cursor p fb).bind fun s =>
      spriteBits m color bits scan s.1 s.2.1 s.2.2

/-- A row of a sprite: `loop` and `fb` after it. -/
def spriteRow (m : Mode) (sprite : List UInt8) (color : UInt32) (scan loop : Nat) (p : UInt32)
    (fb : FrameBuffer) : Option (Nat × UInt32 × FrameBuffer) :=
  if scan > 8 then
    (sprite[loop]?).bind fun bits =>
      (spriteByte m color bits 9 1 p fb).bind fun s =>
        spriteRow m sprite color (scan - 8) (loop + 1) s.1 s.2
  else if scan ≠ 0 then
    (sprite[loop]?).bind fun bits =>
      (spriteBits m color bits scan 1 p fb).map fun s => (loop + 1, s)
  else some (loop, p, fb)
termination_by scan

/-- The loop over the rows of a sprite. -/
def spriteRows (m : Mode) (sprite : List UInt8) (color W : UInt32) :
    Nat → Nat → UInt32 → FrameBuffer → Option FrameBuffer
  | 0, _, _, fb => some fb
  | H + 1, loop, p, fb =>
    (spriteRow m sprite color W.toNat loop p fb).bind fun s =>
      spriteRows m sprite color W H s.1 (s.2.1 + (m.width - W)) s.2.2

def drawSprite (m : Mode) (a : Point) (sprite : List UInt8) (W H color : UInt32)
    (fb : FrameBuffer) : Option FrameBuffer :=
  if W = 0 ∨ H = 0 then some fb
  else spriteRows m sprite color W H.toNat 0
    (computeOffset m (UInt32.ofInt a.x) (UInt32.ofInt a.y)) fb

/-! ## Pictures -/

/-- The pixels of a picture with their colors. -/
abbrev Picture := Point → UInt32 → Prop

/-- What a routine does to every memory: the pixels of a picture get their colors, and nothing else
changes. -/
def Shows (m : Mode) (picture : Picture) (result : FrameBuffer → Option FrameBuffer) : Prop :=
  ∀ fb, ∃ fb', result fb = some fb' ∧ (∀ p c, picture p c → fb' (m.offset p) = c.toUInt8) ∧
    ∀ o, (∀ p c, picture p c → m.offset p ≠ o) → fb' o = fb o

/-- A row of a character in a font. -/
def glyph (font : List UInt8) (H : UInt32) (ch : UInt8) (row : Nat) : UInt8 :=
  font.getD (ch.toNat * H.toNat + row) 0

/-- A pixel of a character: the first of a row is the highest bit. -/
def glyphBit (font : List UInt8) (H : UInt32) (ch : UInt8) (row col : Nat) : Bool :=
  (glyph font H ch row).toNat.testBit (7 - col)

/-- What is stored for a pixel of a character. -/
def ink (bg : Option UInt32) (c : UInt32) (bit : Bool) : Option UInt32 :=
  if bit then some c else bg

/-- A text with or without a background. -/
def textPicture (font : List UInt8) (H : UInt32) (a : Point) (bg : Option UInt32) (c : UInt32)
    (str : List UInt8) : Picture := fun p color =>
  ∃ i row col ch, str[i]? = some ch ∧ row < H.toNat ∧ col < 8 ∧
    p = ⟨a.x + (8 * i + col : Nat), a.y + (row : Nat)⟩ ∧
      ink bg c (glyphBit font H ch row col) = some color

/-- A pixel of a sprite: the first of a row is the lowest bit, and a row takes whole bytes. -/
def spriteSet (sprite : List UInt8) (W : UInt32) (row col : Nat) : Bool :=
  (sprite.getD (row * ((W.toNat + 7) / 8) + col / 8) 0).toNat.testBit (col % 8)

/-- The pixels of a sprite. -/
def spritePicture (a : Point) (sprite : List UInt8) (W H color : UInt32) : Picture := fun p c =>
  ∃ row col : Nat, row < H.toNat ∧ col < W.toNat ∧ p = ⟨a.x + col, a.y + row⟩ ∧
    spriteSet sprite W row col = true ∧ c = color

/-- A block of pixels from a corner on is on the screen. -/
def Mode.Fits (m : Mode) (a : Point) (width height : Nat) : Prop :=
  0 ≤ a.x ∧ a.x + width ≤ m.xResolution.toNat ∧ 0 ≤ a.y ∧ a.y + height ≤ m.yResolution.toNat

/-! ## Strokes -/

/-- A store of a color at a distance from the corner. -/
structure Stroke where
  dx : Nat
  dy : Nat
  color : UInt32

/-- Where a stroke goes. -/
def Stroke.pixel (a : Point) (s : Stroke) : Point := ⟨a.x + s.dx, a.y + s.dy⟩

/-- Where the code places a stroke, from the offset of the corner. -/
def Mode.strokeOffset (m : Mode) (a : Point) (s : Stroke) : UInt32 :=
  m.offset a + UInt32.ofNat s.dx + UInt32.ofNat s.dy * m.width

/-- The stores of some strokes. -/
def Mode.stores (m : Mode) (a : Point) (strokes : List Stroke) : List (UInt32 × UInt8) :=
  strokes.map fun s => (m.strokeOffset a s, s.color.toUInt8)

variable {m : Mode} {a : Point} {s : Stroke} {fb : FrameBuffer} {width height : Nat}

lemma Mode.width_eq (m : Mode) : m.width = UInt32.ofNat m.xResolution.toNat := by
  apply UInt32.toNat_inj.mp
  have hlt := m.xResolution.toNat_lt
  rw [Mode.width, UInt16.toNat_toUInt32, UInt32.toNat_ofNat', Nat.mod_eq_of_lt (by omega)]

lemma Mode.Fits.onScreen (h : m.Fits a width height) (hx : s.dx < width) (hy : s.dy < height) :
    m.OnScreen (s.pixel a) := by
  obtain ⟨hx0, hx1, hy0, hy1⟩ := h
  simp only [Mode.OnScreen, Stroke.pixel]
  omega

lemma Mode.size_lt (m : Mode) : (m.size : Int) < 2 ^ 32 := by
  obtain ⟨-, hline, hlines⟩ := m.line_bounds
  have hmul : m.size ≤ (2 ^ 16 - 1) * (2 ^ 16 - 1) := Nat.mul_le_mul (by omega) (by omega)
  omega

/-- The number of the byte where the code places a stroke. -/
lemma Mode.toNat_strokeOffset (h : m.Fits a width height) (hx : s.dx < width)
    (hy : s.dy < height) :
    ((m.strokeOffset a s).toNat : Int) =
      m.place a + s.dx + (s.dy * m.xResolution.toNat : Nat) ∧
    ((m.strokeOffset a s).toNat : Int) ≤ m.place (s.pixel a) ∧ m.place (s.pixel a) < m.size := by
  obtain ⟨hbounds, hline, hlines⟩ := m.line_bounds
  have hpixel := h.onScreen hx hy
  obtain ⟨hx0, hx1, hy0, hy1⟩ := h
  have hcorner : m.OnScreen a := by
    simp only [Mode.OnScreen]
    omega
  have hrows : s.dy * m.xResolution.toNat ≤ s.dy * m.linBytesPerScanLine.toNat :=
    Nat.mul_le_mul_left s.dy hbounds
  have hplace : m.place (s.pixel a) =
      m.place a + s.dx + (s.dy * m.linBytesPerScanLine.toNat : Nat) := by
    simp only [Mode.place, Stroke.pixel, Int.natCast_mul]
    ring
  have hsize : m.place (s.pixel a) < m.size := by
    have hrow : (s.pixel a).y + 1 ≤ m.yResolution.toNat := hpixel.2.2.2
    calc m.place (s.pixel a) < ((s.pixel a).y + 1) * m.linBytesPerScanLine.toNat := hpixel.place.2
      _ ≤ m.yResolution.toNat * m.linBytesPerScanLine.toNat :=
        Int.mul_le_mul_of_nonneg_right hrow (Int.natCast_nonneg _)
      _ = m.size := by
        rw [Mode.size, Int.natCast_mul, Int.mul_comm]
  have hlast := m.size_lt
  have hlow := hcorner.place.1
  have hoffset := m.toNat_offset hlow (by omega)
  have hnat : (m.strokeOffset a s).toNat =
      (m.offset a).toNat + s.dx + s.dy * m.xResolution.toNat := by
    rw [Mode.strokeOffset, m.width_eq, ← UInt32.ofNat_mul, UInt32.add_assoc, ← UInt32.ofNat_add,
      UInt32.toNat_add, UInt32.toNat_ofNat']
    omega
  refine ⟨?_, ?_, hsize⟩
  · rw [hnat, ← hoffset]
    omega
  · rw [hplace, hnat]
    omega

/-- Pixels on the screen with one offset are equal. -/
lemma Mode.OnScreen.offset_inj {p q : Point} (hp : m.OnScreen p) (hq : m.OnScreen q)
    (h : m.offset p = m.offset q) : p = q := by
  have hp1 : p.y + 1 ≤ m.yResolution.toNat := hp.2.2.2
  have hq1 : q.y + 1 ≤ m.yResolution.toNat := hq.2.2.2
  have hpy : (p.y + 1) * m.linBytesPerScanLine.toNat < 2 ^ 32 := m.lines_lt (by omega)
  have hqy : (q.y + 1) * m.linBytesPerScanLine.toNat < 2 ^ 32 := m.lines_lt (by omega)
  have hplace : m.place p = m.place q := by
    rw [← m.toNat_offset hp.place.1 (hp.place.2.trans hpy),
      ← m.toNat_offset hq.place.1 (hq.place.2.trans hqy), h]
  obtain ⟨hbounds, -, -⟩ := m.line_bounds
  obtain ⟨hpx, hpx', -, -⟩ := hp
  obtain ⟨hqx, hqx', -, -⟩ := hq
  have hline : (0 : Int) < m.linBytesPerScanLine.toNat := by omega
  rw [Mode.place, Mode.place] at hplace
  have hy : p.y = q.y := by
    rcases Int.lt_trichotomy p.y q.y with hlt | heq | hgt
    · have hmul := Int.mul_le_mul_of_nonneg_right (show p.y + 1 ≤ q.y by omega) hline.le
      rw [Int.add_mul, Int.one_mul] at hmul
      omega
    · exact heq
    · have hmul := Int.mul_le_mul_of_nonneg_right (show q.y + 1 ≤ p.y by omega) hline.le
      rw [Int.add_mul, Int.one_mul] at hmul
      omega
  ext
  · rw [hy] at hplace
    omega
  · exact hy

section Strokes

variable {strokes : List Stroke}

variable (hfits : m.Fits a width height)
include hfits

/-- The places of the pixels, if no stroke comes twice. -/
lemma nodup_offset
    (hin : ∀ s ∈ strokes, s.dx < width ∧ s.dy < height)
    (hnodup : (strokes.map fun s => (s.dx, s.dy)).Nodup) :
    (strokes.map fun s => m.offset (s.pixel a)).Nodup := by
  refine List.Nodup.map_on (fun s hs t ht heq => ?_) hnodup.of_map
  refine List.inj_on_of_nodup_map hnodup hs ht ?_
  have hpixel := (hfits.onScreen (hin s hs).1 (hin s hs).2).offset_inj
    (hfits.onScreen (hin t ht).1 (hin t ht).2) heq
  simp only [Stroke.pixel, Point.mk.injEq] at hpixel
  rw [Prod.mk.injEq]
  omega

/-- Where the code places a stroke is where its pixel is, if lines have no more bytes than pixels
or it is in the first row. -/
lemma Mode.strokeOffset_eq_iff (hx : s.dx < width)
    (hy : s.dy < height) :
    m.strokeOffset a s = m.offset (s.pixel a) ↔
      m.xResolution = m.linBytesPerScanLine ∨ s.dy = 0 := by
  obtain ⟨hnat, hle, hsize⟩ := m.toNat_strokeOffset hfits hx hy
  have hoffset := m.toNat_offset (by omega) (hsize.trans m.size_lt)
  have hplace : m.place (s.pixel a) =
      m.place a + s.dx + (s.dy * m.linBytesPerScanLine.toNat : Nat) := by
    simp only [Mode.place, Stroke.pixel, Int.natCast_mul]
    ring
  rw [← UInt32.toNat_inj, ← UInt16.toNat_inj]
  constructor
  · intro heq
    have hmul : s.dy * m.xResolution.toNat = s.dy * m.linBytesPerScanLine.toNat := by omega
    rcases Nat.eq_zero_or_pos s.dy with hzero | hpos
    · exact .inr hzero
    · exact .inl (Nat.eq_of_mul_eq_mul_left hpos hmul)
  · intro h
    have hmul : s.dy * m.xResolution.toNat = s.dy * m.linBytesPerScanLine.toNat := by
      rcases h with heq | hzero
      · rw [heq]
      · rw [hzero, Nat.zero_mul, Nat.zero_mul]
    omega

/-- Strokes that are placed by `XResolution` are a picture exactly if lines have no more bytes
than pixels, or there is only a first row. -/
theorem shows_iff {picture : Picture} {result : FrameBuffer → Option FrameBuffer}
    (hin : ∀ s ∈ strokes, s.dx < width ∧ s.dy < height)
    (hnodup : (strokes.map fun s => (s.dx, s.dy)).Nodup)
    (hresult : ∀ fb, result fb = some (plot (m.stores a strokes) fb))
    (hpicture : ∀ p c, picture p c ↔ ∃ s ∈ strokes, s.pixel a = p ∧ s.color = c) :
    Shows m picture result ↔
      m.xResolution = m.linBytesPerScanLine ∨ ∀ s ∈ strokes, s.dy = 0 := by
  have hoffsets := nodup_offset hfits hin hnodup
  let right : List (UInt32 × UInt8) :=
    strokes.map fun s => (m.offset (s.pixel a), s.color.toUInt8)
  have hfst : right.map Prod.fst = strokes.map fun s => m.offset (s.pixel a) := by
    rw [List.map_map]
    rfl
  have hmem : ∀ o, o ∈ right.map Prod.fst ↔ ∃ p c, picture p c ∧ m.offset p = o := by
    intro o
    rw [hfst, List.mem_map]
    constructor
    · rintro ⟨s, hs, rfl⟩
      exact ⟨_, _, (hpicture _ _).mpr ⟨s, hs, rfl, rfl⟩, rfl⟩
    · rintro ⟨p, c, hp, rfl⟩
      obtain ⟨s, hs, rfl, -⟩ := (hpicture p c).mp hp
      exact ⟨s, hs, rfl⟩
  have hshows : Shows m picture result ↔
      ∀ fb, plot (m.stores a strokes) fb = plot right fb := by
    refine forall_congr' fun fb => ?_
    rw [hresult fb]
    constructor
    · rintro ⟨fb', hfb', hstored, hkept⟩
      rw [Option.some.inj hfb']
      refine plot_eq_of (by rw [hfst]; exact hoffsets) ?_ fun o ho => hkept o fun p c hp heq => ?_
      · intro st hst
        obtain ⟨s, hs, rfl⟩ := List.mem_map.mp hst
        exact hstored _ _ ((hpicture _ _).mpr ⟨s, hs, rfl, rfl⟩)
      · exact ho ((hmem o).mpr ⟨p, c, hp, heq⟩)
    · intro heq
      refine ⟨_, congrArg some heq, fun p c hp => ?_, fun o ho => ?_⟩
      · obtain ⟨s, hs, rfl, rfl⟩ := (hpicture p c).mp hp
        exact plot_of_mem (by rw [hfst]; exact hoffsets) (List.mem_map.mpr ⟨s, hs, rfl⟩)
      · refine plot_of_not_mem fun hin => ?_
        obtain ⟨p, c, hp, heq⟩ := (hmem o).mp hin
        exact ho p c hp heq
  have hle : ∀ s ∈ strokes, (m.strokeOffset a s).toNat ≤ (m.offset (s.pixel a)).toNat := by
    intro s hs
    obtain ⟨-, hle, hsize⟩ := m.toNat_strokeOffset hfits (hin s hs).1 (hin s hs).2
    have hoffset := m.toNat_offset (by omega) (hsize.trans m.size_lt)
    omega
  have hways := plot_eq_iff (fun s : Stroke => s.color.toUInt8) ⟨0, 1, by decide⟩
    (fun i j => UInt32.toNat_inj.mp) hle hoffsets
  rw [hshows]
  refine hways.trans ⟨fun h => ?_, fun h s hs => ?_⟩
  · by_cases heq : m.xResolution = m.linBytesPerScanLine
    · exact .inl heq
    · refine .inr fun s hs => ?_
      exact ((m.strokeOffset_eq_iff hfits (hin s hs).1 (hin s hs).2).mp (h s hs)).resolve_left heq
  · exact (m.strokeOffset_eq_iff hfits (hin s hs).1 (hin s hs).2).mpr
      (h.imp_right fun hzero => hzero s hs)

end Strokes

/-! ## The text as strokes -/

/-- The strokes of the first bits of a row of a character, in the order of the loop. -/
def cellStrokes (bg : Option UInt32) (c : UInt32) (bits : UInt8) (dx dy : Nat) :
    Nat → List Stroke
  | 0 => []
  | n + 1 =>
    (ink bg c (bits.toNat.testBit (7 - n))).toList.map (⟨dx + n, dy, ·⟩) ++
      cellStrokes bg c bits dx dy n

/-- The strokes of some rows of a character. -/
def charStrokes (font : List UInt8) (H : UInt32) (bg : Option UInt32) (c : UInt32) (ch : UInt8)
    (dx : Nat) : Nat → Nat → List Stroke
  | 0, _ => []
  | n + 1, row =>
    cellStrokes bg c (glyph font H ch row) dx row 8 ++ charStrokes font H bg c ch dx n (row + 1)

/-- The strokes of a text. -/
def textStrokes (font : List UInt8) (H : UInt32) (bg : Option UInt32) (c : UInt32) :
    List UInt8 → Nat → List Stroke
  | [], _ => []
  | ch :: str, dx =>
    charStrokes font H bg c ch dx H.toNat 0 ++ textStrokes font H bg c str (dx + 8)

section Text

variable {font : List UInt8} {H : UInt32} {bg : Option UInt32} {c : UInt32} {bits ch : UInt8}
  {dx dy n row : Nat} {str : List UInt8}

lemma mem_cellStrokes : s ∈ cellStrokes bg c bits dx dy n ↔
    ∃ col < n, ink bg c (bits.toNat.testBit (7 - col)) = some s.color ∧ s.dx = dx + col ∧
      s.dy = dy := by
  induction n with
  | zero => exact iff_of_false List.not_mem_nil fun ⟨_, h, _⟩ => absurd h (Nat.not_lt_zero _)
  | succ n ih =>
    rw [cellStrokes, List.mem_append, ih, List.mem_map]
    constructor
    · rintro (⟨color, hcolor, rfl⟩ | ⟨col, hcol, h⟩)
      · exact ⟨n, Nat.lt_succ_self n, Option.mem_toList.mp hcolor, rfl, rfl⟩
      · exact ⟨col, by omega, h⟩
    · rintro ⟨col, hcol, hink, hdx, hdy⟩
      rcases Nat.lt_or_ge col n with hlt | hge
      · exact .inr ⟨col, hlt, hink, hdx, hdy⟩
      · have heq : col = n := by omega
        subst heq
        refine .inl ⟨s.color, Option.mem_toList.mpr hink, ?_⟩
        rw [← hdx, ← hdy]

lemma mem_charStrokes : s ∈ charStrokes font H bg c ch dx n row ↔
    ∃ r col, (row ≤ r ∧ r < row + n) ∧ col < 8 ∧
      ink bg c (glyphBit font H ch r col) = some s.color ∧ s.dx = dx + col ∧ s.dy = r := by
  induction n generalizing row with
  | zero => exact iff_of_false List.not_mem_nil fun ⟨_, _, h, _⟩ => by omega
  | succ n ih =>
    rw [charStrokes, List.mem_append, mem_cellStrokes, ih]
    constructor
    · rintro (⟨col, hcol, hink, hdx, hdy⟩ | ⟨r, col, hr, h⟩)
      · exact ⟨row, col, by omega, hcol, hink, hdx, hdy⟩
      · exact ⟨r, col, by omega, h⟩
    · rintro ⟨r, col, hr, hcol, hink, hdx, hdy⟩
      rcases Nat.eq_or_lt_of_le hr.1 with rfl | hlt
      · exact .inl ⟨col, hcol, hink, hdx, hdy⟩
      · exact .inr ⟨r, col, by omega, hcol, hink, hdx, hdy⟩

lemma mem_textStrokes : s ∈ textStrokes font H bg c str dx ↔
    ∃ i r col ch, str[i]? = some ch ∧ r < H.toNat ∧ col < 8 ∧
      ink bg c (glyphBit font H ch r col) = some s.color ∧ s.dx = dx + 8 * i + col ∧ s.dy = r := by
  induction str generalizing dx with
  | nil => exact iff_of_false List.not_mem_nil fun ⟨_, _, _, _, h, _⟩ => by cases h
  | cons ch str ih =>
    rw [textStrokes, List.mem_append, mem_charStrokes, ih]
    constructor
    · rintro (⟨r, col, hr, hcol, hink, hdx, hdy⟩ | ⟨i, r, col, ch', hi, hr, hcol, hink, hdx, hdy⟩)
      · exact ⟨0, r, col, ch, rfl, by omega, hcol, hink, by omega, hdy⟩
      · exact ⟨i + 1, r, col, ch', hi, hr, hcol, hink, by omega, hdy⟩
    · rintro ⟨i, r, col, ch', hi, hr, hcol, hink, hdx, hdy⟩
      cases i with
      | zero =>
        obtain rfl : ch = ch' := Option.some.inj hi
        exact .inl ⟨r, col, by omega, hcol, hink, by omega, hdy⟩
      | succ i => exact .inr ⟨i, r, col, ch', hi, hr, hcol, hink, by omega, hdy⟩

lemma nodup_cellStrokes :
    ((cellStrokes bg c bits dx dy n).map fun s => (s.dx, s.dy)).Nodup := by
  induction n with
  | zero => exact List.nodup_nil
  | succ n ih =>
    rw [cellStrokes, List.map_append, List.nodup_append]
    refine ⟨?_, ih, ?_⟩
    · cases ink bg c (bits.toNat.testBit (7 - n)) with
      | none => exact List.nodup_nil
      | some color => exact List.nodup_singleton _
    · intro p hp q hq
      obtain ⟨s, hs, rfl⟩ := List.mem_map.mp hp
      obtain ⟨t, ht, rfl⟩ := List.mem_map.mp hq
      obtain ⟨color, -, rfl⟩ := List.mem_map.mp hs
      obtain ⟨col, hcol, -, hdx, -⟩ := mem_cellStrokes.mp ht
      rw [Ne, Prod.mk.injEq, hdx]
      dsimp only
      omega

lemma nodup_charStrokes :
    ((charStrokes font H bg c ch dx n row).map fun s => (s.dx, s.dy)).Nodup := by
  induction n generalizing row with
  | zero => exact List.nodup_nil
  | succ n ih =>
    rw [charStrokes, List.map_append, List.nodup_append]
    refine ⟨nodup_cellStrokes, ih, ?_⟩
    intro p hp q hq
    obtain ⟨s, hs, rfl⟩ := List.mem_map.mp hp
    obtain ⟨t, ht, rfl⟩ := List.mem_map.mp hq
    obtain ⟨col, -, -, -, hrow⟩ := mem_cellStrokes.mp hs
    obtain ⟨r, col', hr, -, -, -, hrow'⟩ := mem_charStrokes.mp ht
    rw [Ne, Prod.mk.injEq, hrow, hrow']
    omega

lemma nodup_textStrokes :
    ((textStrokes font H bg c str dx).map fun s => (s.dx, s.dy)).Nodup := by
  induction str generalizing dx with
  | nil => exact List.nodup_nil
  | cons ch str ih =>
    rw [textStrokes, List.map_append, List.nodup_append]
    refine ⟨nodup_charStrokes, ih, ?_⟩
    intro p hp q hq
    obtain ⟨s, hs, rfl⟩ := List.mem_map.mp hp
    obtain ⟨t, ht, rfl⟩ := List.mem_map.mp hq
    obtain ⟨r, col, -, hcol, -, hdx, -⟩ := mem_charStrokes.mp hs
    obtain ⟨i, r', col', ch', -, -, -, -, hdx', -⟩ := mem_textStrokes.mp ht
    rw [Ne, Prod.mk.injEq, hdx, hdx']
    omega

/-- A store on the screen. -/
lemma storeIn_stroke (hfits : m.Fits a width height) (hx : s.dx < width) (hy : s.dy < height) :
    storeIn m fb (m.strokeOffset a s) s.color = some (plot (m.stores a [s]) fb) := by
  obtain ⟨hnat, hle, hsize⟩ := m.toNat_strokeOffset hfits hx hy
  rw [storeIn, if_pos (by omega)]
  rfl

lemma Mode.stores_append (m : Mode) (a : Point) (l l' : List Stroke) (fb : FrameBuffer) :
    plot (m.stores a (l ++ l')) fb = plot (m.stores a l') (plot (m.stores a l) fb) := by
  rw [Mode.stores, List.map_append, plot_append]
  rfl

/-- The bit under the cursor. -/
lemma cursor_and {k : Nat} (hk : k < 8) (bits : UInt8) :
    UInt8.ofNat (2 ^ k) &&& bits ≠ 0 ↔ bits.toNat.testBit k = true := by
  have hlt : 2 ^ k < 2 ^ 8 := Nat.pow_lt_pow_right (by decide) hk
  rw [Ne, ← UInt8.toNat_inj, UInt8.toNat_and, UInt8.toNat_ofNat', Nat.mod_eq_of_lt hlt,
    Nat.and_comm, Nat.and_two_pow]
  have hpos : 0 < 2 ^ k := Nat.two_pow_pos k
  cases bits.toNat.testBit k with
  | false | true => simp

lemma cursor_double {k : Nat} :
    UInt8.ofNat (2 ^ k) + UInt8.ofNat (2 ^ k) = UInt8.ofNat (2 ^ (k + 1)) := by
  rw [← UInt8.ofNat_add, Nat.pow_succ, Nat.mul_two]

lemma cursor_ne_zero {k : Nat} (hk : k < 8) : UInt8.ofNat (2 ^ k) ≠ 0 := by
  have hlt : 2 ^ k < 2 ^ 8 := Nat.pow_lt_pow_right (by decide) hk
  have hpos : 0 < 2 ^ k := Nat.two_pow_pos k
  rw [Ne, ← UInt8.toNat_inj, UInt8.toNat_ofNat', Nat.mod_eq_of_lt hlt]
  exact Nat.ne_of_gt hpos

/-- The loop over the bits of a row, when the first bits are left. -/
lemma cellBits_eq (hfits : m.Fits a width height) (hx : dx + 8 ≤ width) (hy : dy < height)
    (hn : n ≤ 8) :
    cellBits m bg c bits (m.offset a + UInt32.ofNat dx + UInt32.ofNat dy * m.width) (n + 1)
        (UInt8.ofNat (2 ^ (8 - n))) (UInt32.ofNat n) fb =
      some (plot (m.stores a (cellStrokes bg c bits dx dy n)) fb) := by
  induction n generalizing fb with
  | zero =>
    rw [cellBits, if_pos (by decide)]
    rfl
  | succ n ih =>
    have hcursor : 8 - (n + 1) = 7 - n := by omega
    have hnext : 8 - n = 7 - n + 1 := by omega
    have hloop : UInt32.ofNat (n + 1) - 1 = UInt32.ofNat n := by
      rw [UInt32.ofNat_add]
      grind
    have hstep : ∀ color,
        storeIn m fb (m.offset a + UInt32.ofNat dx + UInt32.ofNat dy * m.width +
          UInt32.ofNat n) color =
        some (plot (m.stores a [⟨dx + n, dy, color⟩]) fb) := by
      intro color
      have hplace : m.offset a + UInt32.ofNat dx + UInt32.ofNat dy * m.width + UInt32.ofNat n =
          m.strokeOffset a ⟨dx + n, dy, color⟩ := by
        simp only [Mode.strokeOffset, UInt32.ofNat_add]
        grind
      rw [hplace]
      exact storeIn_stroke (s := ⟨dx + n, dy, color⟩) hfits (by dsimp only; omega) hy
    rw [cellBits, hcursor, if_neg (cursor_ne_zero (by omega)), hloop, cursor_double, ← hnext,
      cellStrokes, m.stores_append]
    dsimp only
    by_cases hbit : bits.toNat.testBit (7 - n) = true
    · rw [if_pos ((cursor_and (by omega) bits).mpr hbit), hstep, Option.bind_some,
        ih (by omega), hbit]
      rfl
    · rw [if_neg ((cursor_and (by omega) bits).not.mpr hbit), Bool.eq_false_of_not_eq_true hbit]
      cases bg with
      | none =>
        rw [Option.bind_some, ih (by omega)]
        rfl
      | some bg =>
        dsimp only
        rw [hstep, Option.bind_some, ih (by omega)]
        rfl

/-- The rows of a character that is in the font. -/
lemma cellRows_eq (hfont : font.length = 256 * H.toNat) (hsmall : H.toNat < 2 ^ 16)
    (hch : ch < 0x80) (hfits : m.Fits a width height) (hx : dx + 8 ≤ width)
    (hy : H.toNat ≤ height) (hrow : row + n ≤ H.toNat) :
    cellRows m font bg c (UInt32.ofInt (Libc.ofChar ch) * H) n (UInt32.ofNat row)
        (m.offset a + UInt32.ofNat dx + UInt32.ofNat row * m.width) fb =
      some (plot (m.stores a (charStrokes font H bg c ch dx n row)) fb) := by
  induction n generalizing row fb with
  | zero => rfl
  | succ n ih =>
    have hnat : ch.toNat < 128 := UInt8.lt_iff_toNat_lt.mp hch
    have hmul : ch.toNat * H.toNat ≤ 127 * H.toNat := Nat.mul_le_mul_right _ (by omega)
    have hindex : (UInt32.ofInt (Libc.ofChar ch) * H + UInt32.ofNat row).toNat =
        ch.toNat * H.toNat + row := by
      have hchar : (UInt32.ofInt (Libc.ofChar ch)).toNat = ch.toNat := by
        rw [Libc.ofChar, if_pos hch, ofInt_natCast, UInt32.toNat_ofNat',
          Nat.mod_eq_of_lt (by omega)]
      rw [UInt32.toNat_add, UInt32.toNat_mul, hchar, UInt32.toNat_ofNat']
      omega
    have hbits : font[ch.toNat * H.toNat + row]? = some (glyph font H ch row) := by
      rw [glyph, List.getD_eq_getElem?_getD, List.getElem?_eq_getElem (by omega),
        Option.getD_some]
    have hcell : cellBits m bg c (glyph font H ch row)
        (m.offset a + UInt32.ofNat dx + UInt32.ofNat row * m.width) 9 1 W fb = _ :=
      cellBits_eq hfits hx (show row < height by omega) (Nat.le_refl 8)
    have hnext : m.offset a + UInt32.ofNat dx + UInt32.ofNat row * m.width + m.width =
        m.offset a + UInt32.ofNat dx + UInt32.ofNat (row + 1) * m.width := by
      rw [UInt32.ofNat_add]
      grind
    rw [cellRows, hindex, hbits, Option.bind_some, hcell, Option.bind_some, hnext,
      charStrokes, m.stores_append]
    exact (congrArg (cellRows m font bg c _ n · _ _)
      (UInt32.ofNat_add row 1).symm).trans (ih (by omega))

/-- From the first row on, for a character that is not in the font. -/
lemma cellRows_none (hfont : font.length = 256 * H.toNat) (hsmall : H.toNat < 2 ^ 16)
    (hpos : H ≠ 0) (hch : ¬ ch < 0x80) (p : UInt32) :
    cellRows m font bg c (UInt32.ofInt (Libc.ofChar ch) * H) H.toNat 0 p fb = none := by
  have hlt := ch.toNat_lt
  have hnat : 128 ≤ ch.toNat := Nat.le_of_not_lt fun h => hch (UInt8.lt_iff_toNat_lt.mpr h)
  have hrows : 0 < H.toNat := Nat.pos_of_ne_zero fun h => hpos (UInt32.toNat_inj.mp h)
  have hback : UInt32.ofInt (Libc.ofChar ch) * H + UInt32.ofNat ((256 - ch.toNat) * H.toNat) =
      0 := by
    have hneg : UInt32.ofInt (Libc.ofChar ch) + UInt32.ofNat (256 - ch.toNat) = 0 := by
      rw [Libc.ofChar, if_neg hch, ← ofInt_natCast, ← UInt32.ofInt_add,
        show ((ch.toNat : Int) - 256 + (256 - ch.toNat : Nat)) = 0 by omega]
      rfl
    rw [UInt32.ofNat_mul, UInt32.ofNat_toNat, ← UInt32.add_mul, hneg, UInt32.zero_mul]
  have hmul : (256 - ch.toNat) * H.toNat ≤ 128 * H.toNat := Nat.mul_le_mul_right _ (by omega)
  have hmulpos : 0 < (256 - ch.toNat) * H.toNat := Nat.mul_pos (by omega) hrows
  have hout : font.length ≤ (UInt32.ofInt (Libc.ofChar ch) * H + 0).toNat := by
    have hsum := congrArg UInt32.toNat hback
    rw [UInt32.toNat_add, UInt32.toNat_ofNat', UInt32.toNat_zero] at hsum
    rw [UInt32.add_zero, hfont]
    have hptr := (UInt32.ofInt (Libc.ofChar ch) * H).toNat_lt
    omega
  obtain ⟨n, hn⟩ : ∃ n, H.toNat = n + 1 := ⟨H.toNat - 1, by omega⟩
  rw [hn, cellRows, List.getElem?_eq_none hout]
  rfl

/-- The corner of a character. -/
lemma Mode.offset_right (m : Mode) (a : Point) (dx : Nat) :
    computeOffset m (UInt32.ofInt (a.x + dx)) (UInt32.ofInt a.y) =
      m.offset a + UInt32.ofNat dx := by
  have hadd := m.offset_add a.x a.y dx 0
  have hzero : UInt32.ofInt 0 * m.line = 0 := UInt32.zero_mul
  rw [Int.add_zero, hzero, UInt32.add_zero, ofInt_natCast] at hadd
  exact hadd

/-- The text, if all its characters are in the font. -/
lemma writeChars_eq (hfont : font.length = 256 * H.toNat) (hsmall : H.toNat < 2 ^ 16)
    (hstr : 0 ∉ str) (hascii : H = 0 ∨ ∀ ch ∈ str, ch < 0x80) (hfits : m.Fits a width height)
    (hx : dx + 8 * str.length ≤ width) (hy : H.toNat ≤ height) :
    writeChars m font H bg c (str ++ [0]) (UInt32.ofInt (a.x + dx)) (UInt32.ofInt a.y) fb =
      some (plot (m.stores a (textStrokes font H bg c str dx)) fb) := by
  induction str generalizing dx fb with
  | nil => rfl
  | cons ch str ih =>
    rw [List.mem_cons, not_or] at hstr
    rw [List.length_cons] at hx
    have hrows : cellRows m font bg c (UInt32.ofInt (Libc.ofChar ch) * H) H.toNat 0
        (m.offset a + UInt32.ofNat dx) fb =
        some (plot (m.stores a (charStrokes font H bg c ch dx H.toNat 0)) fb) := by
      rcases hascii with rfl | hascii
      · rfl
      · have hrow : cellRows m font bg c (UInt32.ofInt (Libc.ofChar ch) * H) H.toNat
            (UInt32.ofNat 0) (m.offset a + UInt32.ofNat dx + UInt32.ofNat 0 * m.width) fb = _ :=
          cellRows_eq hfont hsmall (hascii ch (.head _)) hfits
            (show dx + 8 ≤ width by omega) hy (Nat.zero_add _).le
        have hzero : UInt32.ofNat 0 * m.width = 0 := UInt32.zero_mul
        rw [hzero, UInt32.add_zero] at hrow
        exact hrow
    have hnext : UInt32.ofInt (a.x + dx) + W = UInt32.ofInt (a.x + (dx + 8 : Nat)) := by
      rw [Int.natCast_add, ← Int.add_assoc, UInt32.ofInt_add (a.x + dx)]
      rfl
    rw [List.cons_append, writeChars, if_neg (Ne.symm hstr.1)]
    dsimp only
    rw [m.offset_right, hrows, Option.bind_some, hnext, textStrokes, m.stores_append]
    exact ih hstr.2 (hascii.imp_right fun h ch hch => h ch (.tail _ hch))
      (by omega)

/-- A character that is not in the font is read outside of it. -/
lemma writeChars_none (hfont : font.length = 256 * H.toNat) (hsmall : H.toNat < 2 ^ 16)
    (hpos : H ≠ 0) (hstr : 0 ∉ str) (hch : ch ∈ str) (hhigh : ¬ ch < 0x80) (x y : UInt32) :
    writeChars m font H bg c (str ++ [0]) x y fb = none := by
  induction str generalizing x fb with
  | nil => cases hch
  | cons ch' str ih =>
    rw [List.mem_cons, not_or] at hstr
    rw [List.cons_append, writeChars, if_neg (Ne.symm hstr.1), Option.bind_eq_none_iff]
    intro fb' hfb'
    rcases List.mem_cons.mp hch with rfl | hch
    · rw [cellRows_none hfont hsmall hpos hhigh] at hfb'
      cases hfb'
    · exact ih hstr.2 hch _

end Text

/-! ## The sprite as strokes -/

/-- The strokes of some pixels of a row, from a column on. -/
def rowStrokes (set : Nat → Bool) (color : UInt32) (dy : Nat) : Nat → Nat → List Stroke
  | 0, _ => []
  | n + 1, col =>
    (if set col then [⟨col, dy, color⟩] else []) ++ rowStrokes set color dy n (col + 1)

/-- The strokes of some rows of a sprite. -/
def spriteStrokes (sprite : List UInt8) (color W : UInt32) : Nat → Nat → List Stroke
  | 0, _ => []
  | n + 1, row =>
    rowStrokes (spriteSet sprite W row) color row W.toNat 0 ++
      spriteStrokes sprite color W n (row + 1)

section Sprite

variable {set : Nat → Bool} {color W H : UInt32} {dy n k col row loop : Nat} {sprite : List UInt8}
  {bits : UInt8}

lemma mem_rowStrokes : s ∈ rowStrokes set color dy n col ↔
    (col ≤ s.dx ∧ s.dx < col + n) ∧ set s.dx = true ∧ s.dy = dy ∧ s.color = color := by
  induction n generalizing col with
  | zero => exact iff_of_false List.not_mem_nil fun h => by omega
  | succ n ih =>
    rw [rowStrokes, List.mem_append, ih]
    constructor
    · rintro (h | ⟨hcol, h⟩)
      · by_cases hset : set col = true
        · rw [if_pos hset, List.mem_singleton] at h
          subst h
          exact ⟨by dsimp only; omega, hset, rfl, rfl⟩
        · rw [if_neg hset] at h
          cases h
      · exact ⟨by omega, h⟩
    · rintro ⟨hcol, hset, hdy, hcolor⟩
      rcases Nat.eq_or_lt_of_le hcol.1 with heq | hlt
      · refine .inl ?_
        rw [heq, if_pos hset, List.mem_singleton, ← hdy, ← hcolor]
      · exact .inr ⟨by omega, hset, hdy, hcolor⟩

lemma mem_spriteStrokes : s ∈ spriteStrokes sprite color W n row ↔
    (row ≤ s.dy ∧ s.dy < row + n) ∧ s.dx < W.toNat ∧ spriteSet sprite W s.dy s.dx = true ∧
      s.color = color := by
  induction n generalizing row with
  | zero => exact iff_of_false List.not_mem_nil fun h => by omega
  | succ n ih =>
    rw [spriteStrokes, List.mem_append, mem_rowStrokes, ih]
    constructor
    · rintro (⟨hcol, hset, hdy, hcolor⟩ | ⟨hrow, h⟩)
      · exact ⟨by omega, by omega, by rw [hdy]; exact hset, hcolor⟩
      · exact ⟨by omega, h⟩
    · rintro ⟨hrow, hcol, hset, hcolor⟩
      rcases Nat.eq_or_lt_of_le hrow.1 with heq | hlt
      · exact .inl ⟨by omega, by rw [heq]; exact hset, heq.symm, hcolor⟩
      · exact .inr ⟨by omega, hcol, hset, hcolor⟩

lemma nodup_rowStrokes :
    ((rowStrokes set color dy n col).map fun s => (s.dx, s.dy)).Nodup := by
  induction n generalizing col with
  | zero => exact List.nodup_nil
  | succ n ih =>
    rw [rowStrokes]
    by_cases hset : set col = true
    · rw [if_pos hset, List.singleton_append, List.map_cons, List.nodup_cons]
      refine ⟨fun hmem => ?_, ih⟩
      obtain ⟨t, ht, heq⟩ := List.mem_map.mp hmem
      have hcol := (mem_rowStrokes.mp ht).1
      have hdx : t.dx = col := congrArg Prod.fst heq
      omega
    · rw [if_neg hset]
      exact ih

lemma nodup_spriteStrokes :
    ((spriteStrokes sprite color W n row).map fun s => (s.dx, s.dy)).Nodup := by
  induction n generalizing row with
  | zero => exact List.nodup_nil
  | succ n ih =>
    rw [spriteStrokes, List.map_append, List.nodup_append]
    refine ⟨nodup_rowStrokes, ih, ?_⟩
    intro p hp q hq
    obtain ⟨s, hs, rfl⟩ := List.mem_map.mp hp
    obtain ⟨t, ht, rfl⟩ := List.mem_map.mp hq
    have hrow := (mem_rowStrokes.mp hs).2.2.1
    have hrow' := (mem_spriteStrokes.mp ht).1
    rw [Ne, Prod.mk.injEq]
    omega

/-- A row can be drawn in parts. -/
lemma rowStrokes_add : rowStrokes set color dy (n + k) col =
    rowStrokes set color dy n col ++ rowStrokes set color dy k (col + n) := by
  induction n generalizing col with
  | zero => rw [Nat.zero_add, Nat.add_zero, rowStrokes, List.nil_append]
  | succ n ih =>
    rw [Nat.succ_add, rowStrokes, rowStrokes, ih, List.append_assoc, Nat.add_assoc col,
      Nat.add_comm 1 n]

/-- The loop over some bits of a row, from the bit under the cursor on. -/
lemma spriteBits_eq (hfits : m.Fits a width height) (hx : col + n ≤ width) (hy : dy < height)
    (hk : k + n ≤ 8) (hset : ∀ j < n, set (col + j) = bits.toNat.testBit (k + j)) :
    spriteBits m color bits n (UInt8.ofNat (2 ^ k))
        (m.offset a + UInt32.ofNat col + UInt32.ofNat dy * m.width) fb =
      some (m.offset a + UInt32.ofNat (col + n) + UInt32.ofNat dy * m.width,
        plot (m.stores a (rowStrokes set color dy n col)) fb) := by
  induction n generalizing col k fb with
  | zero => rfl
  | succ n ih =>
    have hnext : m.offset a + UInt32.ofNat col + UInt32.ofNat dy * m.width + 1 =
        m.offset a + UInt32.ofNat (col + 1) + UInt32.ofNat dy * m.width := by
      rw [UInt32.ofNat_add]
      grind
    have hbits : ∀ j < n, set (col + 1 + j) = bits.toNat.testBit (k + 1 + j) := by
      intro j hj
      have h := hset (j + 1) (by omega)
      rwa [Nat.add_comm j 1, ← Nat.add_assoc, ← Nat.add_assoc] at h
    have hbit : set col = bits.toNat.testBit k := hset 0 (Nat.succ_pos n)
    have hround : spriteBit m color bits (UInt8.ofNat (2 ^ k))
        (m.offset a + UInt32.ofNat col + UInt32.ofNat dy * m.width) fb =
        some (UInt8.ofNat (2 ^ (k + 1)),
          m.offset a + UInt32.ofNat (col + 1) + UInt32.ofNat dy * m.width,
          plot (m.stores a (if set col then [⟨col, dy, color⟩] else [])) fb) := by
      rw [spriteBit, cursor_double, hnext]
      by_cases h : bits.toNat.testBit k = true
      · rw [if_pos ((cursor_and (by omega) bits).mpr h), if_pos (hbit.trans h)]
        exact congrArg (Option.map _)
          (storeIn_stroke (s := ⟨col, dy, color⟩) hfits (show col < width by omega) hy)
      · rw [if_neg ((cursor_and (by omega) bits).not.mpr h), if_neg (by rw [hbit]; exact h)]
        rfl
    rw [spriteBits, hround, Option.bind_some, ih (by omega) (by omega) hbits, rowStrokes,
      m.stores_append, Nat.add_assoc col, Nat.add_comm 1 n]

/-- A whole byte is its eight bits. -/
lemma spriteByte_eq (hk : k + n = 8) (p : UInt32) :
    spriteByte m color bits (n + 1) (UInt8.ofNat (2 ^ k)) p fb =
      spriteBits m color bits n (UInt8.ofNat (2 ^ k)) p fb := by
  induction n generalizing k p fb with
  | zero =>
    obtain rfl : k = 8 := hk
    rw [spriteByte, if_pos (by decide)]
    rfl
  | succ n ih =>
    rw [spriteByte, if_neg (cursor_ne_zero (by omega)), spriteBits]
    refine Option.bind_congr fun s hs => ?_
    obtain ⟨fb', -, rfl⟩ := Option.map_eq_some_iff.mp hs
    rw [cursor_double]
    exact ih (by omega) _

/-- A row of a sprite, from a whole byte on. -/
lemma spriteRow_eq (hfits : m.Fits a width height) (hx : W.toNat ≤ width) (hy : row < height)
    (hroom : (row + 1) * ((W.toNat + 7) / 8) ≤ sprite.length) (hcol : 8 * k + n = W.toNat)
    (hloop : loop = row * ((W.toNat + 7) / 8) + k) :
    spriteRow m sprite color n loop
        (m.offset a + UInt32.ofNat (8 * k) + UInt32.ofNat row * m.width) fb =
      some (loop + (n + 7) / 8,
        m.offset a + UInt32.ofNat (8 * k + n) + UInt32.ofNat row * m.width,
        plot (m.stores a (rowStrokes (spriteSet sprite W row) color row n (8 * k))) fb) := by
  induction n using Nat.strongRecOn generalizing k loop fb with
  | ind n ih =>
    rw [Nat.add_mul, Nat.one_mul] at hroom
    have hbyte : 0 < n → sprite[loop]? = some (sprite.getD loop 0) := by
      intro hpos
      rw [List.getD_eq_getElem?_getD, List.getElem?_eq_getElem (by omega), Option.getD_some]
    have hset : ∀ j < 8, spriteSet sprite W row (8 * k + j) =
        (sprite.getD loop 0).toNat.testBit (0 + j) := by
      intro j hj
      rw [spriteSet, hloop, show (8 * k + j) / 8 = k by omega,
        show (8 * k + j) % 8 = 0 + j by omega]
    rw [spriteRow]
    by_cases hlong : n > 8
    · have hnine : spriteByte m color (sprite.getD loop 0) 9 1
          (m.offset a + UInt32.ofNat (8 * k) + UInt32.ofNat row * m.width) fb = _ :=
        (spriteByte_eq (show 0 + 8 = 8 from rfl) _).trans
          (spriteBits_eq hfits (show 8 * k + 8 ≤ width by omega) hy (Nat.le_refl (0 + 8)) hset)
      have hrest := @ih (n - 8) (by omega)
        (plot (m.stores a (rowStrokes (spriteSet sprite W row) color row 8 (8 * k))) fb) _ _
        (show 8 * (k + 1) + (n - 8) = W.toNat by omega)
        (show loop + 1 = row * ((W.toNat + 7) / 8) + (k + 1) by omega)
      have hcols : 8 * (k + 1) = 8 * k + 8 := by omega
      have hsplit : rowStrokes (spriteSet sprite W row) color row n (8 * k) =
          rowStrokes (spriteSet sprite W row) color row 8 (8 * k) ++
            rowStrokes (spriteSet sprite W row) color row (n - 8) (8 * k + 8) := by
        rw [← rowStrokes_add, show 8 + (n - 8) = n by omega]
      rw [if_pos hlong, hbyte (by omega), Option.bind_some, hnine, Option.bind_some, ← hcols,
        hrest, hsplit, m.stores_append, hcols]
      rw [show loop + 1 + (n - 8 + 7) / 8 = loop + (n + 7) / 8 by omega,
        show 8 * k + 8 + (n - 8) = 8 * k + n by omega]
    · rw [if_neg hlong]
      by_cases hzero : n = 0
      · subst hzero
        rfl
      · have hbits : spriteBits m color (sprite.getD loop 0) n 1
            (m.offset a + UInt32.ofNat (8 * k) + UInt32.ofNat row * m.width) fb = _ :=
          spriteBits_eq hfits (show 8 * k + n ≤ width by omega) hy (show 0 + n ≤ 8 by omega)
            fun j hj => hset j (by omega)
        rw [if_pos hzero, hbyte (by omega), Option.bind_some, hbits, Option.map_some,
          show (n + 7) / 8 = 1 by omega]

/-- The rows of a sprite. -/
lemma spriteRows_eq (hfits : m.Fits a width height) (hx : W.toNat ≤ width)
    (hy : row + n ≤ height) (hroom : (row + n) * ((W.toNat + 7) / 8) ≤ sprite.length) :
    spriteRows m sprite color W n (row * ((W.toNat + 7) / 8))
        (m.offset a + UInt32.ofNat row * m.width) fb =
      some (plot (m.stores a (spriteStrokes sprite color W n row)) fb) := by
  induction n generalizing row fb with
  | zero => rfl
  | succ n ih =>
    have hone : (row + 1) * ((W.toNat + 7) / 8) ≤ sprite.length :=
      (Nat.mul_le_mul_right _ (by omega)).trans hroom
    have hrow : spriteRow m sprite color W.toNat (row * ((W.toNat + 7) / 8))
        (m.offset a + UInt32.ofNat (8 * 0) + UInt32.ofNat row * m.width) fb = _ :=
      spriteRow_eq hfits hx (show row < height by omega) hone (Nat.zero_add _) rfl
    have hstart : m.offset a + UInt32.ofNat (8 * 0) + UInt32.ofNat row * m.width =
        m.offset a + UInt32.ofNat row * m.width := by
      rw [show UInt32.ofNat (8 * 0) = 0 from rfl, UInt32.add_zero]
    rw [hstart, Nat.mul_zero, Nat.zero_add, Nat.add_zero] at hrow
    have hnext : m.offset a + UInt32.ofNat W.toNat + UInt32.ofNat row * m.width +
        (m.width - W) = m.offset a + UInt32.ofNat (row + 1) * m.width := by
      rw [UInt32.ofNat_toNat, UInt32.ofNat_add]
      grind
    have hbytes : row * ((W.toNat + 7) / 8) + (W.toNat + 7) / 8 =
        (row + 1) * ((W.toNat + 7) / 8) := by
      rw [Nat.add_mul, Nat.one_mul]
    rw [spriteRows, hrow, Option.bind_some, hnext, hbytes, spriteStrokes, m.stores_append]
    exact ih (by omega) (by rwa [Nat.add_assoc, Nat.add_comm 1 n])

/-- A sprite is its strokes. -/
lemma drawSprite_eq (hfits : m.Fits a W.toNat H.toNat)
    (hroom : H.toNat * ((W.toNat + 7) / 8) ≤ sprite.length) :
    drawSprite m a sprite W H color fb =
      some (plot (m.stores a (spriteStrokes sprite color W H.toNat 0)) fb) := by
  rw [drawSprite]
  by_cases hempty : W = 0 ∨ H = 0
  · rw [if_pos hempty]
    have hnone : spriteStrokes sprite color W H.toNat 0 = [] := by
      refine List.eq_nil_iff_forall_not_mem.mpr fun s hs => ?_
      obtain ⟨hrow, hcol, -⟩ := mem_spriteStrokes.mp hs
      rcases hempty with rfl | rfl
      · exact absurd hcol (Nat.not_lt_zero _)
      · exact absurd hrow.2 (Nat.not_lt_zero _)
    rw [hnone]
    rfl
  · rw [if_neg hempty]
    have hrows : spriteRows m sprite color W H.toNat (0 * ((W.toNat + 7) / 8))
        (m.offset a + UInt32.ofNat 0 * m.width) fb = _ :=
      spriteRows_eq hfits le_rfl (Nat.zero_add _).le (by rwa [Nat.zero_add])
    have hzero : UInt32.ofNat 0 * m.width = 0 := UInt32.zero_mul
    rw [Nat.zero_mul, hzero, UInt32.add_zero] at hrows
    exact hrows

end Sprite

/-! ## When they are where they should be -/

section Landing

variable {font : List UInt8} {H : UInt32} {bg c : UInt32} {str : List UInt8} {b : Point}
  {sprite : List UInt8} {w h color : UInt32}

lemma textPicture_iff {bg : Option UInt32} (p : Point) (k : UInt32) :
    textPicture font H a bg c str p k ↔
      ∃ s ∈ textStrokes font H bg c str 0, s.pixel a = p ∧ s.color = k := by
  constructor
  · rintro ⟨i, row, col, ch, hi, hrow, hcol, rfl, hink⟩
    refine ⟨⟨8 * i + col, row, k⟩, ?_, rfl, rfl⟩
    exact mem_textStrokes.mpr
      ⟨i, row, col, ch, hi, hrow, hcol, hink, by dsimp only; omega, rfl⟩
  · rintro ⟨s, hs, rfl, rfl⟩
    obtain ⟨i, row, col, ch, hi, hrow, hcol, hink, hdx, hdy⟩ := mem_textStrokes.mp hs
    refine ⟨i, row, col, ch, hi, hrow, hcol, ?_, hink⟩
    rw [Stroke.pixel, hdx, hdy, Nat.zero_add]

lemma spritePicture_iff (p : Point) (k : UInt32) :
    spritePicture b sprite w h color p k ↔
      ∃ s ∈ spriteStrokes sprite color w h.toNat 0, s.pixel b = p ∧ s.color = k := by
  constructor
  · rintro ⟨row, col, hrow, hcol, rfl, hset, rfl⟩
    refine ⟨⟨col, row, k⟩, ?_, rfl, rfl⟩
    exact mem_spriteStrokes.mpr ⟨by dsimp only; omega, hcol, hset, rfl⟩
  · rintro ⟨s, hs, rfl, rfl⟩
    obtain ⟨hrow, hcol, hset, hcolor⟩ := mem_spriteStrokes.mp hs
    exact ⟨s.dy, s.dx, by omega, hcol, rfl, hset, hcolor⟩

section

variable (hfont : font.length = 256 * H.toNat)
include hfont

/-- When the loop over the characters writes the text. -/
lemma writeChars_shows_iff {bg : Option UInt32}
    (hstr : 0 ∉ str) (hfits : m.Fits a (8 * str.length) H.toNat) :
    Shows m (textPicture font H a bg c str)
        (writeChars m font H bg c (str ++ [0]) (UInt32.ofInt a.x) (UInt32.ofInt a.y)) ↔
      (H = 0 ∨ ∀ ch ∈ str, ch < 0x80) ∧
        (m.xResolution = m.linBytesPerScanLine ∨
          ∀ s ∈ textStrokes font H bg c str 0, s.dy = 0) := by
  have hsmall : H.toNat < 2 ^ 16 := by
    obtain ⟨-, -, hy, hlast⟩ := hfits
    have hlt := m.yResolution.toNat_lt
    omega
  by_cases hascii : H = 0 ∨ ∀ ch ∈ str, ch < 0x80
  · rw [and_iff_right hascii]
    refine shows_iff hfits (fun s hs => ?_) nodup_textStrokes (fun fb => ?_) textPicture_iff
    · obtain ⟨i, row, col, ch, hi, hrow, hcol, -, hdx, hdy⟩ := mem_textStrokes.mp hs
      obtain ⟨hi, -⟩ := List.getElem?_eq_some_iff.mp hi
      omega
    · have hchars : writeChars m font H bg c (str ++ [0]) (UInt32.ofInt (a.x + (0 : Nat)))
          (UInt32.ofInt a.y) fb = _ :=
        writeChars_eq hfont hsmall hstr hascii hfits (Nat.zero_add _).le le_rfl
      rwa [Int.natCast_zero, Int.add_zero] at hchars
  · refine iff_of_false (fun hshows => ?_) fun h => hascii h.1
    rw [not_or, not_forall] at hascii
    obtain ⟨hpos, ch, hch⟩ := hascii
    rw [Classical.not_imp] at hch
    obtain ⟨fb', hfb', -⟩ := hshows fun _ => 0
    rw [writeChars_none hfont hsmall hpos hstr hch.1 hch.2] at hfb'
    cases hfb'

/-- When `vesa_write_text` writes the text. -/
lemma text_iff (hstr : 0 ∉ str)
    (hfits : m.Fits a (8 * str.length) H.toNat) :
    Shows m (textPicture font H a none c str) (vesaWriteText m font H a c (str ++ [0])) ↔
      (H = 0 ∨ ∀ ch ∈ str, ch < 0x80) ∧
        (m.xResolution = m.linBytesPerScanLine ∨ ∀ ch ∈ str, ∀ row col, 0 < row →
          row < H.toNat → col < 8 → glyphBit font H ch row col = false) := by
  have hcode : vesaWriteText m font H a c (str ++ [0]) =
      writeChars m font H none c (str ++ [0]) (UInt32.ofInt a.x) (UInt32.ofInt a.y) := by
    funext fb
    cases str with
    | nil => rfl
    | cons ch str =>
      have hne : ¬ (ch :: str ++ [0]).head? = some 0 := fun h =>
        hstr (List.mem_cons.mpr (.inl (Option.some.inj h).symm))
      rw [vesaWriteText, if_neg hne]
  rw [hcode, writeChars_shows_iff hfont hstr hfits]
  refine and_congr_right fun _ => or_congr_right ?_
  constructor
  · intro hall ch hch row col hpos hrow hcol
    obtain ⟨i, hi, rfl⟩ := List.mem_iff_getElem.mp hch
    by_contra hset
    rw [Bool.not_eq_false] at hset
    refine hpos.ne' (hall ⟨8 * i + col, row, c⟩ (mem_textStrokes.mpr ?_))
    exact ⟨i, row, col, _, List.getElem?_eq_getElem hi, hrow, hcol, by rw [hset]; rfl,
      by dsimp only; omega, rfl⟩
  · intro hclear s hs
    obtain ⟨i, row, col, ch, hi, hrow, hcol, hink, -, hdy⟩ := mem_textStrokes.mp hs
    by_contra hpos
    rw [hclear ch (List.mem_of_getElem? hi) row col (by omega) hrow hcol] at hink
    cases hink

/-- When `vesa_write_bgtext` writes the text. -/
lemma bgtext_iff (hstr : 0 ∉ str)
    (hfits : m.Fits a (8 * str.length) H.toNat) :
    Shows m (textPicture font H a (some bg) c str)
        (vesaWriteBgtext m font H a bg c (str ++ [0])) ↔
      (H = 0 ∨ ∀ ch ∈ str, ch < 0x80) ∧
        (m.xResolution = m.linBytesPerScanLine ∨ H.toNat ≤ 1 ∨ str = []) := by
  have hcode : vesaWriteBgtext m font H a bg c (str ++ [0]) =
      writeChars m font H (some bg) c (str ++ [0]) (UInt32.ofInt a.x) (UInt32.ofInt a.y) := by
    funext fb
    cases str with
    | nil => rfl
    | cons ch str =>
      have hne : ¬ (ch :: str ++ [0]).head? = some 0 := fun h =>
        hstr (List.mem_cons.mpr (.inl (Option.some.inj h).symm))
      rw [vesaWriteBgtext, if_neg hne]
  rw [hcode, writeChars_shows_iff hfont hstr hfits]
  refine and_congr_right fun _ => or_congr_right ?_
  constructor
  · intro hall
    cases str with
    | nil => exact .inr rfl
    | cons ch str =>
      refine .inl (Nat.le_of_not_lt fun hrows => ?_)
      have hink : ink (some bg) c (glyphBit font H ch 1 0) =
          some (if glyphBit font H ch 1 0 then c else bg) := by
        rw [ink]
        split <;> rfl
      have hzero := hall ⟨0, 1, _⟩ (mem_textStrokes.mpr
        ⟨0, 1, 0, ch, rfl, hrows, by decide, hink, rfl, rfl⟩)
      cases hzero
  · rintro (hrows | rfl) s hs
    · obtain ⟨i, row, col, ch, -, hrow, -, -, -, hdy⟩ := mem_textStrokes.mp hs
      omega
    · cases hs

end

/-- When `draw_sprite` draws the sprite. -/
lemma sprite_iff (hroom : h.toNat * ((w.toNat + 7) / 8) ≤ sprite.length)
    (hfits : m.Fits b w.toNat h.toNat) :
    Shows m (spritePicture b sprite w h color) (drawSprite m b sprite w h color) ↔
      m.xResolution = m.linBytesPerScanLine ∨ ∀ row col, 0 < row → row < h.toNat →
        col < w.toNat → spriteSet sprite w row col = false := by
  rw [shows_iff hfits (fun s hs => ?_) nodup_spriteStrokes (fun fb => drawSprite_eq hfits hroom)
    spritePicture_iff]
  · refine or_congr_right ?_
    constructor
    · intro hall row col hpos hrow hcol
      by_contra hset
      rw [Bool.not_eq_false] at hset
      exact hpos.ne' (hall ⟨col, row, color⟩ (mem_spriteStrokes.mpr
        ⟨by dsimp only; omega, hcol, hset, rfl⟩))
    · intro hclear s hs
      obtain ⟨hrow, hcol, hset, -⟩ := mem_spriteStrokes.mp hs
      by_contra hpos
      rw [hclear s.dy s.dx (by omega) (by omega) hcol] at hset
      cases hset
  · obtain ⟨hrow, hcol, -⟩ := mem_spriteStrokes.mp hs
    omega

/-- Texts and sprites are where they should be. -/
structure Lands (m : Mode) (font : List UInt8) (H : UInt32) (a : Point) (bg c : UInt32)
    (str : List UInt8) (b : Point) (sprite : List UInt8) (w h color : UInt32) : Prop where
  text : Shows m (textPicture font H a none c str) (vesaWriteText m font H a c (str ++ [0]))
  bgtext : Shows m (textPicture font H a (some bg) c str)
    (vesaWriteBgtext m font H a bg c (str ++ [0]))
  sprite : Shows m (spritePicture b sprite w h color) (drawSprite m b sprite w h color)

/-- No character is taken as negative, and where lines have more bytes than pixels nothing is drawn
below the first row. -/
structure LandsWhen (m : Mode) (font : List UInt8) (H : UInt32) (str : List UInt8)
    (sprite : List UInt8) (w h : UInt32) : Prop where
  chars : H = 0 ∨ ∀ ch ∈ str, ch < 0x80
  text : m.xResolution = m.linBytesPerScanLine ∨ ∀ ch ∈ str, ∀ row col, 0 < row →
    row < H.toNat → col < 8 → glyphBit font H ch row col = false
  bgtext : m.xResolution = m.linBytesPerScanLine ∨ H.toNat ≤ 1 ∨ str = []
  sprite : m.xResolution = m.linBytesPerScanLine ∨ ∀ row col, 0 < row → row < h.toNat →
    col < w.toNat → spriteSet sprite w row col = false

/-- Texts and sprites that are on the screen are where they should be exactly if no character is
taken as negative and, where lines have more bytes than pixels, there is nothing below the first
row. -/
theorem lands_iff (m : Mode) (font : List UInt8) (H : UInt32) (a : Point) (bg c : UInt32)
    (str : List UInt8) (b : Point) (sprite : List UInt8) (w h color : UInt32)
    (hfont : font.length = 256 * H.toNat) (hstr : 0 ∉ str)
    (hroom : h.toNat * ((w.toNat + 7) / 8) ≤ sprite.length)
    (htext : m.Fits a (8 * str.length) H.toNat) (hsprite : m.Fits b w.toNat h.toNat) :
    Lands m font H a bg c str b sprite w h color ↔ LandsWhen m font H str sprite w h := by
  constructor
  · intro hlands
    have htextual := (text_iff hfont hstr htext).mp hlands.text
    exact ⟨htextual.1, htextual.2, ((bgtext_iff hfont hstr htext).mp hlands.bgtext).2,
      (sprite_iff hroom hsprite).mp hlands.sprite⟩
  · intro hwhen
    exact ⟨(text_iff hfont hstr htext).mpr ⟨hwhen.chars, hwhen.text⟩,
      (bgtext_iff hfont hstr htext).mpr ⟨hwhen.chars, hwhen.bgtext⟩,
      (sprite_iff hroom hsprite).mpr hwhen.sprite⟩

/-- A screen of 640 by 480 whose lines have no more bytes than pixels. -/
def plainMode : Mode := ⟨640, 640, 480, vga.wide⟩

/-- A screen of 800 by 600 with lines of 832 bytes. -/
def paddedMode : Mode := ⟨832, 800, 600, by decide⟩

/-- A font of 256 characters in two rows that are all set. -/
def blocks : List UInt8 := List.replicate 512 0xFF

theorem lands_plain :
    Lands plainMode blocks 2 ⟨0, 0⟩ 1 2 [0x41, 0x42] ⟨100, 100⟩ [0xFF, 0x01] 8 2 3 :=
  have hfont : blocks.length = 256 * (2 : UInt32).toNat := List.length_replicate
  (lands_iff plainMode blocks 2 ⟨0, 0⟩ 1 2 [0x41, 0x42] ⟨100, 100⟩ [0xFF, 0x01] 8 2 3
    hfont (by decide) (by decide) ⟨by decide, by decide, by decide, by decide⟩
    ⟨by decide, by decide, by decide, by decide⟩).mpr
    ⟨Or.inr (by simp), Or.inl rfl, Or.inl rfl, Or.inl rfl⟩

/-- A letter with two rows on the screen whose lines have more bytes than pixels, and a letter
that is no ASCII character on the other. -/
theorem lands_broken :
    ¬ Lands paddedMode blocks 2 ⟨0, 0⟩ 1 2 [0x41] ⟨100, 100⟩ [0xFF, 0x01] 8 2 3 ∧
      ¬ Lands plainMode blocks 2 ⟨0, 0⟩ 1 2 [0xE9] ⟨100, 100⟩ [0xFF, 0x01] 8 2 3 := by
  have hfont : blocks.length = 256 * (2 : UInt32).toNat := List.length_replicate
  constructor
  · intro hlands
    have hwhen := ((bgtext_iff hfont (by decide)
      ⟨by decide, by decide, by decide, by decide⟩).mp hlands.bgtext).2
    exact absurd hwhen (by decide)
  · intro hlands
    have hwhen := ((bgtext_iff hfont (by decide)
      ⟨by decide, by decide, by decide, by decide⟩).mp hlands.bgtext).1
    exact absurd hwhen (by simp)

end Landing

end DiegOS.Drivers.Vesa
