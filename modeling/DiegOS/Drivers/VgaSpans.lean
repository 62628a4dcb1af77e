import DiegOS.Drivers.Vesa
import DiegOS.Drivers.VgaPlanes

/-!
# Spans and rectangles in the planes

The spans of `vga.c` for write mode 2 and the rectangles that are made of them.  The pixels of
the screen are counted row by row, from the highest bit of a byte to its lowest; a span covers
pixels with consecutive numbers.

Main results:

- Theorem `horizPixelWm2_eq` and theorem `vertPixelWm2_eq`: the pixels that a span sets.
- Theorem `planar_drawing`: spans and rectangles on the screen set their pixels and keep all
  others.
-/

namespace DiegOS.Drivers.Vga

open Lib
open Vesa (Point row column block rectangle border mem_row mem_column mem_block mem_rectangle
  mem_border mem_border_of_le ofInt_natCast)

/-! ## The code -/

def computeOffset (x y : UInt32) : UInt32 := y * 80 + x / 8

/-- `(unsigned char) (value >> count)` -/
def shiftRight (value count : Nat) : UInt8 := UInt8.ofNat (value >>> count)

/-- `a.x % 8` -/
def bitOf (x : Int) : Nat := (x.tmod 8).toNat

/-- The loop over the whole bytes of a span, for at most so many rounds. -/
def fillBytes (offset1 c : UInt32) : Nat → UInt32 → Planes → Planes
  | 0, _, v => v
  | n + 1, offset0, v =>
    if offset0 < offset1 then fillBytes offset1 c n (offset0 + 1) (store offset0 c v) else v

/-- The starting and ending bytes of a span. -/
def spanEnds (a : Point) (len c offset0 offset1 : UInt32) (v : Planes) : Planes :=
  let valb := shiftRight 0xFF (bitOf a.x)
  let v := store offset0 c (load offset0 (outGcData valb (outGcIndex 8 v)))
  let valb1 := ~~~shiftRight 0x7F ((UInt32.ofInt a.x + len - 1) % 8).toNat
  store offset1 c (load offset1 (outGcData valb1 v))

def horizPixelWm2 (a : Point) (len c : UInt32) (v : Planes) : Planes :=
  if len = 0 then v
  else
    let offset0 := computeOffset (UInt32.ofInt a.x) (UInt32.ofInt a.y)
    let offset1 := computeOffset (UInt32.ofInt a.x + len - 1) (UInt32.ofInt a.y)
    let v := outGcData 0 (outGcIndex 3 v)
    if offset0 = offset1 then
      let valb := shiftRight (~~~shiftRight 0xFF len.toNat).toNat (bitOf a.x)
      store offset0 c (load offset0 (outGcData valb (outGcIndex 8 v)))
    else if offset1 - offset0 = 1 then spanEnds a len c offset0 offset1 v
    else
      let v := spanEnds a len c offset0 offset1 v
      let offset0 := offset0 + 1
      fillBytes offset1 c (offset1 - offset0).toNat offset0 (outGcData 0xFF v)

/-- The loop of `vert_pixel_wm2`, for at most so many rounds. -/
def fillColumn (offset1 c : UInt32) : Nat → UInt32 → Planes → Planes
  | 0, _, v => v
  | n + 1, loop, v =>
    if loop < offset1 then fillColumn offset1 c n (loop + 80) (store loop c (load loop v)) else v

def vertPixelWm2 (a : Point) (len c : UInt32) (v : Planes) : Planes :=
  if len = 0 then v
  else
    let offset0 := computeOffset (UInt32.ofInt a.x) (UInt32.ofInt a.y)
    let offset1 := offset0 + len * 80
    let valb := shiftRight 0x80 (bitOf a.x)
    let v := outGcData 0 (outGcIndex 3 v)
    fillColumn offset1 c len.toNat offset0 (outGcData valb (outGcIndex 8 v))

/-- The upper and lower part of a wide border, row by row: what the planes, `a.y` and
`d.y` are after it. -/
def borderRows (x : Int) (width color : UInt32) : Nat → Int → Int → Planes → Planes × Int × Int
  | 0, ay, dy, v => (v, ay, dy)
  | loop + 1, ay, dy, v =>
    borderRows x width color loop (ay + 1) (dy - 1)
      (horizPixelWm2 ⟨x, dy⟩ width color (horizPixelWm2 ⟨x, ay⟩ width color v))

/-- The left and right part of a wide border, row by row. -/
def borderSides (ax cx : Int) (wide color : UInt32) : Nat → Int → Int → Planes → Planes
  | 0, _, _, v => v
  | loop + 1, ay, cy, v =>
    borderSides ax cx wide color loop (ay + 1) (cy + 1)
      (horizPixelWm2 ⟨cx, cy⟩ wide color (horizPixelWm2 ⟨ax, ay⟩ wide color v))

def vgaRectWm2 (a b : Point) (wide color : UInt32) (v : Planes) : Planes :=
  let width := UInt32.ofInt (b.x - a.x + 1)
  if b.x - a.x < (2 * wide).toInt32.toInt then v
  else if b.y - a.y < (2 * wide).toInt32.toInt then v
  else if wide = 0 then v
  else
    let c : Point := ⟨b.x, a.y⟩
    let d : Point := ⟨a.x, b.y⟩
    if 1 = wide then
      let v := horizPixelWm2 a width color v
      let v := horizPixelWm2 d width color v
      let v := vertPixelWm2 a (UInt32.ofInt (b.y - a.y + 1)) color v
      vertPixelWm2 c (UInt32.ofInt (b.y - a.y + 1)) color v
    else
      let (v, ay, dy) := borderRows a.x width color wide.toNat a.y d.y v
      let loop := UInt32.ofInt (dy - ay + 1)
      let cx := (UInt32.ofInt c.x - (wide - 1)).toInt32.toInt
      let cy := (UInt32.ofInt c.y + wide).toInt32.toInt
      borderSides a.x cx wide color loop.toNat ay cy v

/-- The loop of `vga_fillrect_wm2`. -/
def fillRows (x bottom : Int) (width c : UInt32) (ay : Int) (v : Planes) : Planes :=
  if ay ≤ bottom then fillRows x bottom width c (ay + 1) (horizPixelWm2 ⟨x, ay⟩ width c v) else v
termination_by (bottom + 1 - ay).toNat

def vgaFillrectWm2 (a b : Point) (c : UInt32) (v : Planes) : Planes :=
  fillRows a.x b.y (UInt32.ofInt (b.x - a.x + 1)) c a.y v

/-! ## The pixels of the screen -/

/-- A point of the screen. -/
def OnScreen (p : Point) : Prop := 0 ≤ p.x ∧ p.x < 640 ∧ 0 ≤ p.y ∧ p.y < 480

/-- The byte and the bit of a pixel. -/
def cellOf (p : Point) : Cell :=
  (computeOffset (UInt32.ofInt p.x) (UInt32.ofInt p.y), ⟨7 - (p.x % 8).toNat, by omega⟩)

/-- The number of a pixel, from the highest bit of the first byte on. -/
def number (z : Cell) : Nat := 8 * z.1.toNat + (7 - z.2)

variable {a b p q : Point} {S T : Set Point} {v : Planes} {c len o o' offset1 : UInt32}
  {z z' : Cell}
  {n : Nat}

lemma number_inj (h : number z = number z') : z = z' := by
  have hz := z.2.isLt
  have hz' := z'.2.isLt
  simp only [number] at h
  refine Prod.ext (UInt32.toNat_inj.mp (by omega)) (Fin.ext (by omega))

lemma toNat_computeOffset (h : OnScreen p) :
    ((computeOffset (UInt32.ofInt p.x) (UInt32.ofInt p.y)).toNat : Int) = 80 * p.y + p.x / 8 := by
  obtain ⟨hx, hxlt, hy, hylt⟩ := h
  obtain ⟨x, hx⟩ := Int.eq_ofNat_of_zero_le hx
  obtain ⟨y, hy⟩ := Int.eq_ofNat_of_zero_le hy
  rw [hx] at hxlt ⊢
  rw [hy] at hylt ⊢
  rw [ofInt_natCast, ofInt_natCast, computeOffset, UInt32.toNat_add, UInt32.toNat_mul,
    UInt32.toNat_div, UInt32.toNat_ofNat', UInt32.toNat_ofNat']
  simp only [UInt32.reduceToNat]
  omega

lemma number_cellOf (h : OnScreen p) : (number (cellOf p) : Int) = 640 * p.y + p.x := by
  have hoffset := toNat_computeOffset h
  obtain ⟨hx, hxlt, hy, hylt⟩ := h
  simp only [number, cellOf]
  omega

/-- Different points of the screen are different pixels. -/
lemma cellOf_inj (hp : OnScreen p) (hq : OnScreen q) (h : cellOf p = cellOf q) : p = q := by
  have hpn := number_cellOf hp
  have hqn := number_cellOf hq
  rw [h] at hpn
  obtain ⟨hpx, hpx', -, -⟩ := hp
  obtain ⟨hqx, hqx', -, -⟩ := hq
  ext <;> omega

/-- The pixels of some points of the screen, by their numbers. -/
lemma mem_cellOf (hS : ∀ p ∈ S, OnScreen p) :
    z ∈ cellOf '' S ↔ ∃ p ∈ S, (number z : Int) = 640 * p.y + p.x := by
  constructor
  · rintro ⟨p, hp, rfl⟩
    exact ⟨p, hp, number_cellOf (hS p hp)⟩
  · rintro ⟨p, hp, hz⟩
    have hnumber := number_cellOf (hS p hp)
    exact ⟨p, hp, number_inj (by omega)⟩

lemma mem_cellOf_row {x y : Int} (hS : ∀ p ∈ row x y n, OnScreen p) :
    z ∈ cellOf '' row x y n ↔
      640 * y + x ≤ number z ∧ (number z : Int) < 640 * y + x + n := by
  rw [mem_cellOf hS]
  constructor
  · rintro ⟨p, hp, hz⟩
    obtain ⟨hy, hx, hxlt⟩ := mem_row.mp hp
    omega
  · rintro ⟨hle, hlt⟩
    refine ⟨⟨number z - 640 * y, y⟩, mem_row.mpr ⟨rfl, ?_⟩, ?_⟩
    · dsimp only
      omega
    · dsimp only
      omega

/-! ## The spans -/

lemma bit_shiftRight {value count k : Nat} (hk : k < 8) :
    bit (shiftRight value count) k = value.testBit (count + k) := by
  rw [shiftRight, bit_ofNat hk, Nat.testBit_shiftRight]

lemma testBit_ones (n k : Nat) : (2 ^ n - 1).testBit k = decide (k < n) :=
  Nat.testBit_two_pow_sub_one n k

/-- The mask of the first byte of a span. -/
lemma bit_left {count k : Nat} (hk : k < 8) :
    bit (shiftRight 0xFF count) k = true ↔ count + k < 8 := by
  rw [bit_shiftRight hk, show 0xFF = 2 ^ 8 - 1 from rfl, testBit_ones, decide_eq_true_iff]

/-- The mask of the last byte of a span. -/
lemma bit_right {count k : Nat} (hk : k < 8) :
    bit (~~~shiftRight 0x7F count) k = true ↔ 7 ≤ count + k := by
  rw [bit_not hk, bit_shiftRight hk, show 0x7F = 2 ^ 7 - 1 from rfl, testBit_ones,
    Bool.not_eq_true',
    decide_eq_false_iff_not, Nat.not_lt]

/-- The mask of a span in one byte. -/
lemma bit_single {count k : Nat} (hk : k < 8) :
    bit (shiftRight (~~~shiftRight 0xFF n).toNat count) k = true ↔
      count + k < 8 ∧ 8 ≤ n + (count + k) := by
  rw [bit_shiftRight hk, toNat_testBit]
  by_cases hcount : count + k < 8
  · rw [bit_not hcount, bit_shiftRight hcount, show 0xFF = 2 ^ 8 - 1 from rfl, testBit_ones,
      Bool.not_eq_true', decide_eq_false_iff_not, Nat.not_lt, and_iff_right hcount]
  · refine iff_of_false ?_ fun h => hcount h.1
    rw [bit, BitVec.getLsbD_of_ge _ _ (by omega)]
    exact Bool.false_ne_true

/-- The loop over the whole bytes. -/
lemma fillBytes_eq (hready : Ready v) (hmask : v.gcData 8 = 0xFF)
    (hn : o.toNat + n = offset1.toNat) :
    (fillBytes offset1 c n o v).cells =
      paint {z : Cell | o.toNat ≤ z.1.toNat ∧ z.1.toNat < offset1.toNat} (colour c) v.cells := by
  induction n generalizing o v with
  | zero =>
    have hempty : {z : Cell | o.toNat ≤ z.1.toNat ∧ z.1.toNat < offset1.toNat} = ∅ := by
      refine Set.eq_empty_iff_forall_notMem.mpr fun z hz => ?_
      have hle : o.toNat ≤ z.1.toNat := hz.1
      have hlt : z.1.toNat < offset1.toNat := hz.2
      omega
    rw [hempty, paint_empty]
    rfl
  | succ n ih =>
    have hlt : o < offset1 := UInt32.lt_iff_toNat_lt.mpr (by omega)
    have hnext : (o + 1).toNat = o.toNat + 1 := by
      have hlast := offset1.toNat_lt
      rw [UInt32.toNat_add, UInt32.toNat_one, Nat.mod_eq_of_lt (by omega)]
    have hready' : Ready (store o c v) := ⟨hready.index, hready.function⟩
    rw [fillBytes, if_pos hlt, ih hready' hmask (by omega),
      cells_store hready.function (.inl hmask), hmask, paint_paint]
    congr 1
    ext z
    have hbit : bit 0xFF z.2 = true := by
      rw [show (0xFF : UInt8) = shiftRight 0xFF 0 from rfl, bit_left z.2.isLt]
      omega
    simp only [maskCells, Set.mem_union, Set.mem_ofPred_eq, hbit, and_true, hnext,
      ← UInt32.toNat_inj]
    omega

/-- The starting and ending bytes. -/
lemma spanEnds_eq (hready : Ready (outGcIndex 8 v)) (a : Point) (len c o offset1 : UInt32) :
    Ready (spanEnds a len c o offset1 v) ∧
      (spanEnds a len c o offset1 v).cells =
        paint (maskCells o (shiftRight 0xFF (bitOf a.x)) ∪
          maskCells offset1 (~~~shiftRight 0x7F ((UInt32.ofInt a.x + len - 1) % 8).toNat))
          (colour c) v.cells := by
  obtain ⟨hleft, hleftcells⟩ := hready.maskedStore (shiftRight 0xFF (bitOf a.x)) o c
  obtain ⟨hright, hrightcells⟩ := hleft.maskedStore
    (~~~shiftRight 0x7F ((UInt32.ofInt a.x + len - 1) % 8).toNat) offset1 c
  refine ⟨hright, ?_⟩
  rw [spanEnds, hrightcells, hleftcells, paint_paint]
  rfl

lemma toNat_ofInt {x : Int} (hx : 0 ≤ x) (hlt : x < 2 ^ 32) :
    ((UInt32.ofInt x).toNat : Int) = x := by
  obtain ⟨n, rfl⟩ := Int.eq_ofNat_of_zero_le hx
  rw [ofInt_natCast, UInt32.toNat_ofNat']
  omega

lemma bitOf_eq {x : Int} (hx : 0 ≤ x) : (bitOf x : Int) = x % 8 := by
  rw [bitOf, Int.tmod_eq_emod_of_nonneg hx]
  omega

/-- The bytes and bits at both ends of a span on the screen. -/
lemma span_ends (hlen : len ≠ 0) (hscreen : ∀ p ∈ row a.x a.y len.toNat, OnScreen p) :
    (OnScreen a ∧ 0 < len.toNat ∧ a.x + len.toNat ≤ 640) ∧
      ((computeOffset (UInt32.ofInt a.x + len - 1) (UInt32.ofInt a.y)).toNat : Int) =
        80 * a.y + (a.x + len.toNat - 1) / 8 ∧
      (((UInt32.ofInt a.x + len - 1) % 8).toNat : Int) = (a.x + len.toNat - 1) % 8 := by
  have hpos : 0 < len.toNat := Nat.pos_of_ne_zero fun h => hlen (UInt32.toNat_inj.mp h)
  have hfirst : OnScreen a := hscreen a (mem_row.mpr ⟨rfl, by omega, by omega⟩)
  have hlast : OnScreen ⟨a.x + len.toNat - 1, a.y⟩ :=
    hscreen _ (mem_row.mpr ⟨rfl, by dsimp only; omega, by dsimp only; omega⟩)
  have hend : UInt32.ofInt a.x + len - 1 = UInt32.ofInt (a.x + len.toNat - 1) := by
    rw [Int.sub_eq_add_neg, UInt32.ofInt_add, UInt32.ofInt_add, ofInt_natCast,
      UInt32.ofNat_toNat, UInt32.ofInt_neg_one]
    grind
  have hle : a.x + len.toNat - 1 < 640 := hlast.2.1
  refine ⟨⟨hfirst, hpos, by omega⟩, ?_, ?_⟩
  · rw [hend]
    exact toNat_computeOffset (p := ⟨a.x + len.toNat - 1, a.y⟩) hlast
  · have hnat := toNat_ofInt (x := a.x + len.toNat - 1) hlast.1 (by omega)
    rw [hend, UInt32.toNat_mod, Int.natCast_mod, hnat]
    rfl

/-- Without pixels nothing is painted. -/
lemma paint_no_pixels {α : Type} {k : α} {f : Cell → α} (h : ∀ p, p ∉ S) :
    paint (cellOf '' S) k f = f := by
  rw [Set.eq_empty_iff_forall_notMem.mpr h, Set.image_empty, paint_empty]

/-- A span in the planes sets its pixels. -/
theorem horizPixelWm2_eq (hscreen : ∀ p ∈ row a.x a.y len.toNat, OnScreen p) :
    (horizPixelWm2 a len c v).cells =
      paint (cellOf '' row a.x a.y len.toNat) (colour c) v.cells := by
  rw [horizPixelWm2]
  by_cases hlen : len = 0
  · rw [if_pos hlen, hlen, paint_no_pixels fun p hp => ?_]
    obtain ⟨-, hle, hlt⟩ := mem_row.mp hp
    have hzero : (0 : UInt32).toNat = 0 := rfl
    omega
  · rw [if_neg hlen]
    obtain ⟨⟨hfirst, hpos, hlast⟩, h1, hright⟩ := span_ends hlen hscreen
    have h0 := toNat_computeOffset hfirst
    have hbit := bitOf_eq hfirst.1
    have hready := ready_outputs v
    have hrow := fun z => mem_cellOf_row (z := z) hscreen
    obtain ⟨hx, hxlt, hy, hylt⟩ := hfirst
    generalize computeOffset (UInt32.ofInt a.x) (UInt32.ofInt a.y) = offset0 at h0 ⊢
    generalize computeOffset (UInt32.ofInt a.x + len - 1) (UInt32.ofInt a.y) = offset1 at h1 ⊢
    obtain ⟨hends, hendscells⟩ := spanEnds_eq hready a len c offset0 offset1
    by_cases hone : offset0 = offset1
    · rw [if_pos hone, (hready.maskedStore _ offset0 c).2]
      congr 1
      ext z
      have hz := z.2.isLt
      rw [hrow]
      simp only [maskCells, Set.mem_ofPred_eq, bit_single z.2.isLt, number, ← UInt32.toNat_inj]
      rw [← UInt32.toNat_inj] at hone
      omega
    · rw [if_neg hone]
      rw [← UInt32.toNat_inj] at hone
      by_cases htwo : offset1 - offset0 = 1
      · rw [if_pos htwo, hendscells]
        have hnext : offset1.toNat = offset0.toNat + 1 := by
          have hadd : offset1 = offset0 + 1 := by grind
          rw [hadd, UInt32.toNat_add, UInt32.toNat_one]
          omega
        congr 1
        ext z
        have hz := z.2.isLt
        rw [hrow]
        simp only [maskCells, Set.mem_union, Set.mem_ofPred_eq, bit_left z.2.isLt,
          bit_right z.2.isLt, number, ← UInt32.toNat_inj]
        omega
      · rw [if_neg htwo]
        have hlt : offset0.toNat + 1 < offset1.toNat := by
          have hne : offset1.toNat ≠ offset0.toNat + 1 := by
            intro heq
            refine htwo (UInt32.toNat_inj.mp ?_)
            rw [UInt32.toNat_sub, UInt32.toNat_one]
            omega
          omega
        have hnext : (offset0 + 1).toNat = offset0.toNat + 1 := by
          rw [UInt32.toNat_add, UInt32.toNat_one]
          omega
        have hcount : (offset0 + 1).toNat + (offset1 - (offset0 + 1)).toNat = offset1.toNat := by
          rw [UInt32.toNat_sub_of_le _ _ (UInt32.le_iff_toNat_le.mpr (by omega))]
          omega
        rw [fillBytes_eq (hends.outGcData 0xFF) (hends.mask_outGcData 0xFF) hcount]
        have hkeep : (outGcData 0xFF (spanEnds a len c offset0 offset1
            (outGcData 0 (outGcIndex 3 v)))).cells = _ := hendscells
        rw [hkeep, paint_paint]
        congr 1
        ext z
        have hz := z.2.isLt
        rw [hrow]
        simp only [maskCells, Set.mem_union, Set.mem_ofPred_eq, bit_left z.2.isLt,
          bit_right z.2.isLt, number, ← UInt32.toNat_inj, hnext]
        omega

/-- The mask of a column. -/
lemma bit_column {count k : Nat} (hk : k < 8) :
    bit (shiftRight 0x80 count) k = true ↔ count + k = 7 := by
  rw [bit_shiftRight hk, show 0x80 = 2 ^ 7 from rfl, Nat.testBit_two_pow, decide_eq_true_iff,
    eq_comm]

lemma mem_cellOf_column {x y : Int} (hS : ∀ p ∈ column x y n, OnScreen p) :
    z ∈ cellOf '' column x y n ↔ ∃ k < n, (number z : Int) = 640 * (y + k) + x := by
  rw [mem_cellOf hS]
  constructor
  · rintro ⟨p, hp, hz⟩
    obtain ⟨hx, hy, hylt⟩ := mem_column.mp hp
    exact ⟨(p.y - y).toNat, by omega, by omega⟩
  · rintro ⟨k, hk, hz⟩
    refine ⟨⟨x, y + k⟩, mem_column.mpr ⟨rfl, ?_⟩, hz⟩
    dsimp only
    omega

/-- The loop over the bytes of a column. -/
lemma fillColumn_eq (hfunction : v.gcData 3 = 0) (hn : o.toNat + 80 * n = offset1.toNat) :
    (fillColumn offset1 c n o v).cells =
      paint {z : Cell | ∃ k < n, z.1.toNat = o.toNat + 80 * k ∧ bit (v.gcData 8) z.2 = true}
        (colour c) v.cells := by
  induction n generalizing o v with
  | zero =>
    have hempty : {z : Cell | ∃ k < 0, z.1.toNat = o.toNat + 80 * k ∧
        bit (v.gcData 8) z.2 = true} = ∅ :=
      Set.eq_empty_iff_forall_notMem.mpr fun z ⟨k, hk, _⟩ => absurd hk (Nat.not_lt_zero k)
    rw [hempty, paint_empty]
    rfl
  | succ n ih =>
    have hlast := offset1.toNat_lt
    have hnext : (o + 80).toNat = o.toNat + 80 := by
      rw [UInt32.toNat_add]
      exact Nat.mod_eq_of_lt (by show o.toNat + 80 < 2 ^ 32; omega)
    have hrest : (fillColumn offset1 c n (o + 80) (store o c (load o v))).cells =
        paint {z : Cell | ∃ k < n, z.1.toNat = (o + 80).toNat + 80 * k ∧
          bit (v.gcData 8) z.2 = true} (colour c) (store o c (load o v)).cells :=
      ih (v := store o c (load o v)) hfunction (by omega)
    have hstore : (store o c (load o v)).cells =
        paint (maskCells o (v.gcData 8)) (colour c) v.cells :=
      cells_store (v := load o v) hfunction (.inr rfl)
    rw [fillColumn, if_pos (UInt32.lt_iff_toNat_lt.mpr (by omega)), hrest, hstore, paint_paint]
    congr 1
    ext z
    simp only [maskCells, Set.mem_union, Set.mem_ofPred_eq, ← UInt32.toNat_inj, hnext]
    constructor
    · rintro (⟨hz, hbit⟩ | ⟨k, hk, hz, hbit⟩)
      · exact ⟨0, Nat.succ_pos n, by omega, hbit⟩
      · exact ⟨k + 1, by omega, by omega, hbit⟩
    · rintro ⟨k, hk, hz, hbit⟩
      cases k with
      | zero => exact .inl ⟨hz, hbit⟩
      | succ k => exact .inr ⟨k, by omega, by omega, hbit⟩

/-- A column in the planes sets its pixels. -/
theorem vertPixelWm2_eq (hscreen : ∀ p ∈ column a.x a.y len.toNat, OnScreen p) :
    (vertPixelWm2 a len c v).cells =
      paint (cellOf '' column a.x a.y len.toNat) (colour c) v.cells := by
  rw [vertPixelWm2]
  by_cases hlen : len = 0
  · rw [if_pos hlen, hlen, paint_no_pixels fun p hp => ?_]
    obtain ⟨-, hle, hlt⟩ := mem_column.mp hp
    have hzero : (0 : UInt32).toNat = 0 := rfl
    omega
  · rw [if_neg hlen]
    have hpos : 0 < len.toNat := Nat.pos_of_ne_zero fun h => hlen (UInt32.toNat_inj.mp h)
    have hfirst : OnScreen a := hscreen a (mem_column.mpr ⟨rfl, by omega, by omega⟩)
    have hlast : OnScreen ⟨a.x, a.y + len.toNat - 1⟩ :=
      hscreen _ (mem_column.mpr ⟨rfl, by dsimp only; omega, by dsimp only; omega⟩)
    have h0 := toNat_computeOffset hfirst
    have hbit := bitOf_eq hfirst.1
    have hready := ready_outputs v
    obtain ⟨hx, hxlt, hy, hylt⟩ := hfirst
    have hend : a.y + len.toNat - 1 < 480 := hlast.2.2.2
    generalize computeOffset (UInt32.ofInt a.x) (UInt32.ofInt a.y) = offset0 at h0 ⊢
    have hoffset1 : offset0.toNat + 80 * len.toNat = (offset0 + len * 80).toNat := by
      rw [UInt32.toNat_add, UInt32.toNat_mul]
      simp only [UInt32.reduceToNat]
      omega
    rw [fillColumn_eq (hready.outGcData _).function hoffset1, hready.mask_outGcData]
    congr 1
    ext z
    have hz := z.2.isLt
    rw [mem_cellOf_column hscreen]
    simp only [Set.mem_ofPred_eq, bit_column z.2.isLt, number]
    constructor
    · rintro ⟨k, hk, hbyte, hcol⟩
      exact ⟨k, hk, by omega⟩
    · rintro ⟨k, hk, hnumber⟩
      exact ⟨k, hk, by omega, by omega⟩

/-! ## The rectangles -/

section

variable {x y : Int} (hx : 0 ≤ x) (hy : 0 ≤ y)
include hx hy

lemma cells_horiz (hxn : x + len.toNat ≤ 640) (hyn : y < 480) :
    (horizPixelWm2 ⟨x, y⟩ len c v).cells =
      paint (cellOf '' row x y len.toNat) (colour c) v.cells := by
  refine horizPixelWm2_eq (a := ⟨x, y⟩) fun p hp => ?_
  obtain ⟨hpy, hpx, hpx'⟩ := mem_row.mp hp
  dsimp only at hpy hpx hpx'
  simp only [OnScreen]
  omega

lemma cells_vert (hxn : x < 640) (hyn : y + len.toNat ≤ 480) :
    (vertPixelWm2 ⟨x, y⟩ len c v).cells =
      paint (cellOf '' column x y len.toNat) (colour c) v.cells := by
  refine vertPixelWm2_eq (a := ⟨x, y⟩) fun p hp => ?_
  obtain ⟨hpx, hpy, hpy'⟩ := mem_column.mp hp
  dsimp only at hpx hpy hpy'
  simp only [OnScreen]
  omega

end

/-- The points of a rectangle from a row on. -/
def rowsFrom (x : Int) (width : Nat) (top bottom : Int) : Set Point :=
  {p | (top ≤ p.y ∧ p.y ≤ bottom) ∧ x ≤ p.x ∧ p.x < x + width}

/-- The loop of `vga_fillrect_wm2`. -/
lemma fillRows_eq {x bottom ay : Int} {width : UInt32} (hx : 0 ≤ x)
    (hwidth : x + width.toNat ≤ 640) (hy : 0 ≤ ay) (hbottom : bottom < 480) :
    (fillRows x bottom width c ay v).cells =
      paint (cellOf '' rowsFrom x width.toNat ay bottom) (colour c) v.cells := by
  generalize hn : (bottom + 1 - ay).toNat = n
  induction n generalizing ay v with
  | zero =>
    rw [fillRows, if_neg (by omega), paint_no_pixels fun p hp => ?_]
    obtain ⟨⟨hle, hle'⟩, -⟩ := hp
    omega
  | succ n ih =>
    rw [fillRows, if_pos (by omega), ih (by omega) (by omega),
      cells_horiz hx hy hwidth (by omega), paint_paint,
      ← Set.image_union]
    congr 2
    ext p
    simp only [Set.mem_union, mem_row, rowsFrom, Set.mem_ofPred_eq]
    omega

/-- The upper and lower part of a wide border. -/
lemma borderRows_eq {x ay dy : Int} {width : UInt32} (c : UInt32) (v : Planes) (hx : 0 ≤ x)
    (hwidth : x + width.toNat ≤ 640) (hy : 0 ≤ ay) (hyn : ay + n ≤ 480) (hd : dy < 480)
    (hdn : (n : Int) ≤ dy + 1) :
    (borderRows x width c n ay dy v).1.cells =
        paint (cellOf '' (block x ay width.toNat n ∪ block x (dy - n + 1) width.toNat n))
          (colour c) v.cells ∧
      (borderRows x width c n ay dy v).2 = (ay + n, dy - n) := by
  induction n generalizing ay dy v with
  | zero =>
    rw [paint_no_pixels fun p hp => ?_]
    · exact ⟨rfl, by rw [Int.natCast_zero, Int.add_zero, Int.sub_zero]; rfl⟩
    · simp only [Set.mem_union, mem_block] at hp
      omega
  | succ n ih =>
    have hrest := ih (horizPixelWm2 ⟨x, dy⟩ width c (horizPixelWm2 ⟨x, ay⟩ width c v))
      (show 0 ≤ ay + 1 by omega) (by omega) (show dy - 1 < 480 by omega) (by omega)
    rw [borderRows]
    refine ⟨?_, ?_⟩
    · rw [hrest.1,
        cells_horiz hx (by omega) hwidth (by omega), cells_horiz hx hy hwidth (by omega),
        paint_paint, paint_paint, ← Set.image_union, ← Set.image_union]
      congr 2
      ext p
      simp only [Set.mem_union, mem_row, mem_block]
      omega
    · rw [hrest.2, Prod.mk.injEq]
      omega

/-- The left and right part of a wide border. -/
lemma borderSides_eq {ax cx ay cy : Int} {wide : UInt32} (hax : 0 ≤ ax)
    (haxn : ax + wide.toNat ≤ 640) (hcx : 0 ≤ cx) (hcxn : cx + wide.toNat ≤ 640) (hay : 0 ≤ ay)
    (hayn : ay + n ≤ 480) (hcy : 0 ≤ cy) (hcyn : cy + n ≤ 480) :
    (borderSides ax cx wide c n ay cy v).cells =
      paint (cellOf '' (block ax ay wide.toNat n ∪ block cx cy wide.toNat n)) (colour c)
        v.cells := by
  induction n generalizing ay cy v with
  | zero =>
    rw [paint_no_pixels fun p hp => ?_]
    · rfl
    · simp only [Set.mem_union, mem_block] at hp
      omega
  | succ n ih =>
    rw [borderSides, ih (by omega) (by omega) (by omega) (by omega),
      cells_horiz hcx hcy hcxn (by omega), cells_horiz hax hay haxn (by omega),
      paint_paint, paint_paint, ← Set.image_union, ← Set.image_union]
    congr 2
    ext p
    simp only [Set.mem_union, mem_row, mem_block]
    omega

lemma toInt_toInt32 {u : UInt32} (h : u.toNat < 2 ^ 31) : u.toInt32.toInt = u.toNat := by
  have hbits : u.toInt32.toInt = u.toBitVec.toInt := rfl
  rw [hbits, BitVec.toInt_eq_toNat_of_lt (by rw [UInt32.toNat_toBitVec]; omega)]
  rfl

/-- `vga_fillrect_wm2` sets the pixels of the rectangle. -/
lemma vgaFillrectWm2_eq (ha : OnScreen a) (hb : OnScreen b) (hx : a.x ≤ b.x) (hy : a.y ≤ b.y) :
    (vgaFillrectWm2 a b c v).cells = paint (cellOf '' rectangle a b) (colour c) v.cells := by
  obtain ⟨hax, hax', hay, hay'⟩ := ha
  obtain ⟨hbx, hbx', hby, hby'⟩ := hb
  have hwidth := toNat_ofInt (x := b.x - a.x + 1) (by omega) (by omega)
  rw [vgaFillrectWm2, fillRows_eq hax (by omega) hay hby']
  congr 2
  ext p
  simp only [rowsFrom, Set.mem_ofPred_eq, mem_rectangle]
  omega

/-- A border of one pixel is two rows and two columns. -/
lemma border_one {width height : Nat} (hwidth : (width : Int) = b.x - a.x + 1)
    (hheight : (height : Int) = b.y - a.y + 1) (hx : a.x ≤ b.x) (hy : a.y ≤ b.y) :
    row a.x a.y width ∪ (row a.x b.y width ∪ (column a.x a.y height ∪ column b.x a.y height)) =
      border a b 1 := by
  ext p
  rw [mem_border_of_le hx hy, Int.natCast_one]
  simp only [Set.mem_union, mem_row, mem_column]
  constructor
  · rintro (⟨hrow, hle, hlt⟩ | ⟨hrow, hle, hlt⟩ | ⟨hcol, hle, hlt⟩ | ⟨hcol, hle, hlt⟩)
    · exact ⟨by omega, .inr (.inr (.inl (by omega)))⟩
    · exact ⟨by omega, .inr (.inr (.inr (by omega)))⟩
    · exact ⟨by omega, .inl (by omega)⟩
    · exact ⟨by omega, .inr (.inl (by omega))⟩
  · rintro ⟨⟨hleft, hright, htop, hbottom⟩, hnear | hnear | hnear | hnear⟩
    · exact .inr (.inr (.inl ⟨by omega, htop, by omega⟩))
    · exact .inr (.inr (.inr ⟨by omega, htop, by omega⟩))
    · exact .inl ⟨by omega, hleft, by omega⟩
    · exact .inr (.inl ⟨by omega, hleft, by omega⟩)

/-- A wide border is two blocks of rows and one on each side between them. -/
lemma border_blocks {n width height : Nat} (hwidth : (width : Int) = b.x - a.x + 1)
    (hheight : (height : Int) = b.y - n - (a.y + n) + 1) (hx : 2 * (n : Int) ≤ b.x - a.x)
    (hy : 2 * (n : Int) ≤ b.y - a.y) :
    block a.x a.y width n ∪ block a.x (b.y - n + 1) width n ∪
      (block a.x (a.y + n) n height ∪ block (b.x - n + 1) (a.y + n) n height) =
        border a b n := by
  ext p
  rw [mem_border_of_le (by omega) (by omega)]
  constructor
  · rintro ((⟨hp, hp'⟩ | ⟨hp, hp'⟩) | ⟨hp, hp'⟩ | ⟨hp, hp'⟩)
    · exact ⟨by omega, .inr (.inr (.inl (by omega)))⟩
    · exact ⟨by omega, .inr (.inr (.inr (by omega)))⟩
    · exact ⟨by omega, .inl (by omega)⟩
    · exact ⟨by omega, .inr (.inl (by omega))⟩
  · rintro ⟨hin, hnear⟩
    by_cases htop : p.y < a.y + n
    · exact .inl (.inl ⟨⟨by omega, htop⟩, by omega⟩)
    by_cases hbottom : b.y - n < p.y
    · exact .inl (.inr ⟨by omega, by omega⟩)
    by_cases hleft : p.x < a.x + n
    · exact .inr (.inl ⟨by omega, by omega, hleft⟩)
    · exact .inr (.inr ⟨by omega, by omega⟩)
/-- `vga_rect_wm2` sets the pixels of the border. -/
lemma vgaRectWm2_eq {wide : UInt32} (ha : OnScreen a) (hb : OnScreen b)
    (hx : 2 * (wide.toNat : Int) ≤ b.x - a.x) (hy : 2 * (wide.toNat : Int) ≤ b.y - a.y) :
    (vgaRectWm2 a b wide c v).cells =
      paint (cellOf '' border a b wide.toNat) (colour c) v.cells := by
  obtain ⟨hax, hax', hay, hay'⟩ := ha
  obtain ⟨hbx, hbx', hby, hby'⟩ := hb
  have hwidth := toNat_ofInt (x := b.x - a.x + 1) (by omega) (by omega)
  have hheight := toNat_ofInt (x := b.y - a.y + 1) (by omega) (by omega)
  have hdouble : (2 * wide).toNat = 2 * wide.toNat := by
    rw [UInt32.toNat_mul]
    exact Nat.mod_eq_of_lt (by show 2 * wide.toNat < 2 ^ 32; omega)
  have hint : (2 * wide).toInt32.toInt = 2 * wide.toNat := by
    rw [toInt_toInt32 (by omega), hdouble, Int.natCast_mul]
    rfl
  rw [vgaRectWm2, hint]
  rw [if_neg (by omega), if_neg (by omega)]
  by_cases hzero : wide = 0
  · rw [if_pos hzero, hzero, paint_no_pixels fun p hp => ?_]
    simp only [mem_border, mem_rectangle, UInt32.toNat_zero] at hp
    omega
  · rw [if_neg hzero]
    have hpos : 0 < wide.toNat := Nat.pos_of_ne_zero fun h => hzero (UInt32.toNat_inj.mp h)
    by_cases hone : 1 = wide
    · subst hone
      have hwide : (1 : UInt32).toNat = 1 := rfl
      rw [if_pos rfl, cells_vert hbx hay hbx' (by omega), cells_vert hax hay hax' (by omega),
        cells_horiz hax hby (by omega) hby', cells_horiz hax hay (by omega) hay', paint_paint,
        paint_paint,
        paint_paint, ← Set.image_union, ← Set.image_union, ← Set.image_union]
      congr 2
      exact border_one hwidth hheight (by omega) (by omega)
    · have hwide : wide.toNat ≠ 1 := fun h => hone (UInt32.toNat_inj.mp h.symm)
      have hright : a.x + (UInt32.ofInt (b.x - a.x + 1)).toNat ≤ 640 := by omega
      obtain ⟨hcells, hrest⟩ :=
        borderRows_eq (n := wide.toNat) c v hax hright hay (by omega) hby' (by omega)
      have hcx : (UInt32.ofInt b.x - (wide - 1)).toInt32.toInt = b.x - wide.toNat + 1 := by
        have hnat := toNat_ofInt (x := b.x) hbx (by omega)
        have hless : (wide - 1).toNat = wide.toNat - 1 :=
          UInt32.toNat_sub_of_le _ _ (UInt32.le_iff_toNat_le.mpr hpos)
        have hsub : (UInt32.ofInt b.x - (wide - 1)).toNat =
            (UInt32.ofInt b.x).toNat - (wide.toNat - 1) := by
          rw [UInt32.toNat_sub_of_le _ _ (UInt32.le_iff_toNat_le.mpr (by omega)), hless]
        rw [toInt_toInt32 (by omega), hsub]
        omega
      have hcy : (UInt32.ofInt a.y + wide).toInt32.toInt = a.y + wide.toNat := by
        have hnat := toNat_ofInt (x := a.y) hay (by omega)
        have hadd : (UInt32.ofInt a.y + wide).toNat = (UInt32.ofInt a.y).toNat + wide.toNat := by
          rw [UInt32.toNat_add, Nat.mod_eq_of_lt (by omega)]
        rw [toInt_toInt32 (by omega), hadd]
        omega
      have hloop := toNat_ofInt (x := b.y - wide.toNat - (a.y + wide.toNat) + 1) (by omega)
        (by omega)
      rw [if_neg hone, hcx, hcy]
      generalize borderRows a.x (UInt32.ofInt (b.x - a.x + 1)) c wide.toNat a.y b.y v = result
        at hcells hrest ⊢
      obtain ⟨v', ay, dy⟩ := result
      cases hrest
      rw [borderSides_eq hax (by omega) (by omega) (by omega) (by omega) (by omega) (by omega)
        (by omega), hcells, paint_paint, ← Set.image_union]
      congr 2
      exact border_blocks hwidth hloop hx hy

/-! ## What the routines draw -/

/-- A routine gives some points of the screen a colour and keeps all other pixels. -/
structure Sets (S : Set Point) (c : UInt32) (draw : Planes → Planes) : Prop where
  drawn : ∀ v, ∀ p ∈ S, (draw v).cells (cellOf p) = colour c
  others : ∀ v p, OnScreen p → p ∉ S → (draw v).cells (cellOf p) = v.cells (cellOf p)
  kept : ∀ v z, (∀ p ∈ S, cellOf p ≠ z) → (draw v).cells z = v.cells z

lemma sets_of_paint {draw : Planes → Planes} (hS : ∀ p ∈ S, OnScreen p)
    (h : ∀ v, (draw v).cells = paint (cellOf '' S) (colour c) v.cells) : Sets S c draw where
  drawn v p hp := by
    rw [h, paint_of_mem (Set.mem_image_of_mem cellOf hp)]
  others v p hscreen hp := by
    rw [h, paint_of_not_mem]
    rintro ⟨q, hq, heq⟩
    exact hp (cellOf_inj (hS q hq) hscreen heq ▸ hq)
  kept v z hz := by
    rw [h, paint_of_not_mem]
    rintro ⟨q, hq, heq⟩
    exact hz q hq heq

/-- The points of a rectangle on the screen. -/
lemma onScreen_rectangle (ha : OnScreen a) (hb : OnScreen b) :
    ∀ p ∈ rectangle a b, OnScreen p := by
  intro p hp
  obtain ⟨hleft, hright, htop, hbottom⟩ := mem_rectangle.mp hp
  simp only [OnScreen] at ha hb ⊢
  omega

/-- Spans and rectangles on the screen set their pixels and keep all others. -/
theorem planar_drawing (c : UInt32) :
    (∀ (a : Point) (len : UInt32), (∀ p ∈ row a.x a.y len.toNat, OnScreen p) →
      Sets (row a.x a.y len.toNat) c (horizPixelWm2 a len c)) ∧
    (∀ (a : Point) (len : UInt32), (∀ p ∈ column a.x a.y len.toNat, OnScreen p) →
      Sets (column a.x a.y len.toNat) c (vertPixelWm2 a len c)) ∧
    (∀ a b : Point, OnScreen a → OnScreen b → a.x ≤ b.x → a.y ≤ b.y →
      Sets (rectangle a b) c (vgaFillrectWm2 a b c)) ∧
    ∀ (a b : Point) (wide : UInt32), OnScreen a → OnScreen b →
      2 * (wide.toNat : Int) ≤ b.x - a.x → 2 * (wide.toNat : Int) ≤ b.y - a.y →
        Sets (border a b wide.toNat) c (vgaRectWm2 a b wide c) := by
  refine ⟨?_, ?_, ?_, ?_⟩
  · exact fun a len hscreen => sets_of_paint hscreen fun v => horizPixelWm2_eq hscreen
  · exact fun a len hscreen => sets_of_paint hscreen fun v => vertPixelWm2_eq hscreen
  · exact fun a b ha hb hx hy =>
      sets_of_paint (onScreen_rectangle ha hb) fun v => vgaFillrectWm2_eq ha hb hx hy
  · exact fun a b wide ha hb hx hy =>
      sets_of_paint (fun p hp => onScreen_rectangle ha hb p (mem_border.mp hp).1)
        fun v => vgaRectWm2_eq ha hb hx hy

/-- A border of three pixels. -/
theorem planar_drawing_border :
    Sets (border ⟨5, 7⟩ ⟨100, 90⟩ 3) 12 (vgaRectWm2 ⟨5, 7⟩ ⟨100, 90⟩ 3 12) :=
  (planar_drawing 12).2.2.2 ⟨5, 7⟩ ⟨100, 90⟩ 3 (by simp [OnScreen]) (by simp [OnScreen])
    (by decide) (by decide)

end DiegOS.Drivers.Vga
