import DiegOS.Lib.Painting

/-!
# The planes of the VGA

The memory of a planar mode: every byte that the processor sees stands for eight pixels in each of
four planes.  A load fills the latches from the planes; in write mode 2 with all planes enabled, as
`write_regs` sets them, a store puts a bit of its value into the pixels that the bit mask
selects, after the function of register 3 has combined it with the latches, and the latches into
the others.

Main results:

- Theorem `cells_store`: what a store changes, if the latches come from the byte or the mask
  selects all pixels.
- Theorem `Ready.maskedStore`: what a load and a store with a new mask do.
-/

namespace DiegOS.Drivers.Vga

open Lib Function

/-! ## The hardware -/

/-- The planes and latches, and the registers of the graphics controller with the index of the
selected one. -/
structure Planes where
  planes : UInt32 → Fin 4 → UInt8
  latch : Fin 4 → UInt8
  gcIndex : UInt8
  gcData : UInt8 → UInt8

/-- `out_byte(VGA_GC_INDEX, value)` -/
def outGcIndex (value : UInt8) (v : Planes) : Planes := { v with gcIndex := value }

/-- `out_byte(VGA_GC_DATA, value)` -/
def outGcData (value : UInt8) (v : Planes) : Planes :=
  { v with gcData := Function.update v.gcData v.gcIndex value }

/-- A load from `vgabuf[offset]` whose value is not used. -/
def load (offset : UInt32) (v : Planes) : Planes := { v with latch := v.planes offset }

/-- The bit of a value for a plane, in all pixels. -/
def planeByte (c : UInt32) (p : Fin 4) : UInt8 := if c.toNat.testBit p then 0xFF else 0

/-- The function of register 3. -/
def combine (function data latch : UInt8) : UInt8 :=
  if (function >>> 3) &&& 3 = 0 then data
  else if (function >>> 3) &&& 3 = 1 then data &&& latch
  else if (function >>> 3) &&& 3 = 2 then data ||| latch
  else data ^^^ latch

/-- `vgabuf[offset] = (uint8_t) c` -/
def store (offset c : UInt32) (v : Planes) : Planes :=
  { v with
    planes := Function.update v.planes offset fun p =>
      (combine (v.gcData 3) (planeByte c p) (v.latch p) &&& v.gcData 8) |||
        (v.latch p &&& ~~~v.gcData 8) }

/-! ## The pixels -/

/-- A pixel: the byte it is in, and its bit. -/
abbrev Cell := UInt32 × Fin 8

/-- A bit of a byte. -/
def bit (b : UInt8) (k : Nat) : Bool := b.toBitVec.getLsbD k

/-- The color of a pixel, plane by plane. -/
def Planes.cells (v : Planes) (z : Cell) : Fin 4 → Bool := fun p => bit (v.planes z.1 p) z.2

/-- The pixels of a byte that a mask selects. -/
def maskCells (offset : UInt32) (mask : UInt8) : Set Cell :=
  {z | z.1 = offset ∧ bit mask z.2 = true}

/-- The color that a value stands for. -/
def colour (c : UInt32) : Fin 4 → Bool := fun p => c.toNat.testBit p

section Bits

variable {b b' : UInt8} {k n : Nat}

lemma bit_and : bit (b &&& b') k = (bit b k && bit b' k) := by
  rw [bit, UInt8.toBitVec_and, BitVec.getLsbD_and]
  rfl

lemma bit_or : bit (b ||| b') k = (bit b k || bit b' k) := by
  rw [bit, UInt8.toBitVec_or, BitVec.getLsbD_or]
  rfl

lemma bit_not (hk : k < 8) : bit (~~~b) k = !bit b k := by
  rw [bit, UInt8.toBitVec_not, BitVec.getLsbD_not, decide_eq_true hk, Bool.true_and]
  rfl

lemma bit_ofNat (hk : k < 8) : bit (UInt8.ofNat n) k = n.testBit k := by
  rw [bit, UInt8.toBitVec_ofNat', BitVec.getLsbD_ofNat, decide_eq_true hk, Bool.true_and]

lemma toNat_testBit : b.toNat.testBit k = bit b k := by
  rw [bit, UInt8.toNat, BitVec.testBit_toNat]

lemma bit_planeByte (c : UInt32) (p : Fin 4) (hk : k < 8) :
    bit (planeByte c p) k = colour c p := by
  rw [planeByte, colour]
  cases c.toNat.testBit p with
  | true =>
    rw [if_pos rfl, show (0xFF : UInt8) = UInt8.ofNat (2 ^ 8 - 1) from rfl, bit_ofNat hk,
      Nat.testBit_two_pow_sub_one, decide_eq_true hk]
  | false =>
    rw [if_neg Bool.false_ne_true, show (0 : UInt8) = UInt8.ofNat 0 from rfl, bit_ofNat hk,
      Nat.zero_testBit]

end Bits

variable {v : Planes} {o c : UInt32}

/-- What a store changes, if the latches come from the byte or the mask selects all pixels. -/
theorem cells_store (hfunction : v.gcData 3 = 0)
    (hlatch : v.gcData 8 = 0xFF ∨ v.latch = v.planes o) :
    (store o c v).cells = paint (maskCells o (v.gcData 8)) (colour c) v.cells := by
  have hdata : ∀ data latch, combine (v.gcData 3) data latch = data := by
    intro data latch
    rw [hfunction]
    rfl
  funext z p
  by_cases hz : z.1 = o
  · have hcell : (store o c v).cells z p =
        ((colour c p && bit (v.gcData 8) z.2) ||
         (bit (v.latch p) z.2 && !bit (v.gcData 8) z.2)) := by
      rw [Planes.cells, store, hz]
      dsimp only
      rw [update_self, hdata, bit_or, bit_and, bit_and, bit_not z.2.isLt,
        bit_planeByte c p z.2.isLt]
    rw [hcell]
    by_cases hbit : bit (v.gcData 8) z.2 = true
    · have hmem : z ∈ maskCells o (v.gcData 8) := ⟨hz, hbit⟩
      rw [paint_of_mem hmem, hbit]
      simp
    · have hnot : z ∉ maskCells o (v.gcData 8) := fun h => hbit h.2
      rw [paint_of_not_mem hnot]
      have hfull : v.gcData 8 ≠ 0xFF := by
        intro heq
        refine hbit ?_
        rw [heq, show (0xFF : UInt8) = UInt8.ofNat (2 ^ 8 - 1) from rfl, bit_ofNat z.2.isLt,
          Nat.testBit_two_pow_sub_one, decide_eq_true z.2.isLt]
      rw [hlatch.resolve_left hfull, Bool.eq_false_of_not_eq_true hbit, Planes.cells, hz]
      simp
  · have hnot : z ∉ maskCells o (v.gcData 8) := fun h => hz h.1
    rw [paint_of_not_mem hnot, Planes.cells, Planes.cells, store]
    dsimp only
    rw [update_of_ne hz]

/-- The mask is selected and the function is not to modify. -/
structure Ready (v : Planes) : Prop where
  index : v.gcIndex = 8
  function : v.gcData 3 = 0

/-- After the first three outputs of a routine. -/
lemma ready_outputs (v : Planes) :
    Ready (outGcIndex 8 (outGcData 0 (outGcIndex 3 v))) where
  index := rfl
  function := update_self 3 0 v.gcData

namespace Ready

lemma outGcData (h : Ready v) (b : UInt8) : Ready (outGcData b v) where
  index := h.index
  function := by
    rw [Vga.outGcData, h.index]
    exact (update_of_ne (show (3 : UInt8) ≠ 8 by decide) b v.gcData).trans h.function

lemma mask_outGcData (h : Ready v) (b : UInt8) : (Vga.outGcData b v).gcData 8 = b := by
  rw [Vga.outGcData, h.index]
  exact update_self 8 b v.gcData

/-- A load and a store with a new mask. -/
theorem maskedStore (h : Ready v) (b : UInt8) (o c : UInt32) :
    Ready (store o c (load o (Vga.outGcData b v))) ∧
      (store o c (load o (Vga.outGcData b v))).cells =
        paint (maskCells o b) (colour c) v.cells := by
  refine ⟨⟨h.index, (h.outGcData b).function⟩, ?_⟩
  have hmask : (load o (Vga.outGcData b v)).gcData 8 = b := h.mask_outGcData b
  rw [cells_store (v := load o (Vga.outGcData b v)) (h.outGcData b).function (.inr rfl), hmask]
  rfl

end Ready

end DiegOS.Drivers.Vga
