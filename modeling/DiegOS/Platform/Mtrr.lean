import DiegOS.Lib.AddressMasks

/-!
# Memory type ranges

The register pairs that `mtrr.c` writes for the cache type of a range of memory.  The
processor compares the bits of an address from the page size up to its own width.

Main results:

- Theorem `address_physMask`: the mask in the register is that of the size.
- Theorem `initMtrr_isLenMask`: what `init_mtrr` makes of the address width.
- Theorem `ranges_exact_iff`: when a register pair matches exactly the range.
-/

namespace DiegOS.Platform.Mtrr

open Lib

/-! ## The code -/

def MTRR_TYPE_UC : Int32 := 0

def MTRR_TYPE_WC : Int32 := 1

def MTRR_TYPE_WT : Int32 := 4

def MTRR_TYPE_WP : Int32 := 5

def MTRR_TYPE_WB : Int32 := 6

def UINT_MAX : UInt32 := 0xFFFFFFFF

/-- The answers of `cpuid` to `0x80000000` and `0x80000008`. -/
structure Cpuid where
  maxLeaf : UInt32
  addressSizes : UInt32

/-- The number of bits of a physical address. -/
def Cpuid.width (cpu : Cpuid) : Nat :=
  if cpu.maxLeaf > 0x80000007 then (cpu.addressSizes &&& 0xFF).toNat else 36

/-- The variables of the file, and the registers with their low and their high word. -/
structure State where
  physLenMask : UInt32
  mtrrCount : UInt32
  mtrrPos : UInt32
  flags : UInt32
  msr : UInt32 → UInt32 × UInt32

def State.writeMsr (s : State) (buffer : UInt32 × UInt32) (reg : UInt32) : State :=
  { s with msr := fun r => if r = reg then buffer else s.msr r }

def initMtrr (cpu : Cpuid) (s : State) : State :=
  let buffer := s.msr 0xFE
  let s := if (buffer.1 >>> 10) &&& 1 ≠ 0 then { s with flags := s.flags ||| 1 } else s
  let s := { s with mtrrCount := buffer.1 &&& 0xFF }
  if cpu.maxLeaf > 0x80000007 then
    let phy := (cpu.addressSizes &&& 0xFF) - 12
    { s with physLenMask := UINT_MAX >>> (32 - phy) }
  else { s with physLenMask := UINT_MAX >>> (32 - (36 - 12)) }

/-- The tests at the beginning of `mtrr_configure`. -/
def accepts (s : State) (base size : UInt32) (cacheType : Int32) : Bool :=
  if s.mtrrPos = s.mtrrCount then false
  else if base &&& 0xFFF ≠ 0 then false
  else if size &&& 0xFFF ≠ 0 then false
  else if cacheType = MTRR_TYPE_WC then s.flags &&& 1 != 0
  else cacheType = MTRR_TYPE_UC ∨ cacheType = MTRR_TYPE_WT ∨ cacheType = MTRR_TYPE_WP ∨
    cacheType = MTRR_TYPE_WB

/-- What is written to `IA32_MTRR_PHYSBASE0` over its old contents. -/
def physBase (physLenMask : UInt32) (buffer : UInt32 × UInt32) (base : UInt32)
    (cacheType : Int32) : UInt32 × UInt32 :=
  let low := buffer.1 &&& ~~~0xF
  let low := low ||| (cacheType.toUInt32 &&& 0xF)
  let low := low &&& ~~~(physLenMask <<< 12)
  let low := low ||| ((base >>> 12) <<< 12)
  (low,
    if physLenMask >>> 20 ≠ 0 then buffer.2 &&& ~~~(physLenMask >>> 20) else buffer.2)

/-- What is written to `IA32_MTRR_PHYSMASK0` over its old contents. -/
def physMask (physLenMask : UInt32) (buffer : UInt32 × UInt32) (size : UInt32) :
    UInt32 × UInt32 :=
  let upperaddr := (~~~(size - 1) >>> 12) &&& physLenMask
  let low := buffer.1 &&& ~~~(physLenMask <<< 12)
  let low := low ||| (upperaddr <<< 12)
  let low := low ||| ((1 : UInt32) <<< 11)
  (low,
    if physLenMask >>> 20 ≠ 0 then
      (buffer.2 &&& ~~~(physLenMask >>> 20)) ||| (physLenMask >>> 20)
    else buffer.2)

def mtrrConfigure (s : State) (base size : UInt32) (cacheType : Int32) : Bool × State :=
  if !accepts s base size cacheType then (false, s)
  else
    let reg := 0x200 + 2 * s.mtrrPos
    let s := s.writeMsr (physBase s.physLenMask (s.msr reg) base cacheType) reg
    let reg := reg + 1
    let s := s.writeMsr (physMask s.physLenMask (s.msr reg) size) reg
    (true, { s with mtrrPos := s.mtrrPos + 1 })

/-! ## The bits of a word -/

section Bits

variable {x y : UInt32} {i : Nat}

lemma testBit_and : (x &&& y).toNat.testBit i = (x.toNat.testBit i && y.toNat.testBit i) := by
  rw [UInt32.toNat_and, Nat.testBit_and]

lemma testBit_or : (x ||| y).toNat.testBit i = (x.toNat.testBit i || y.toNat.testBit i) := by
  rw [UInt32.toNat_or, Nat.testBit_or]

lemma testBit_not (hi : i < 32) : (~~~x).toNat.testBit i = !x.toNat.testBit i := by
  rw [← UInt32.toNat_toBitVec, UInt32.toBitVec_not, BitVec.testBit_toNat, BitVec.getLsbD_not,
    decide_eq_true hi, Bool.true_and, ← BitVec.testBit_toNat, UInt32.toNat_toBitVec]

lemma testBit_shiftLeft {k : UInt32} (hk : k.toNat < 32) (hi : i < 32) :
    (x <<< k).toNat.testBit i = (decide (k.toNat ≤ i) && x.toNat.testBit (i - k.toNat)) := by
  rw [UInt32.toNat_shiftLeft, Nat.mod_eq_of_lt hk, Nat.testBit_mod_two_pow, decide_eq_true hi,
    Bool.true_and, Nat.testBit_shiftLeft]

lemma testBit_shiftRight {k : UInt32} (hk : k.toNat < 32) :
    (x >>> k).toNat.testBit i = x.toNat.testBit (k.toNat + i) := by
  rw [UInt32.toNat_shiftRight, Nat.mod_eq_of_lt hk, Nat.testBit_shiftRight]

lemma testBit_eq_false (hi : 32 ≤ i) : x.toNat.testBit i = false :=
  Nat.testBit_lt_two_pow (x.toNat_lt.trans_le (Nat.pow_le_pow_right (by decide) hi))

end Bits

/-! ## The registers -/

variable {w i : Nat} {s s' : State} {base size plm : UInt32} {cacheType : Int32}
  {buffer : UInt32 × UInt32} {cpu : Cpuid}

/-- The mask for addresses of so many bits, without the bits of a page. -/
def IsLenMask (w : Nat) (plm : UInt32) : Prop := ∀ i, plm.toNat.testBit i = decide (i + 12 < w)

section

variable (h : IsLenMask w plm)
include h

lemma IsLenMask.le : w ≤ 44 := by
  have hbit := h 32
  rw [testBit_eq_false le_rfl] at hbit
  have hnot := of_decide_eq_false hbit.symm
  omega

lemma IsLenMask.shiftLeft (hw : 32 ≤ w) (hi : i < 32) :
    (plm <<< 12).toNat.testBit i = decide (12 ≤ i) := by
  rw [testBit_shiftLeft (by decide) hi, h]
  simp only [UInt32.reduceToNat]
  by_cases hle : 12 ≤ i
  · simp only [hle, decide_true, Bool.true_and, decide_eq_true_eq]
    omega
  · simp [hle]

lemma IsLenMask.shiftRight (i : Nat) :
    (plm >>> 20).toNat.testBit i = decide (i + 32 < w) := by
  rw [testBit_shiftRight (by decide), h]
  simp only [UInt32.reduceToNat, decide_eq_decide]
  omega

lemma IsLenMask.shiftRight_ne_zero (hi : i + 32 < w) :
    plm >>> 20 ≠ 0 := by
  intro hzero
  have hbit := h.shiftRight i
  rw [hzero, decide_eq_true hi] at hbit
  simp at hbit

end

/-- What the processor takes from a register: the bits of an address from the page size up. -/
def address (w : Nat) (buffer : UInt32 × UInt32) : Nat :=
  (2 ^ 32 * buffer.2.toNat + buffer.1.toNat) % 2 ^ w / 2 ^ 12 * 2 ^ 12

lemma testBit_address (w : Nat) (buffer : UInt32 × UInt32) (i : Nat) :
    (address w buffer).testBit i = (decide (12 ≤ i) && decide (i < w) &&
      if i < 32 then buffer.1.toNat.testBit i else buffer.2.toNat.testBit (i - 32)) := by
  rw [address, Nat.testBit_mul_two_pow, Nat.testBit_div_two_pow, Nat.testBit_mod_two_pow,
    Nat.testBit_two_pow_mul_add _ buffer.1.toNat_lt]
  by_cases hi : 12 ≤ i
  · simp only [Nat.sub_add_cancel hi, Bool.and_assoc]
  · simp [hi]

lemma mod_page (h : size &&& 0xFFF = 0) : size.toNat % 2 ^ 12 = 0 := by
  have hnat := congrArg UInt32.toNat h
  rw [UInt32.toNat_and] at hnat
  rw [← Nat.and_two_pow_sub_one_eq_mod]
  exact hnat

lemma testBit_page (h : base &&& 0xFFF = 0) (hi : i < 12) : base.toNat.testBit i = false := by
  have hbit := Nat.testBit_mod_two_pow base.toNat 12 i
  rw [mod_page h, Nat.zero_testBit, decide_eq_true hi, Bool.true_and] at hbit
  exact hbit.symm

/-- The greatest offset that the code makes of a size: no size is all of 4 GBytes. -/
def lastOffset (size : UInt32) : Nat := (size - 1).toNat

lemma testBit_lastOffset (h : size &&& 0xFFF = 0) (hi : i < 12) :
    (lastOffset size).testBit i = true := by
  have hmod : lastOffset size % 2 ^ 12 = 2 ^ 12 - 1 := by
    have hpage := mod_page h
    rw [lastOffset, UInt32.toNat_sub]
    simp only [UInt32.reduceToNat]
    omega
  have hbit := Nat.testBit_mod_two_pow (lastOffset size) 12 i
  rw [hmod, Nat.testBit_two_pow_sub_one, decide_eq_true hi, Bool.true_and] at hbit
  exact hbit.symm

section

variable (h : IsLenMask w plm)
include h

/-- The low word of the base has the bits of the base. -/
lemma physBase_low (hw : 32 ≤ w) (hpage : 12 ≤ i) (hi : i < 32) :
    (physBase plm buffer base cacheType).1.toNat.testBit i = base.toNat.testBit i := by
  simp only [physBase, testBit_or, testBit_and, testBit_not hi, h.shiftLeft hw hi,
    testBit_shiftLeft (x := base >>> 12) (k := 12) (by decide) hi,
    testBit_shiftRight (x := base) (k := 12) (by decide), UInt32.reduceToNat, hpage,
    decide_true, Bool.not_true, Bool.and_false, Bool.false_or, Bool.true_and,
    Nat.add_sub_of_le]

/-- The high word of the base has no bits of an address. -/
lemma physBase_high (hi : i + 32 < w) :
    (physBase plm buffer base cacheType).2.toNat.testBit i = false := by
  have hle := h.le
  simp only [physBase, if_pos (h.shiftRight_ne_zero hi), testBit_and,
    testBit_not (show i < 32 by omega), h.shiftRight, hi, decide_true, Bool.not_true,
    Bool.and_false]

/-- The base in the register. -/
lemma address_physBase (hw : 32 ≤ w) (hbase : base &&& 0xFFF = 0) :
    address w (physBase plm buffer base cacheType) = base.toNat := by
  apply Nat.eq_of_testBit_eq
  intro i
  rw [testBit_address]
  by_cases hpage : i < 12
  · rw [testBit_page hbase hpage, decide_eq_false (by omega), Bool.false_and, Bool.false_and]
  · rw [decide_eq_true (Nat.not_lt.mp hpage), Bool.true_and]
    by_cases hi : i < 32
    · rw [if_pos hi, physBase_low h hw (Nat.not_lt.mp hpage) hi, decide_eq_true (by omega),
        Bool.true_and]
    · rw [if_neg hi, testBit_eq_false (x := base) (Nat.not_lt.mp hi)]
      by_cases hiw : i < w
      · rw [physBase_high h (by omega), Bool.and_false]
      · rw [decide_eq_false hiw, Bool.false_and]

/-- The low word of the mask has the bits that are clear in the greatest offset. -/
lemma physMask_low (hw : 32 ≤ w) (hpage : 12 ≤ i) (hi : i < 32) :
    (physMask plm buffer size).1.toNat.testBit i = !(lastOffset size).testBit i := by
  have hone : ((1 : UInt32) <<< 11).toNat.testBit i = false := by
    rw [show ((1 : UInt32) <<< 11).toNat = 2 ^ 11 from rfl, Nat.testBit_two_pow]
    exact decide_eq_false (by omega)
  simp only [physMask, testBit_or, hone, testBit_and, testBit_not hi, h.shiftLeft hw hi,
    testBit_shiftLeft (x := (~~~(size - 1) >>> 12) &&& plm) (k := 12) (by decide) hi,
    testBit_shiftRight (x := ~~~(size - 1)) (k := 12) (by decide), UInt32.reduceToNat, hpage,
    decide_true, Bool.not_true, Bool.and_false, Bool.false_or, Bool.true_and, Bool.or_false,
    Nat.add_sub_of_le, h (i - 12), Nat.sub_add_cancel hpage, decide_eq_true (hi.trans_le hw),
    Bool.and_true]
  rfl

/-- The high word of the mask has all bits of an address. -/
lemma physMask_high (hi : i + 32 < w) :
    (physMask plm buffer size).2.toNat.testBit i = true := by
  simp only [physMask, if_pos (h.shiftRight_ne_zero hi), testBit_or, h.shiftRight, hi,
    decide_true, Bool.or_true]

/-- The mask in the register is that of the size. -/
theorem address_physMask (hw : 32 ≤ w) (hsize : size &&& 0xFFF = 0) :
    address w (physMask plm buffer size) = sizeMask w (lastOffset size + 1) := by
  have hlast : lastOffset size < 2 ^ w :=
    (size - 1).toNat_lt.trans_le (Nat.pow_le_pow_right (by decide) hw)
  apply Nat.eq_of_testBit_eq
  intro i
  rw [testBit_address, testBit_sizeMask hlast]
  by_cases hpage : i < 12
  · rw [testBit_lastOffset hsize hpage, decide_eq_false (by omega), Bool.not_true,
      Bool.and_false, Bool.false_and, Bool.false_and]
  · rw [decide_eq_true (Nat.not_lt.mp hpage), Bool.true_and]
    by_cases hi : i < 32
    · rw [if_pos hi, physMask_low h hw (Nat.not_lt.mp hpage) hi]
    · have hclear : (lastOffset size).testBit i = false := testBit_eq_false (Nat.not_lt.mp hi)
      rw [if_neg hi, hclear]
      by_cases hiw : i < w
      · rw [physMask_high h (by omega), Bool.not_false]
      · rw [decide_eq_false hiw, Bool.false_and, Bool.false_and]

end

/-! ## The runs -/

/-- One call of `mtrr_configure`. -/
structure Call where
  base : UInt32
  size : UInt32
  cacheType : Int32

/-- What is left after calls of `mtrr_configure`. -/
def configured (s : State) (calls : List Call) : State :=
  calls.foldl (fun s call => (mtrrConfigure s call.base call.size call.cacheType).2) s

@[simp]
lemma writeMsr_msr_self (s : State) (buffer : UInt32 × UInt32) (reg : UInt32) :
    (s.writeMsr buffer reg).msr reg = buffer :=
  if_pos rfl

lemma writeMsr_msr_of_ne (s : State) (buffer : UInt32 × UInt32) {reg r : UInt32}
    (h : r ≠ reg) : (s.writeMsr buffer reg).msr r = s.msr r :=
  if_neg h

lemma mtrrConfigure_physLenMask (s : State) (base size : UInt32) (cacheType : Int32) :
    (mtrrConfigure s base size cacheType).2.physLenMask = s.physLenMask := by
  rw [mtrrConfigure]
  split <;> rfl

/-- The mask of the address width is only made by `init_mtrr`. -/
lemma configured_physLenMask (s : State) (calls : List Call) :
    (configured s calls).physLenMask = s.physLenMask := by
  induction calls generalizing s with
  | nil => rfl
  | cons call calls ih =>
    exact (ih _).trans (mtrrConfigure_physLenMask s call.base call.size call.cacheType)

lemma isLenMask_shiftRight {k : UInt32} (hw : k.toNat + w = 44) (hk : k.toNat < 32) :
    IsLenMask w (UINT_MAX >>> k) := by
  intro i
  rw [testBit_shiftRight hk, show UINT_MAX.toNat = 2 ^ 32 - 1 from rfl,
    Nat.testBit_two_pow_sub_one]
  exact decide_eq_decide.mpr (by omega)

/-- `init_mtrr` makes the mask of the address width. -/
theorem initMtrr_isLenMask (s : State) (hlow : 32 ≤ cpu.width) (hhigh : cpu.width ≤ 44) :
    IsLenMask cpu.width (initMtrr cpu s).physLenMask := by
  rw [Cpuid.width] at hlow hhigh ⊢
  rw [initMtrr]
  by_cases hleaf : cpu.maxLeaf > 0x80000007
  · rw [if_pos hleaf] at hlow hhigh ⊢
    rw [if_pos hleaf]
    have hlen : (32 - ((cpu.addressSizes &&& 0xFF) - 12)).toNat =
        44 - (cpu.addressSizes &&& 0xFF).toNat := by
      rw [UInt32.toNat_sub, UInt32.toNat_sub]
      simp only [UInt32.reduceToNat]
      omega
    exact isLenMask_shiftRight (by omega) (by omega)
  · rw [if_neg hleaf, if_neg hleaf]
    exact isLenMask_shiftRight (by decide) (by decide)

/-- The register pair matches exactly the addresses of the range. -/
def RangeExact (w : Nat) (s : State) (reg base size : UInt32) : Prop :=
  ∀ a < 2 ^ w, Selects (address w (s.msr reg)) (address w (s.msr (reg + 1))) a ↔
    base.toNat ≤ a ∧ a < base.toNat + size.toNat

/-- A call that is accepted is about whole pages. -/
lemma accepts_pages (h : accepts s base size cacheType = true) :
    base &&& 0xFFF = 0 ∧ size &&& 0xFFF = 0 := by
  rw [accepts] at h
  split at h
  · contradiction
  · split at h
    · contradiction
    · next hbase =>
        split at h
        · contradiction
        · next hsize => exact ⟨not_not.mp hbase, not_not.mp hsize⟩

/-- What a call that is accepted has written. -/
lemma mtrrConfigure_accepted (h : (mtrrConfigure s base size cacheType).1 = true) :
    base &&& 0xFFF = 0 ∧ size &&& 0xFFF = 0 ∧
      ∃ buffer buffer' : UInt32 × UInt32,
        (mtrrConfigure s base size cacheType).2.msr (0x200 + 2 * s.mtrrPos) =
          physBase s.physLenMask buffer base cacheType ∧
        (mtrrConfigure s base size cacheType).2.msr (0x200 + 2 * s.mtrrPos + 1) =
          physMask s.physLenMask buffer' size := by
  rw [mtrrConfigure] at h ⊢
  split at h
  · cases h
  · next haccept =>
      have hpages := accepts_pages (by simpa using haccept)
      rw [if_neg haccept]
      refine ⟨hpages.1, hpages.2, s.msr (0x200 + 2 * s.mtrrPos),
        s.msr (0x200 + 2 * s.mtrrPos + 1), ?_, ?_⟩
      · have hne : ∀ reg : UInt32, reg ≠ reg + 1 := by simp
        exact (writeMsr_msr_of_ne _ _ (hne _)).trans (writeMsr_msr_self _ _ _)
      · have hne : ∀ reg : UInt32, reg + 1 ≠ reg := by simp
        refine (writeMsr_msr_self _ _ _).trans ?_
        rw [writeMsr_msr_of_ne _ _ (hne _)]
        rfl

/-- With the mask of the address width the pair is exact if the size is a power of two that
divides the base. -/
lemma rangeExact_iff (hlen : IsLenMask w s.physLenMask) (hw : 32 ≤ w)
    (h : (mtrrConfigure s base size cacheType).1 = true) :
    RangeExact w (mtrrConfigure s base size cacheType).2 (0x200 + 2 * s.mtrrPos) base size ↔
      (∃ k, size.toNat = 2 ^ k) ∧ size.toNat ∣ base.toNat := by
  obtain ⟨hbase, hsize, buffer, buffer', hphysBase, hphysMask⟩ := mtrrConfigure_accepted h
  rw [RangeExact, hphysBase, hphysMask, address_physBase hlen hw hbase,
    address_physMask hlen hw hsize]
  have hword : 2 ^ 32 ≤ 2 ^ w := Nat.pow_le_pow_right (by decide) hw
  have hlt := base.toNat_lt
  by_cases hzero : size = 0
  · -- the pair matches the base at least, and the range is empty
    subst hzero
    constructor
    · intro hexact
      have hempty := (hexact base.toNat (by omega)).mp rfl
      simp at hempty
    · intro hpow
      obtain ⟨⟨k, hk⟩, -⟩ := hpow
      exact absurd hk (Nat.two_pow_pos k).ne
  · have hpos : 0 < size.toNat := by
      rw [Nat.pos_iff_ne_zero]
      exact fun hnat => hzero (UInt32.toNat_inj.mp hnat)
    have hlast : lastOffset size + 1 = size.toNat := by
      rw [lastOffset, UInt32.toNat_sub]
      simp only [UInt32.reduceToNat]
      have hsizeLt := size.toNat_lt
      omega
    rw [hlast]
    exact selects_range_iff hpos (size.toNat_lt.le.trans hword) (hlt.trans_le hword)

/-- The register pair of an accepted call matches exactly the addresses of its range if and
only if the size is a power of two that divides the base. -/
theorem ranges_exact_iff (cpu : Cpuid) (s : State) (calls : List Call) (call : Call)
    (hlow : 32 ≤ cpu.width) (hhigh : cpu.width ≤ 44)
    (h : (mtrrConfigure (configured (initMtrr cpu s) calls) call.base call.size
      call.cacheType).1 = true) :
    RangeExact cpu.width
        (mtrrConfigure (configured (initMtrr cpu s) calls) call.base call.size
          call.cacheType).2
        (0x200 + 2 * (configured (initMtrr cpu s) calls).mtrrPos) call.base call.size ↔
      (∃ k, call.size.toNat = 2 ^ k) ∧ call.size.toNat ∣ call.base.toNat := by
  refine rangeExact_iff ?_ hlow h
  rw [configured_physLenMask]
  exact initMtrr_isLenMask s hlow hhigh

/-- Eight register pairs, all of them clear. -/
def cleared : State := ⟨0, 0, 0, 0, fun r => if r = 0xFE then (8, 0) else (0, 0)⟩

theorem ranges_exact_megabyte :
    RangeExact 36
        (mtrrConfigure (configured (initMtrr ⟨0, 0⟩ cleared) []) 0x100000 0x100000
          MTRR_TYPE_WB).2
        (0x200 + 2 * (configured (initMtrr ⟨0, 0⟩ cleared) []).mtrrPos) 0x100000 0x100000 :=
  (ranges_exact_iff ⟨0, 0⟩ cleared [] ⟨0x100000, 0x100000, MTRR_TYPE_WB⟩ (by decide)
    (by decide) (by decide)).mpr ⟨⟨20, rfl⟩, by decide⟩

theorem ranges_not_exact :
    ¬∀ (cpu : Cpuid) (s : State) (calls : List Call) (call : Call),
      32 ≤ cpu.width → cpu.width ≤ 44 →
      (mtrrConfigure (configured (initMtrr cpu s) calls) call.base call.size
        call.cacheType).1 = true →
      RangeExact cpu.width
        (mtrrConfigure (configured (initMtrr cpu s) calls) call.base call.size
          call.cacheType).2
        (0x200 + 2 * (configured (initMtrr cpu s) calls).mtrrPos) call.base call.size := by
  intro h
  have hexact := h ⟨0, 0⟩ cleared [] ⟨0x1000, 0x2000, MTRR_TYPE_WB⟩ (by decide) (by decide)
    (by decide)
  have hlen := @initMtrr_isLenMask ⟨0, 0⟩ cleared (by decide) (by decide)
  have hdvd := ((rangeExact_iff hlen (by decide) (by decide)).mp hexact).2
  exact absurd hdvd (by decide)

end DiegOS.Platform.Mtrr
