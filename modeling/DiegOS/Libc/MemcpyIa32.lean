import DiegOS.Libc.BlockFunctions
import Mathlib.Data.Nat.Bitwise

/-!
# The assembler memcpy

`memcpy_ia32.s`, as functions on the registers, the flags and the memory of the processor, and
what a C caller expects of it beside the plain functions of `ansi`.  All of it holds but for
one register: the copy between blocks of the same alignment counts its last bytes in `ebx`,
which belongs to the caller and is not put back as `edi` and `esi` are.

Main results:

- Theorem `memcpyIa32_spec`: the copy, the registers that are put back, and what `ebx` is.
- Theorem `blockFunctions_iff`: when the fast functions do what the plain ones do.
-/

namespace DiegOS.Libc.Blocks

open Lib (blit fill BlocksApart)

/-! ## The processor -/

/-- The registers that the function uses, the flags it tests and the memory. -/
structure Cpu where
  eax : BitVec 32
  ebx : BitVec 32
  ecx : BitVec 32
  edx : BitVec 32
  esi : BitVec 32
  edi : BitVec 32
  ebp : BitVec 32
  esp : BitVec 32
  eip : BitVec 32
  zf : Bool
  cf : Bool
  df : Bool
  mem : Store

namespace Cpu

/-- The long at `off(%esp)`. -/
def stack (c : Cpu) (off : BitVec 32) : BitVec 32 := loadLong c.mem (c.esp + off)

/-- `xorl %esi, %ecx` -/
def xorEcxEsi (c : Cpu) : Cpu :=
  { c with ecx := c.ecx ^^^ c.esi, zf := c.ecx ^^^ c.esi = 0, cf := false }

/-- `andl $imm, %ecx` -/
def andEcx (c : Cpu) (imm : BitVec 32) : Cpu :=
  { c with ecx := c.ecx &&& imm, zf := c.ecx &&& imm = 0, cf := false }

/-- `andl $imm, %ebx` -/
def andEbx (c : Cpu) (imm : BitVec 32) : Cpu :=
  { c with ebx := c.ebx &&& imm, zf := c.ebx &&& imm = 0, cf := false }

/-- `cmpl $imm, %ecx` -/
def cmpEcx (c : Cpu) (imm : BitVec 32) : Cpu :=
  { c with zf := c.ecx = imm, cf := c.ecx < imm }

/-- `testl $imm, %esi` -/
def testEsi (c : Cpu) (imm : BitVec 32) : Cpu :=
  { c with zf := c.esi &&& imm = 0, cf := false }

/-- `decl %ecx`, which leaves the carry alone. -/
def decEcx (c : Cpu) : Cpu := { c with ecx := c.ecx - 1, zf := c.ecx - 1 = 0 }

/-- `shrl $k, %ecx`: the carry is the last bit that is shifted out. -/
def shrEcx (c : Cpu) (k : Nat) : Cpu :=
  { c with ecx := c.ecx >>> k, zf := c.ecx >>> k = 0, cf := c.ecx.getLsbD (k - 1) }

def cld (c : Cpu) : Cpu := { c with df := false }

/-- What a string instruction adds to its pointers. -/
def stride (c : Cpu) (size : Nat) : BitVec 32 :=
  if c.df then -BitVec.ofNat 32 size else BitVec.ofNat 32 size

/-- `movsb`, `movsw` and `movsl`, for their sizes. -/
def movs (c : Cpu) (size : Nat) : Cpu :=
  { c with
    mem := blit c.mem c.edi c.esi size
    edi := c.edi + c.stride size
    esi := c.esi + c.stride size }

/-- The rounds of `rep movs`. -/
def repeatMovs (c : Cpu) (size : Nat) : Nat → Cpu
  | 0 => c
  | rounds + 1 => repeatMovs { c.movs size with ecx := c.ecx - 1 } size rounds

/-- `rep movsb` and `rep movsl` -/
def repMovs (c : Cpu) (size : Nat) : Cpu := c.repeatMovs size c.ecx.toNat

/-- The arguments of `memcpy (s1, s2, n)`. -/
def s1 (c : Cpu) : BitVec 32 := c.stack 4

@[inherit_doc s1]
def s2 (c : Cpu) : BitVec 32 := c.stack 8

@[inherit_doc s1]
def n (c : Cpu) : Nat := (c.stack 12).toNat

def ret (c : Cpu) : Cpu := { c with eip := c.stack 0, esp := c.esp + 4 }

end Cpu

/-! ## The code -/

/-- `.Lend` -/
def lend (c : Cpu) : Cpu :=
  let c := { c with edi := c.eax }
  let c := { c with esi := c.edx }
  let c := { c with eax := c.stack 4 }
  c.ret

/-- `shrl $1, %ecx`, and the move that `jnc` skips. -/
def shiftMovs (c : Cpu) (size : Nat) : Cpu :=
  let c := c.shrEcx 1
  if c.cf then c.movs size else c

/-- `.Lunaligned` -/
def lunaligned (c : Cpu) : Cpu :=
  let c := shiftMovs c 1
  let c := shiftMovs c 2
  let c := c.repMovs 4
  lend c

/-- The tests of `esi` that copy a byte each up to the first aligned one. -/
def heads (c : Cpu) : Nat → Cpu
  | 0 => c
  | tests + 1 =>
    let c := c.testEsi 3
    if c.zf then c
    else
      let c := c.movs 1
      let c := c.decEcx
      heads c tests

/-- The label that the tests jump to. -/
def aligned (c : Cpu) : Cpu :=
  let c := { c with ebx := c.ecx }
  let c := c.shrEcx 2
  let c := c.andEbx 3
  let c := c.repMovs 4
  let c := { c with ecx := c.ebx }
  let c := c.repMovs 1
  lend c

/-- What comes before the first jump. -/
def entry (c : Cpu) : Cpu :=
  let c := { c with eax := c.edi }
  let c := { c with edx := c.esi }
  let c := { c with edi := c.stack 4 }
  let c := { c with esi := c.stack 8 }
  let c := { c with ecx := c.edi }
  let c := c.xorEcxEsi
  let c := c.andEcx 3
  let c := { c with ecx := c.stack 12 }
  c.cld

/-- `memcpy` -/
def memcpyIa32 (c : Cpu) : Cpu :=
  let c := entry c
  if c.zf = false then lunaligned c
  else
    let c := c.cmpEcx 3
    if c.cf ∨ c.zf then lunaligned c
    else aligned (heads c 3)

/-! ## The copy in progress -/

/-- The first bytes of a block have been copied, and only the registers of the copy have changed. -/
structure Copying (c₀ c : Cpu) (dst src : BitVec 32) (k : Nat) : Prop where
  mem : c.mem = blit c₀.mem dst src k
  edi : c.edi = dst + BitVec.ofNat 32 k
  esi : c.esi = src + BitVec.ofNat 32 k
  eax : c.eax = c₀.edi
  edx : c.edx = c₀.esi
  ebp : c.ebp = c₀.ebp
  esp : c.esp = c₀.esp
  forward : c.df = false

section Copying

variable {c₀ c : Cpu} {dst src : BitVec 32} {k n : Nat}

lemma Copying.movs (size : Nat) (h : Copying c₀ c dst src k) (hforward : Forward dst src n)
    (hn : n < 2 ^ 32) (hk : k + size ≤ n) : Copying c₀ (c.movs size) dst src (k + size) := by
  have hstride : c.stride size = BitVec.ofNat 32 size := by
    rw [Cpu.stride, h.forward, if_neg Bool.false_ne_true]
  exact
    { mem := by
        rw [Cpu.movs, h.mem, h.edi, h.esi]
        have hpart : Forward dst src (k + size) := fun x hx =>
          hforward x (Nat.lt_of_lt_of_le hx hk)
        exact hpart.blit_append (by omega)
      edi := by rw [Cpu.movs, hstride, h.edi, BitVec.ofNat_add, add_assoc]
      esi := by rw [Cpu.movs, hstride, h.esi, BitVec.ofNat_add, add_assoc]
      eax := h.eax
      edx := h.edx
      ebp := h.ebp
      esp := h.esp
      forward := h.forward }

lemma Copying.repeatMovs (size rounds : Nat) (h : Copying c₀ c dst src k)
    (hforward : Forward dst src n) (hn : n < 2 ^ 32) (hk : k + size * rounds ≤ n) :
    Copying c₀ (c.repeatMovs size rounds) dst src (k + size * rounds) := by
  induction rounds generalizing c k with
  | zero => exact h
  | succ rounds ih =>
    have hsplit : k + size * (rounds + 1) = k + size + size * rounds := by
      rw [Nat.mul_succ, Nat.add_assoc, Nat.add_comm size]
    rw [hsplit] at hk ⊢
    have hone := h.movs size hforward hn (by omega)
    exact ih { hone with } hk

lemma repeatMovs_ebx (c : Cpu) (size rounds : Nat) :
    (c.repeatMovs size rounds).ebx = c.ebx := by
  induction rounds generalizing c with
  | zero => rfl
  | succ rounds ih => exact ih _

lemma and_three_eq_zero (v : BitVec 32) : v &&& 3 = 0 ↔ v.toNat % 4 = 0 := by
  rw [← BitVec.toNat_inj, BitVec.toNat_and]
  exact iff_of_eq (congrArg (· = 0) (Nat.and_two_pow_sub_one_eq_mod v.toNat 2))

lemma toNat_offset_mod (p : BitVec 32) (k : Nat) :
    (p + BitVec.ofNat 32 k).toNat % 4 = (p.toNat + k) % 4 := by
  rw [BitVec.toNat_add, BitVec.toNat_ofNat]
  omega

/-- The bytes up to the next aligned address. -/
def toAligned (p : Nat) : Nat := (4 - p % 4) % 4

lemma toAligned_of_aligned {p : Nat} (h : p % 4 = 0) : toAligned p = 0 := by
  rw [toAligned, h]

lemma toAligned_succ {p : Nat} (h : p % 4 ≠ 0) : toAligned p = 1 + toAligned (p + 1) := by
  unfold toAligned
  omega

/-- The tests copy up to the next aligned address, if there are enough of them. -/
lemma heads_spec (tests : Nat) (h : Copying c₀ c dst src k) (hforward : Forward dst src n)
    (hn : n < 2 ^ 32)
    (htests : toAligned (src.toNat + k) ≤ tests) (hk : k + toAligned (src.toNat + k) ≤ n)
    (hecx : k + c.ecx.toNat = n) :
    Copying c₀ (heads c tests) dst src (k + toAligned (src.toNat + k)) ∧
      k + toAligned (src.toNat + k) + (heads c tests).ecx.toNat = n := by
  induction tests generalizing c k with
  | zero =>
    rw [Nat.le_zero.mp htests]
    exact ⟨h, hecx⟩
  | succ tests ih =>
    have hzf : (c.testEsi 3).zf = decide ((src.toNat + k) % 4 = 0) := by
      refine decide_eq_decide.mpr ?_
      rw [and_three_eq_zero, h.esi, toNat_offset_mod]
    rw [heads]
    by_cases hzero : (src.toNat + k) % 4 = 0
    · rw [if_pos (hzf.trans (decide_eq_true hzero)), toAligned_of_aligned hzero]
      exact ⟨{ h with }, hecx⟩
    · rw [if_neg (by rw [hzf, decide_eq_true_iff]; exact hzero), toAligned_succ hzero]
      rw [toAligned_succ hzero] at htests hk
      have htested : Copying c₀ (c.testEsi 3) dst src k := { h with }
      have hone := htested.movs 1 hforward hn (by omega)
      have hdec : (c.ecx - 1).toNat = c.ecx.toNat - 1 :=
        BitVec.toNat_sub_of_le (by rw [BitVec.le_def]; change 1 ≤ _; omega)
      have hdone : Copying c₀ ((c.testEsi 3).movs 1).decEcx dst src (k + 1) := { hone with }
      have hecx' : k + 1 + ((c.testEsi 3).movs 1).decEcx.ecx.toNat = n := by
        change k + 1 + (c.ecx - 1).toNat = n
        omega
      have hrest := ih hdone (show toAligned (src.toNat + k + 1) ≤ tests by omega)
        (show k + 1 + toAligned (src.toNat + k + 1) ≤ n by omega) hecx'
      rwa [Nat.add_assoc k 1, ← Nat.add_assoc src.toNat] at hrest

lemma Copying.shiftMovs (size : Nat) (h : Copying c₀ c dst src k)
    (hforward : Forward dst src n) (hn : n < 2 ^ 32) (hk : k + size * (c.ecx.toNat % 2) ≤ n) :
    Copying c₀ (shiftMovs c size) dst src (k + size * (c.ecx.toNat % 2)) := by
  have hshifted : Copying c₀ (c.shrEcx 1) dst src k := { h with }
  have hcf : (c.shrEcx 1).cf = decide (c.ecx.toNat % 2 = 1) := Nat.testBit_zero _
  rw [Blocks.shiftMovs]
  rcases Nat.mod_two_eq_zero_or_one c.ecx.toNat with hbit | hbit
  · rw [hcf, hbit]
    exact hshifted
  · rw [hbit, Nat.mul_one] at hk ⊢
    rw [hcf, hbit]
    exact hshifted.movs size hforward hn hk

lemma shiftMovs_ecx (c : Cpu) (size : Nat) :
    (shiftMovs c size).ecx.toNat = c.ecx.toNat / 2 := by
  have hhalf : (c.ecx >>> 1).toNat = c.ecx.toNat / 2 := by
    rw [BitVec.toNat_ushiftRight, Nat.shiftRight_eq_div_pow, Nat.pow_one]
  rw [shiftMovs]
  split <;> exact hhalf

lemma shiftMovs_ebx (c : Cpu) (size : Nat) : (shiftMovs c size).ebx = c.ebx := by
  rw [shiftMovs]
  split <;> rfl

end Copying

/-! ## The return -/

/-- The return address and the arguments are not in the destination. -/
def FrameApart (c : Cpu) (dst : BitVec 32) (n : Nat) : Prop :=
  ∀ i < 16, n ≤ (c.esp + BitVec.ofNat 32 i - dst).toNat

/-- What a caller finds but for `ebx`: the block is copied, nothing else is written, the
registers that belong to it are its own, and the destination is returned. -/
structure Copied (c₀ c : Cpu) (dst src : BitVec 32) (n : Nat) : Prop where
  mem : c.mem = blit c₀.mem dst src n
  edi : c.edi = c₀.edi
  esi : c.esi = c₀.esi
  ebp : c.ebp = c₀.ebp
  esp : c.esp = c₀.esp + 4
  eip : FrameApart c₀ dst n → c.eip = c₀.stack 0
  eax : FrameApart c₀ dst n → c.eax = c₀.stack 4

section Return

variable {c₀ c : Cpu} {dst src : BitVec 32} {n : Nat}

/-- A long outside of the destination is left alone. -/
lemma loadLong_blit {m : Store} {p : BitVec 32}
    (h : ∀ i < 4, n ≤ (p + BitVec.ofNat 32 i - dst).toNat) :
    loadLong (blit m dst src n) p = loadLong m p := by
  have hbyte : ∀ i < 4, blit m dst src n (p + BitVec.ofNat 32 i) = m (p + BitVec.ofNat 32 i) :=
    fun i hi => Lib.blit_apply_of_le (h i hi)
  have h₀ := hbyte 0 (by decide)
  have h₁ : blit m dst src n (p + 1) = m (p + 1) := hbyte 1 (by decide)
  have h₂ : blit m dst src n (p + 2) = m (p + 2) := hbyte 2 (by decide)
  have h₃ : blit m dst src n (p + 3) = m (p + 3) := hbyte 3 (by decide)
  rw [BitVec.add_zero] at h₀
  unfold loadLong
  rw [h₀, h₁, h₂, h₃]

lemma Copying.stack (off : Nat) (h : Copying c₀ c dst src n) (hframe : FrameApart c₀ dst n)
    (hoff : off + 4 ≤ 16) : c.stack (BitVec.ofNat 32 off) = c₀.stack (BitVec.ofNat 32 off) := by
  rw [Cpu.stack, Cpu.stack, h.mem, h.esp]
  refine loadLong_blit fun i hi => ?_
  rw [add_assoc, ← BitVec.ofNat_add]
  exact hframe _ (by omega)

lemma lend_spec (h : Copying c₀ c dst src n) : Copied c₀ (lend c) dst src n where
  mem := h.mem
  edi := h.eax
  esi := h.edx
  ebp := h.ebp
  esp := congrArg (· + 4) h.esp
  eip hframe := h.stack 0 hframe (by decide)
  eax hframe := h.stack 4 hframe (by decide)

lemma lunaligned_spec (h : Copying c₀ c dst src 0) (hforward : Forward dst src n)
    (hn : n < 2 ^ 32) (hecx : c.ecx.toNat = n) :
    Copied c₀ (lunaligned c) dst src n ∧ (lunaligned c).ebx = c.ebx := by
  have hbyte := h.shiftMovs 1 hforward hn (by omega)
  have hhalf := shiftMovs_ecx c 1
  have hword := hbyte.shiftMovs 2 hforward hn (by omega)
  have hquarter := shiftMovs_ecx (shiftMovs c 1) 2
  have hrest := hword.repeatMovs 4 (shiftMovs (shiftMovs c 1) 2).ecx.toNat hforward hn (by omega)
  have hall : 0 + 1 * (c.ecx.toNat % 2) + 2 * ((shiftMovs c 1).ecx.toNat % 2) +
      4 * (shiftMovs (shiftMovs c 1) 2).ecx.toNat = n := by
    omega
  rw [hall] at hrest
  refine ⟨lend_spec hrest, ?_⟩
  change (Cpu.repeatMovs _ 4 _).ebx = c.ebx
  rw [repeatMovs_ebx, shiftMovs_ebx, shiftMovs_ebx]

/-- The counter of the last bytes stays in `ebx`. -/
lemma aligned_spec {k : Nat} (h : Copying c₀ c dst src k) (hforward : Forward dst src n)
    (hn : n < 2 ^ 32) (hecx : k + c.ecx.toNat = n) :
    Copied c₀ (aligned c) dst src n ∧ (aligned c).ebx.toNat = c.ecx.toNat % 4 := by
  generalize hsplit : (Cpu.shrEcx { c with ebx := c.ecx } 2).andEbx 3 = c₁
  have hstart : Copying c₀ c₁ dst src k := by
    subst hsplit
    exact { h with }
  have hlongs : c₁.ecx.toNat = c.ecx.toNat / 4 := by
    subst hsplit
    exact (BitVec.toNat_ushiftRight c.ecx 2).trans (Nat.shiftRight_eq_div_pow _ 2)
  have hbytes : c₁.ebx.toNat = c.ecx.toNat % 4 := by
    subst hsplit
    exact (BitVec.toNat_and c.ecx 3).trans (Nat.and_two_pow_sub_one_eq_mod _ 2)
  have hword := hstart.repeatMovs 4 c₁.ecx.toNat hforward hn (by omega)
  have hkept := repeatMovs_ebx c₁ 4 c₁.ecx.toNat
  generalize hmoved : c₁.repMovs 4 = c₂
  have hword' : Copying c₀ { c₂ with ecx := c₂.ebx } dst src (k + 4 * c₁.ecx.toNat) := by
    subst hmoved
    exact { hword with }
  have hcount : c₂.ebx = c₁.ebx := by rw [← hmoved, Cpu.repMovs, hkept]
  have hall := hword'.repeatMovs 1 c₂.ebx.toNat hforward hn (by rw [hcount]; omega)
  have hlength : k + 4 * c₁.ecx.toNat + 1 * c₂.ebx.toNat = n := by
    rw [hcount]
    omega
  rw [hlength] at hall
  have hcode : aligned c = lend (Cpu.repMovs { c₂ with ecx := c₂.ebx } 1) := by
    rw [aligned, ← hmoved, ← hsplit]
  rw [hcode]
  refine ⟨lend_spec hall, ?_⟩
  change (Cpu.repeatMovs _ 1 _).ebx.toNat = _
  rw [repeatMovs_ebx, hcount, hbytes]

/-- The first jump is taken if the pointers have different alignments. -/
lemma entry_zf (c : Cpu) : (entry c).zf = decide (c.s1.toNat % 4 = c.s2.toNat % 4) := by
  refine decide_eq_decide.mpr ?_
  change (c.s1 ^^^ c.s2) &&& 3 = 0 ↔ _
  have hlow : (c.s1.toNat ^^^ c.s2.toNat) % 4 = c.s1.toNat % 4 ^^^ c.s2.toNat % 4 :=
    Nat.xor_mod_two_pow (n := 2)
  rw [and_three_eq_zero, BitVec.toNat_xor, hlow, Nat.xor_eq_zero_iff]

lemma entry_copying (c : Cpu) : Copying c (entry c) c.s1 c.s2 0 where
  mem := (Lib.blit_zero _ _ _).symm
  edi := (BitVec.add_zero _).symm
  esi := (BitVec.add_zero _).symm
  eax := rfl
  edx := rfl
  ebp := rfl
  esp := rfl
  forward := rfl

/-- The second jump is taken for short blocks. -/
lemma cmpEcx_iff (c : Cpu) : (c.cmpEcx 3).cf ∨ (c.cmpEcx 3).zf ↔ c.ecx.toNat ≤ 3 := by
  rw [Cpu.cmpEcx, decide_eq_true_iff, decide_eq_true_iff, BitVec.lt_def, ← BitVec.toNat_inj]
  exact Nat.le_iff_lt_or_eq.symm

/-- The copy goes by longs. -/
def ByLongs (c : Cpu) : Prop := c.s1.toNat % 4 = c.s2.toNat % 4 ∧ 3 < c.n

/-- The copy, and what becomes of `ebx`. -/
theorem memcpyIa32_spec (c : Cpu) (h : BlocksApart c.s1 c.s2 c.n) :
    Copied c (memcpyIa32 c) c.s1 c.s2 c.n ∧
      (ByLongs c → (memcpyIa32 c).ebx.toNat = (c.n - toAligned c.s2.toNat) % 4) ∧
      (¬ByLongs c → (memcpyIa32 c).ebx = c.ebx) := by
  have hforward := forward_of_apart h
  have hn : c.n < 2 ^ 32 := (c.stack 12).isLt
  have hstart := entry_copying c
  have hecx : (entry c).ecx.toNat = c.n := rfl
  rw [memcpyIa32]
  by_cases hsame : c.s1.toNat % 4 = c.s2.toNat % 4
  · have hzf : (entry c).zf = true := (entry_zf c).trans (decide_eq_true hsame)
    have hcompared : Copying c ((entry c).cmpEcx 3) c.s1 c.s2 0 := { hstart with }
    rw [if_neg (by rw [hzf]; decide)]
    by_cases hle : c.n ≤ 3
    · obtain ⟨hcopied, hebx⟩ := lunaligned_spec hcompared hforward hn hecx
      rw [if_pos ((cmpEcx_iff (entry c)).mpr hle)]
      exact ⟨hcopied, fun hlongs => absurd hlongs.2 (Nat.not_lt.mpr hle), fun _ => hebx⟩
    · have hfew : toAligned c.s2.toNat ≤ 3 := Nat.le_of_lt_succ (Nat.mod_lt _ (by decide))
      obtain ⟨hheads, hcount⟩ := heads_spec 3 hcompared hforward hn hfew
        (by rw [Nat.zero_add, Nat.add_zero]; omega) (by rw [Nat.zero_add]; exact hecx)
      obtain ⟨hcopied, hebx⟩ := aligned_spec hheads hforward hn hcount
      rw [if_neg (mt (cmpEcx_iff (entry c)).mp hle)]
      refine ⟨hcopied, fun _ => hebx.trans ?_, fun hshort => absurd ⟨hsame, ?_⟩ hshort⟩
      · rw [← Nat.sub_eq_of_eq_add' hcount.symm, Nat.zero_add, Nat.add_zero]
      · exact Nat.not_le.mp hle
  · have hzf : (entry c).zf = false := (entry_zf c).trans (decide_eq_false hsame)
    obtain ⟨hcopied, hebx⟩ := lunaligned_spec hstart hforward hn hecx
    rw [if_pos hzf]
    exact ⟨hcopied, fun hlongs => absurd hlongs.1 hsame, fun _ => hebx⟩

end Return

/-! ## Fast and plain functions -/

/-- The fast functions store what the plain ones store, and the one in assembler returns with the
registers of its caller. -/
structure Plain (c : Cpu) : Prop where
  memcpyIa32 : Copied c (memcpyIa32 c) c.s1 c.s2 c.n
  ebx : (Blocks.memcpyIa32 c).ebx = c.ebx
  memcpy : ∀ (m : Store) (s ct : BitVec 32) (n : Nat), s ≠ 0 → ct ≠ 0 → n < 2 ^ 32 →
    BlocksApart s ct n → memcpy m s ct n = (blit m s ct n, s)
  memset : ∀ (m : Store) (s ch : BitVec 32) (n : Nat), s ≠ 0 → n < 2 ^ 32 →
    memset m s ch n = (fill m s (ch.setWidth 8) n, s)
  memmove : ∀ (m : Store) (s ct : BitVec 32) (n : Nat), s ≠ 0 → ct ≠ 0 →
    s.toNat + n ≤ 2 ^ 32 → ct.toNat + n ≤ 2 ^ 32 → memmove m s ct n = (blit m s ct n, s)

/-- The block functions are the plain ones, unless the copy by longs changes `ebx`. -/
theorem blockFunctions_iff (c : Cpu) (h : BlocksApart c.s1 c.s2 c.n) :
    Plain c ↔ (ByLongs c → c.ebx.toNat = (c.n - toAligned c.s2.toNat) % 4) := by
  obtain ⟨hcopied, hlongs, hshort⟩ := memcpyIa32_spec c h
  constructor
  · intro hplain hby
    rw [← hplain.ebx, hlongs hby]
  · intro hebx
    refine
      { memcpyIa32 := hcopied
        ebx := ?_
        memcpy := fun m _ _ _ hs hct hn hapart => memcpy_eq m hs hct hn hapart
        memset := fun m _ ch _ hs hn => memset_eq m ch hs hn
        memmove := fun m _ _ _ hs hct hsn hctn => memmove_eq m hs hct hsn hctn }
    by_cases hby : ByLongs c
    · exact BitVec.eq_of_toNat_eq ((hlongs hby).trans (hebx hby).symm)
    · exact hshort hby

/-- A call that copies four aligned bytes. -/
def callFour (ebx : BitVec 32) : Cpu where
  eax := 0
  ebx := ebx
  ecx := 0
  edx := 0
  esi := 5
  edi := 6
  ebp := 7
  esp := 0x3000
  eip := 0
  zf := false
  cf := false
  df := false
  mem := storeLong (storeLong (storeLong (fun _ => 0) 0x3004 0x1000) 0x3008 0x2000) 0x300c 4

theorem plain_callFour : Plain (callFour 0) :=
  (blockFunctions_iff (callFour 0) (by unfold BlocksApart; decide +kernel)).mpr fun _ => by
    decide +kernel

/-- The caller's one is gone. -/
theorem not_plain_callFour : ¬∀ c : Cpu, BlocksApart c.s1 c.s2 c.n → Plain c := by
  intro hplain
  have hkept := (hplain (callFour 1) (by unfold BlocksApart; decide +kernel)).ebx
  have hzero : (memcpyIa32 (callFour 1)).ebx = 0 := by decide +kernel
  rw [hzero] at hkept
  exact absurd hkept (by decide)

end DiegOS.Libc.Blocks
