import Mathlib.Tactic

/-!
# Byte memories

A byte memory is a total map from addresses to bytes: the storage of a block
device, or the memory seen from a `char` pointer.  The two block moves of
the C library are pointwise updates of such a map, and every fact about them is
an address-by-address case split.

Main results:

- Theorems `memcpy_apply_mem` and `memcpy_apply_not_mem`: a copied
  range reads back the source, and everything else is framed.
- Theorem `memcpy_append`: copies of adjacent ranges join.
- Theorems `writeBlocks_apply_mem` and `writeBlocks_apply_not_mem`: after a
  sequence of block writes a block holds what was written to it, and blocks no
  write names are framed.
- Theorems `le16_put` and `le32_put`: little-endian words survive the
  round trip through their bytes.
-/

namespace DiegOS.Lib

/-- Memory seen from a byte pointer. -/
abbrev Bytes := Nat → UInt8

/-- Copy `n` bytes of `src` from offset `s` to offset `d` of `dst`. -/
def memcpy (dst : Bytes) (d : Nat) (src : Bytes) (s n : Nat) : Bytes :=
  fun a => if d ≤ a ∧ a < d + n then src (s + (a - d)) else dst a

/-- Fill `n` bytes from offset `d` on with one value. -/
def memset (dst : Bytes) (d : Nat) (v : UInt8) (n : Nat) : Bytes :=
  fun a => if d ≤ a ∧ a < d + n then v else dst a

/-- Pointer arithmetic: the memory seen `d` bytes further on. -/
def shift (b : Bytes) (d : Nat) : Bytes := fun a => b (d + a)

/-- The memory that starts with the given bytes and is zero afterwards. -/
def ofList (l : List UInt8) : Bytes := fun a => l.getD a 0

@[simp]
lemma shift_apply (b : Bytes) (d a : Nat) : shift b d a = b (d + a) :=
  rfl

theorem memcpy_apply_mem {dst src : Bytes} {d s n a : Nat} (hlo : d ≤ a) (hhi : a < d + n) :
    memcpy dst d src s n a = src (s + (a - d)) := by
  simp [memcpy, hlo, hhi]

theorem memcpy_apply_not_mem {dst src : Bytes} {d s n a : Nat} (h : a < d ∨ d + n ≤ a) :
    memcpy dst d src s n a = dst a := by
  have hout : ¬(d ≤ a ∧ a < d + n) := by omega
  simp [memcpy, hout]

lemma memset_apply_not_mem {dst : Bytes} {d n a : Nat} {v : UInt8}
    (h : a < d ∨ d + n ≤ a) : memset dst d v n a = dst a := by
  have hout : ¬(d ≤ a ∧ a < d + n) := by omega
  simp [memset, hout]

/-- Two copies of adjacent ranges are one copy. -/
theorem memcpy_append (dst src : Bytes) (d s n m : Nat) :
    memcpy (memcpy dst d src s n) (d + n) src (s + n) m = memcpy dst d src s (n + m) := by
  funext a
  unfold memcpy
  by_cases hfirst : d ≤ a ∧ a < d + n
  · rw [if_neg (by omega), if_pos hfirst, if_pos (by omega)]
  · by_cases hsecond : d + n ≤ a ∧ a < d + n + m
    · rw [if_pos hsecond, if_pos (by omega)]
      congr 1
      omega
    · rw [if_neg hsecond, if_neg hfirst, if_neg (by omega)]

/-- A copy depends only on the copied range. -/
lemma memcpy_congr {dst src src' : Bytes} {d s s' n : Nat}
    (h : ∀ j < n, src (s + j) = src' (s' + j)) : memcpy dst d src s n = memcpy dst d src' s' n := by
  funext a
  unfold memcpy
  split <;> rename_i hin
  · exact h (a - d) (by omega)
  · rfl

@[simp]
lemma memcpy_zero (dst src : Bytes) (d s : Nat) : memcpy dst d src s 0 = dst := by
  funext a
  exact if_neg (by omega)

/-! ## Block writes -/

/-- Write whole blocks of `bs` bytes, in order. -/
def writeBlocks (bs : Nat) : Bytes → List (Nat × Bytes) → Bytes
  | m, [] => m
  | m, w :: ws => writeBlocks bs (memcpy m (w.1 * bs) w.2 0 bs) ws

lemma writeBlocks_cons (bs : Nat) (m buf : Bytes) (x : Nat) (ws : List (Nat × Bytes)) :
    writeBlocks bs m ((x, buf) :: ws) = writeBlocks bs (memcpy m (x * bs) buf 0 bs) ws :=
  rfl

lemma writeBlocks_append (bs : Nat) (m : Bytes) (ws vs : List (Nat × Bytes)) :
    writeBlocks bs m (ws ++ vs) = writeBlocks bs (writeBlocks bs m ws) vs := by
  induction ws generalizing m with
  | nil => rfl
  | cons w ws ih => exact ih _

/-- Writing one block keeps the others. -/
lemma memcpy_block_ne {m buf : Bytes} {bs b x j : Nat} (hne : b ≠ x) (hj : j < bs) :
    memcpy m (b * bs) buf 0 bs (x * bs + j) = m (x * bs + j) := by
  refine memcpy_apply_not_mem ?_
  rcases Nat.lt_or_gt_of_ne hne with hlt | hlt
  · right
    have hmul := Nat.mul_le_mul_right bs hlt
    rw [Nat.succ_mul] at hmul
    omega
  · left
    have hmul := Nat.mul_le_mul_right bs hlt
    rw [Nat.succ_mul] at hmul
    omega

/-- A block no write names keeps its bytes. -/
theorem writeBlocks_apply_not_mem {bs : Nat} {m : Bytes} {ws : List (Nat × Bytes)} {x j : Nat}
    (hx : ∀ w ∈ ws, w.1 ≠ x) (hj : j < bs) : writeBlocks bs m ws (x * bs + j) = m (x * bs + j) := by
  induction ws generalizing m with
  | nil => rfl
  | cons w ws ih =>
    rw [writeBlocks, ih fun v hv => hx v (.tail _ hv)]
    exact memcpy_block_ne (hx w (.head _)) hj

/-- A block holds the byte that all writes to it agree on. -/
theorem writeBlocks_apply_mem {bs : Nat} {m : Bytes} {ws : List (Nat × Bytes)} {x j : Nat}
    {v : UInt8} (hmem : ∃ w ∈ ws, w.1 = x) (hall : ∀ w ∈ ws, w.1 = x → w.2 j = v) (hj : j < bs) :
    writeBlocks bs m ws (x * bs + j) = v := by
  induction ws generalizing m with
  | nil => simp at hmem
  | cons w ws ih =>
    rw [writeBlocks]
    by_cases hrest : ∃ v ∈ ws, v.1 = x
    · exact ih hrest fun v hv => hall v (.tail _ hv)
    · -- The first write is the last one to the block.
      have hw : w.1 = x := by
        obtain ⟨v, hv, hvx⟩ := hmem
        rcases List.mem_cons.mp hv with rfl | hv
        · exact hvx
        · exact absurd ⟨v, hv, hvx⟩ hrest
      rw [writeBlocks_apply_not_mem (fun v hv hvx => hrest ⟨v, hv, hvx⟩) hj, hw,
        memcpy_apply_mem (by omega) (by omega), Nat.add_sub_cancel_left, Nat.zero_add]
      exact hall w List.mem_cons_self hw

/-! ## Little-endian words -/

/-- The `i`-th byte of a number, least significant first. -/
def byteOf (n i : Nat) : UInt8 := UInt8.ofNat (n / 256 ^ i)

/-- The 16-bit word stored at an offset. -/
def le16 (b : Bytes) (o : Nat) : Nat := (b o).toNat + 256 * (b (o + 1)).toNat

/-- The 32-bit word stored at an offset. -/
def le32 (b : Bytes) (o : Nat) : Nat := le16 b o + 65536 * le16 b (o + 2)

lemma le16_lt (b : Bytes) (o : Nat) : le16 b o < 2 ^ 16 := by
  have h0 := (b o).toNat_lt
  have h1 := (b (o + 1)).toNat_lt
  unfold le16
  omega

/-- A 16-bit word is recovered from its two bytes. -/
theorem le16_put {b : Bytes} {o n : Nat} (hn : n < 2 ^ 16)
    (h0 : b o = byteOf n 0) (h1 : b (o + 1) = byteOf n 1) : le16 b o = n := by
  simp only [le16, h0, h1, byteOf, UInt8.toNat_ofNat']
  omega

/-- A 32-bit word is recovered from its four bytes. -/
theorem le32_put {b : Bytes} {o n : Nat} (hn : n < 2 ^ 32)
    (h : ∀ i < 4, b (o + i) = byteOf n i) : le32 b o = n := by
  have h0 := h 0 (by omega)
  have h1 := h 1 (by omega)
  have h2 := h 2 (by omega)
  have h3 := h 3 (by omega)
  simp only [le32, le16, add_assoc, Nat.reduceAdd] at *
  simp only [add_zero] at h0
  simp only [h0, h1, h2, h3, byteOf, UInt8.toNat_ofNat']
  omega

end DiegOS.Lib
