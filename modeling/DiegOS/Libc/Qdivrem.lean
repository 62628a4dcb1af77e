import DiegOS.Lib.LongDivision
import DiegOS.Lib.WhileLoops
import Mathlib.Logic.Function.Basic
import Mathlib.Tactic.SplitIfs

/-!
# Division of quads

`qdivrem.c`: 64-bit numbers are divided in digits of 16 bits by the program D, which estimates
each digit of the quotient from the first digits of both numbers and repairs the estimate.  All
intermediate values are words of 32 bits.

Main results:

- Theorem `trial_spec`: an estimate is the digit or the digit's successor.
- Theorem `divDigit_spec`: one round gives the digit of the quotient and leaves the remainder.
- Theorem `qdivrem_eq`: the quotient and the remainder are those of the numbers.
-/

namespace DiegOS.Libc

open Lib

/-! ## The code -/

/-- An array of type `digit`. -/
abbrev Digits := Nat → UInt16

def B : UInt32 := 65536

def HHALF (x : UInt32) : UInt32 := x >>> 16

def LHALF (x : UInt32) : UInt32 := x &&& 65535

def COMBINE (a b : UInt32) : UInt32 := (a <<< 16) ||| b

/-- The half of a quad at `H`. -/
def ulH (q : UInt64) : UInt32 := (q >>> 32).toUInt32

/-- The half of a quad at `L`. -/
def ulL (q : UInt64) : UInt32 := q.toUInt32

/-- A quad of two halves. -/
def quad (h l : UInt32) : UInt64 := (h.toUInt64 <<< 32) ||| l.toUInt64

namespace Digits

/-- A digit as an operand. -/
def get (p : Digits) (i : Nat) : UInt32 := (p i).toUInt32

/-- A value cast to a digit and stored. -/
def put (p : Digits) (i : Nat) (x : UInt32) : Digits := Function.update p i x.toUInt16

/-- The digits of a quad behind a first digit that is zero. -/
def ofQuad (q : UInt64) : Digits
  | 1 => (HHALF (ulH q)).toUInt16
  | 2 => (LHALF (ulH q)).toUInt16
  | 3 => (HHALF (ulL q)).toUInt16
  | 4 => (LHALF (ulL q)).toUInt16
  | _ => 0

/-- The quad of the digits 1 to 4. -/
def toQuad (p : Digits) : UInt64 :=
  quad (COMBINE (p.get 1) (p.get 2)) (COMBINE (p.get 3) (p.get 4))

end Digits

open Digits

/-- The loops that pass the leading zeros of `u` and `v`: the digits that may still be zero and
the place of the pointer.  None if all digits are zero. -/
def skipZeros (p : Digits) : Nat → Nat → Option (Nat × Nat)
  | 0, place => if p.get (place + 1) = 0 then none else some (0, place)
  | m + 1, place =>
    if p.get (place + 1) = 0 then skipZeros p m (place + 1) else some (m + 1, place)

/-- The division by the one digit `t`. -/
def shortDivision (u : Digits) (t : UInt32) : UInt64 × UInt64 :=
  let q1 := u.get 1 / t
  let rbj := COMBINE (u.get 1 % t) (u.get 2)
  let q2 := rbj / t
  let rbj := COMBINE (rbj % t) (u.get 3)
  let q3 := rbj / t
  let rbj := COMBINE (rbj % t) (u.get 4)
  let q4 := rbj / t
  (quad (COMBINE (LHALF q1) (LHALF q2)) (COMBINE (LHALF q3) (LHALF q4)), (rbj % t).toUInt64)

/-- A round of the loop of D1: `t` and `d`. -/
def normRound : UInt32 × UInt32 → UInt32 × UInt32 ⊕ UInt32
  | (t, d) => if t < B / 2 then .inl (t <<< 1, d + 1) else .inr d

/-- `shl` at the digit `a` -/
def shl (sh : UInt32) : Nat → Nat → Digits → Digits
  | 0, a, p => p.put a (LHALF (p.get a <<< sh))
  | len + 1, a, p =>
    shl sh len (a + 1)
      (p.put a (LHALF (p.get a <<< sh) ||| (p.get (a + 1) >>> (16 - sh))))

/-- The label `qhat_too_big`. -/
def qhatTooBig (v1 : UInt32) : UInt32 × UInt32 → UInt32 × UInt32 ⊕ UInt32
  | (qhat, rhat) => if B ≤ rhat + v1 then .inr (qhat - 1) else .inl (qhat - 1, rhat + v1)

/-- A round of the loop of D3: `qhat` and `rhat`. -/
def trialRound (v1 v2 uj2 : UInt32) : UInt32 × UInt32 → UInt32 × UInt32 ⊕ UInt32
  | (qhat, rhat) =>
    if COMBINE rhat uj2 < v2 * qhat then qhatTooBig v1 (qhat, rhat) else .inr qhat

/-- D3: `qhat`. -/
def trial (v1 v2 uj0 uj1 uj2 : UInt32) : Option UInt32 :=
  if uj0 = v1 then
    match qhatTooBig v1 (B, uj1) with
    | .inl s => runFor (trialRound v1 v2 uj2) 2 s
    | .inr qhat => some qhat
  else
    let nn := COMBINE uj0 uj1
    runFor (trialRound v1 v2 uj2) 2 (nn / v1, nn % v1)

/-- D4: the digits behind `u[k]` less `qhat` times those behind `v[l]`, and the borrow. -/
def mulSub (v : Digits) (l : Nat) (qhat : UInt32) (k : Nat) :
    Nat → UInt32 → Digits → Digits × UInt32
  | 0, t, u => (u, t)
  | i + 1, t, u =>
    let t := u.get (k + 1 + i) - v.get (l + 1 + i) * qhat - t
    mulSub v l qhat k i ((B - HHALF t) &&& (B - 1)) (u.put (k + 1 + i) (LHALF t))

/-- D6: the digits behind `v[l]` are added to those behind `u[k]`. -/
def addBack (v : Digits) (l k : Nat) : Nat → UInt32 → Digits → Digits × UInt32
  | 0, t, u => (u, t)
  | i + 1, t, u =>
    let t := t + (u.get (k + 1 + i) + v.get (l + 1 + i))
    addBack v l k i (HHALF t) (u.put (k + 1 + i) (LHALF t))

/-- A round of the loop over `j`: `u[j]` is at `k` and `q[j]` at `k + n`. -/
def divDigit (v : Digits) (l n k : Nat) (u q : Digits) : Option (Digits × Digits) := do
  let qhat ← trial (v.get (l + 1)) (v.get (l + 2)) (u.get k) (u.get (k + 1)) (u.get (k + 2))
  let (u, t) := mulSub v l qhat k n 0 u
  let t := u.get k - t
  let u := u.put k (LHALF t)
  if HHALF t ≠ 0 then
    let (u, t) := addBack v l k n 0 u
    some (u.put k (LHALF (u.get k + t)), q.put (k + n) (qhat - 1))
  else
    some (u, q.put (k + n) qhat)

/-- The loop over `j`. -/
def divLoop (v : Digits) (l n : Nat) : Nat → Nat → Digits → Digits → Option (Digits × Digits)
  | 0, _, u, q => some (u, q)
  | c + 1, k, u, q => do
    let (u, q) ← divDigit v l n k u q
    divLoop v l n c (k + 1) u q

/-- The loop that shifts the remainder back behind `u[k]`. -/
def shr (d : UInt32) (k : Nat) : Nat → Digits → Digits
  | 0, u => u.put k 0
  | i + 1, u =>
    shr d k i
      (u.put (k + 1 + i) ((u.get (k + 1 + i) >>> d) ||| LHALF (u.get (k + i) <<< (16 - d))))

/-- The program D for a divisor of `n` digits behind `v[l]` and a dividend of `m + n` digits
behind `u[k]`: the digits of the remainder and of the quotient. -/
def programD (v : Digits) (l n : Nat) (u : Digits) (k m : Nat) (q : Digits) :
    Option (Digits × Digits) := do
  let q := fun i => if i < 4 - m then 0 else q i
  let d ← runFor normRound 16 (v.get (l + 1), 0)
  let v := if 0 < d then shl d (n - 1) (l + 1) v else v
  let u := if 0 < d then shl d (m + n) k u else u
  let (u, q) ← divLoop v l n (m + 1) k u q
  some (if 0 < d then shr d (k + m) n u else u, q)

/-- `__qdivrem`, with what is in the digits of the quotient before; none if it divides by
zero.  The remainder is computed for a pointer `arq` only. -/
def qdivrem (qspace : Digits) (uq vq : UInt64) (arq : Bool) : Option (UInt64 × Option UInt64) :=
  if vq = 0 then none
  else if uq < vq then some (0, if arq then some uq else none)
  else do
    let u := ofQuad uq
    let v := ofQuad vq
    let (q, r) ← match skipZeros v 2 0 with
      | none => some (shortDivision u (v.get 4))
      | some (n, l) => do
        let (m, k) ← skipZeros u (2 - n) 0
        let (u, q) ← programD v l (n + 2) u k m qspace
        some (q.toQuad, u.toQuad)
    some (q, if arq then some r else none)

/-! ## Words and digits -/

lemma toNat_HHALF (x : UInt32) : (HHALF x).toNat = x.toNat / 65536 := by
  rw [HHALF, UInt32.toNat_shiftRight, show (16 : UInt32).toNat % 32 = 16 from rfl,
    Nat.shiftRight_eq_div_pow]

lemma toNat_LHALF (x : UInt32) : (LHALF x).toNat = x.toNat % 65536 := by
  rw [LHALF, UInt32.toNat_and]
  exact Nat.and_two_pow_sub_one_eq_mod x.toNat 16

lemma LHALF_lt (x : UInt32) : (LHALF x).toNat < 65536 := by
  rw [toNat_LHALF]
  exact Nat.mod_lt _ (by decide)

/-- Bits that do not overlap are added. -/
lemma shiftLeft_or {a b s : Nat} (hb : b < 2 ^ s) : a <<< s ||| b = a * 2 ^ s + b := by
  rw [← Nat.shiftLeft_add_eq_or_of_lt hb, Nat.shiftLeft_eq]

lemma toNat_COMBINE {a b : UInt32} (ha : a.toNat < 65536) (hb : b.toNat < 65536) :
    (COMBINE a b).toNat = a.toNat * 65536 + b.toNat := by
  have hshift : (a <<< 16).toNat = a.toNat <<< 16 := by
    rw [UInt32.toNat_shiftLeft, show (16 : UInt32).toNat % 32 = 16 from rfl, Nat.shiftLeft_eq,
      Nat.mod_eq_of_lt (by omega)]
  rw [COMBINE, UInt32.toNat_or, hshift, shiftLeft_or (s := 16) hb]
  omega

lemma toNat_quad (h l : UInt32) : (quad h l).toNat = h.toNat * 2 ^ 32 + l.toNat := by
  have hh := h.toNat_lt
  have hl := l.toNat_lt
  have hshift : (h.toUInt64 <<< 32).toNat = h.toNat <<< 32 := by
    rw [UInt64.toNat_shiftLeft, UInt32.toNat_toUInt64,
      show (32 : UInt64).toNat % 64 = 32 from rfl, Nat.shiftLeft_eq, Nat.mod_eq_of_lt (by omega)]
  rw [quad, UInt64.toNat_or, hshift, UInt32.toNat_toUInt64, shiftLeft_or hl]

lemma toNat_ulH (q : UInt64) : (ulH q).toNat = q.toNat / 2 ^ 32 := by
  have hq := q.toNat_lt
  have hshift : (q >>> 32).toNat = q.toNat / 2 ^ 32 := by
    rw [UInt64.toNat_shiftRight, show (32 : UInt64).toNat % 64 = 32 from rfl,
      Nat.shiftRight_eq_div_pow]
  rw [ulH, UInt64.toNat_toUInt32, hshift]
  omega

lemma toNat_ulL (q : UInt64) : (ulL q).toNat = q.toNat % 2 ^ 32 := UInt64.toNat_toUInt32 q

namespace Digits

variable {p : Digits} {i j a n : Nat} {x : UInt32}

@[simp] lemma toNat_get (p : Digits) (i : Nat) : (p.get i).toNat = (p i).toNat :=
  UInt16.toNat_toUInt32 _

lemma get_lt (p : Digits) (i : Nat) : (p.get i).toNat < 65536 := by
  rw [toNat_get]
  exact (p i).toNat_lt

lemma toNat_put_self (hx : x.toNat < 65536) : (p.put i x i).toNat = x.toNat := by
  rw [put, Function.update_self, UInt32.toNat_toUInt16]
  exact Nat.mod_eq_of_lt hx

lemma put_of_ne (h : j ≠ i) : p.put i x j = p j := Function.update_of_ne h _ _

/-- The number that some digits write. -/
def num (p : Digits) (a n : Nat) : Nat := digitsFrom 65536 (fun i => (p i).toNat) a n

lemma num_succ_last : p.num a (n + 1) = p.num a n * 65536 + (p (a + n)).toNat := rfl

lemma num_add (m n : Nat) : p.num a (m + n) = p.num a m * 65536 ^ n + p.num (a + m) n :=
  digitsFrom_add m n

lemma num_succ : p.num a (n + 1) = (p a).toNat * 65536 ^ n + p.num (a + 1) n :=
  digitsFrom_succ n

lemma num_lt : p.num a n < 65536 ^ n := digitsFrom_lt fun i _ => (p (a + i)).toNat_lt

lemma num_congr {p' : Digits} (h : ∀ i, a ≤ i → i < a + n → p i = p' i) :
    p.num a n = p'.num a n :=
  digitsFrom_congr fun i hi => congrArg UInt16.toNat (h (a + i) (by omega) (by omega))

lemma num_zeros {m : Nat} (h : ∀ i, a ≤ i → i < a + m → p i = 0) (n : Nat) :
    p.num a (m + n) = p.num (a + m) n :=
  digitsFrom_zeros (fun i hi => congrArg UInt16.toNat (h (a + i) (by omega) (by omega))) n

lemma num_four : p.num 1 4 =
    (((p 1).toNat * 65536 + (p 2).toNat) * 65536 + (p 3).toNat) * 65536 + (p 4).toNat := by
  simp only [num, digitsFrom, Nat.zero_mul, Nat.zero_add, Nat.reduceAdd]

lemma toNat_toQuad (p : Digits) : p.toQuad.toNat = p.num 1 4 := by
  rw [toQuad, toNat_quad, toNat_COMBINE (get_lt p 1) (get_lt p 2),
    toNat_COMBINE (get_lt p 3) (get_lt p 4), num_four]
  simp only [toNat_get]
  omega

lemma num_ofQuad (q : UInt64) : (ofQuad q).num 1 4 = q.toNat := by
  have hq := q.toNat_lt
  have hhigh := toNat_HHALF (ulH q)
  have hhigh' := toNat_LHALF (ulH q)
  have hlow := toNat_HHALF (ulL q)
  have hlow' := toNat_LHALF (ulL q)
  rw [toNat_ulH] at hhigh hhigh'
  rw [toNat_ulL] at hlow hlow'
  rw [num_four]
  simp only [ofQuad, UInt32.toNat_toUInt16, hhigh, hhigh', hlow, hlow']
  omega

end Digits

/-! ## Multiply and subtract -/

variable {u v q : Digits} {l k n : Nat} {qhat rhat v1 v2 uj0 uj1 uj2 : UInt32}

/-- A digit less a product and a borrow. -/
lemma sub_digit {x p t : UInt32} (hx : x.toNat < 65536) (hp : p.toNat ≤ 65535 * 65535)
    (ht : t.toNat < 65536) :
    (LHALF (x - p - t)).toNat + p.toNat + t.toNat =
        x.toNat + 65536 * ((B - HHALF (x - p - t)) &&& (B - 1)).toNat ∧
      ((B - HHALF (x - p - t)) &&& (B - 1)).toNat < 65536 := by
  have hand : ((B - HHALF (x - p - t)) &&& (B - 1)).toNat =
      (65536 - (x - p - t).toNat / 65536) % 65536 := by
    have hlt := (x - p - t).toNat_lt
    rw [UInt32.toNat_and, UInt32.toNat_sub, toNat_HHALF, show B.toNat = 65536 from rfl,
      show (B - 1).toNat = 2 ^ 16 - 1 from rfl, Nat.and_two_pow_sub_one_eq_mod]
    omega
  rw [hand, toNat_LHALF, UInt32.toNat_sub, UInt32.toNat_sub]
  omega

/-- A product of digits fits in a word. -/
lemma toNat_mul_digits {x y : UInt32} (hx : x.toNat < 65536) (hy : y.toNat < 65536) :
    (x * y).toNat = x.toNat * y.toNat ∧ x.toNat * y.toNat ≤ 65535 * 65535 := by
  have hle : x.toNat * y.toNat ≤ 65535 * 65535 :=
    Nat.mul_le_mul (Nat.le_of_lt_succ hx) (Nat.le_of_lt_succ hy)
  refine ⟨?_, hle⟩
  rw [UInt32.toNat_mul]
  exact Nat.mod_eq_of_lt (Nat.lt_of_le_of_lt hle (by decide))

/-- The digits behind the one at `k` are replaced, all others stay. -/
def Behind (k n : Nat) (u u' : Digits) : Prop := ∀ i, i ≤ k ∨ k + n < i → u' i = u i

/-- A pass has stored its last digit before the others. -/
lemma Behind.put {u' : Digits} {x : UInt32} (hx : x.toNat < 65536)
    (h : Behind k n (u.put (k + 1 + n) x) u') :
    u'.num (k + 1) (n + 1) = u'.num (k + 1) n * 65536 + x.toNat ∧
      (u.put (k + 1 + n) x).num (k + 1) n = u.num (k + 1) n ∧ Behind k (n + 1) u u' := by
  refine ⟨?_, num_congr fun i _ _ => put_of_ne (by omega), fun i hi => ?_⟩
  · rw [num_succ_last, h _ (.inr (by omega)), toNat_put_self hx]
  · rw [h i (by omega), put_of_ne (by omega)]

lemma mulSub_spec (hqhat : qhat.toNat < 65536) (n : Nat) : ∀ (t : UInt32) (u : Digits),
    t.toNat < 65536 →
      (mulSub v l qhat k n t u).1.num (k + 1) n + qhat.toNat * v.num (l + 1) n + t.toNat =
          u.num (k + 1) n + (mulSub v l qhat k n t u).2.toNat * 65536 ^ n ∧
        (mulSub v l qhat k n t u).2.toNat < 65536 ∧
        Behind k n u (mulSub v l qhat k n t u).1 := by
  induction n with
  | zero =>
    intro t u ht
    rw [mulSub]
    exact ⟨by simp only [num, digitsFrom, pow_zero]; omega, ht, fun i _ => rfl⟩
  | succ n ih =>
    intro t u ht
    obtain ⟨hmul, hle⟩ := toNat_mul_digits (get_lt v (l + 1 + n)) hqhat
    obtain ⟨hdigit, hborrow⟩ := sub_digit (get_lt u (k + 1 + n)) (hmul.le.trans hle) ht
    rw [mulSub]
    generalize u.get (k + 1 + n) - v.get (l + 1 + n) * qhat - t = t' at hdigit hborrow ⊢
    obtain ⟨hsum, hlt, hrest⟩ := ih _ (u.put (k + 1 + n) (LHALF t')) hborrow
    obtain ⟨hlast, hkept, hall⟩ := hrest.put (LHALF_lt t')
    refine ⟨?_, hlt, hall⟩
    rw [hlast, num_succ_last, num_succ_last, pow_succ, ← Nat.mul_assoc, Nat.mul_add,
      ← Nat.mul_assoc]
    rw [hkept] at hsum
    rw [hmul, toNat_get, toNat_get, Nat.mul_comm (v (l + 1 + n)).toNat] at hdigit
    omega

lemma addBack_spec (n : Nat) : ∀ (t : UInt32) (u : Digits), t.toNat ≤ 1 →
    (addBack v l k n t u).1.num (k + 1) n + (addBack v l k n t u).2.toNat * 65536 ^ n =
        u.num (k + 1) n + v.num (l + 1) n + t.toNat ∧
      (addBack v l k n t u).2.toNat ≤ 1 ∧ Behind k n u (addBack v l k n t u).1 := by
  induction n with
  | zero =>
    intro t u ht
    rw [addBack]
    exact ⟨by simp only [num, digitsFrom, pow_zero]; omega, ht, fun i _ => rfl⟩
  | succ n ih =>
    intro t u ht
    have hu := get_lt u (k + 1 + n)
    have hv := get_lt v (l + 1 + n)
    have hadd : (t + (u.get (k + 1 + n) + v.get (l + 1 + n))).toNat =
        t.toNat + ((u.get (k + 1 + n)).toNat + (v.get (l + 1 + n)).toNat) := by
      rw [UInt32.toNat_add, UInt32.toNat_add]
      omega
    rw [addBack]
    generalize t + (u.get (k + 1 + n) + v.get (l + 1 + n)) = t' at hadd ⊢
    have hcarry := toNat_HHALF t'
    have hdigit := toNat_LHALF t'
    obtain ⟨hsum, hlt, hrest⟩ := ih (HHALF t') (u.put (k + 1 + n) (LHALF t')) (by omega)
    obtain ⟨hlast, hkept, hall⟩ := hrest.put (LHALF_lt t')
    refine ⟨?_, hlt, hall⟩
    rw [hlast, num_succ_last, num_succ_last, pow_succ, ← Nat.mul_assoc]
    rw [hkept] at hsum
    rw [toNat_get, toNat_get] at hadd
    omega

/-! ## The estimate -/

/-- The estimate is the quotient or its successor. -/
def Near (U V : Nat) (qhat : UInt32) : Prop :=
  qhat.toNat < 65536 ∧ U / V ≤ qhat.toNat ∧ qhat.toNat ≤ U / V + 1

/-- The dividend and the divisor start with the digits that the estimate looks at. -/
structure Leading (U V : Nat) (v1 v2 uj0 uj1 uj2 : UInt32) where
  p : Nat
  ulow : Nat
  vlow : Nat
  ulow_lt : ulow < p
  vlow_lt : vlow < p
  dividend : U = ((uj0.toNat * 65536 + uj1.toNat) * 65536 + uj2.toNat) * p + ulow
  divisor : V = (v1.toNat * 65536 + v2.toNat) * p + vlow
  uj1_lt : uj1.toNat < 65536
  uj2_lt : uj2.toNat < 65536
  v1_lt : v1.toNat < 65536
  v2_lt : v2.toNat < 65536
  v1_ge : 32768 ≤ v1.toNat

/-- What the loop of D3 keeps: the estimate is not too small, and `rhat` is what it leaves. -/
structure Estimate (U V : Nat) (v1 uj0 uj1 qhat rhat : UInt32) : Prop where
  left : qhat.toNat * v1.toNat + rhat.toNat = uj0.toNat * 65536 + uj1.toNat
  rhat_lt : rhat.toNat < 65536
  qhat_lt : qhat.toNat < 65536
  quotient_le : U / V ≤ qhat.toNat

namespace Leading

variable {U V : Nat} (h : Leading U V v1 v2 uj0 uj1 uj2)
include h

lemma pos : 0 < V := by
  have hge := h.v1_ge
  have hp := h.vlow_lt
  rw [h.divisor]
  nlinarith

lemma uj0_le (hlt : U < V * 65536) : uj0.toNat ≤ v1.toNat := by
  by_contra hgt
  have hp : 0 < h.p := Nat.lt_of_le_of_lt (Nat.zero_le _) h.vlow_lt
  have hv : V < (v1.toNat + 1) * 65536 * h.p :=
    calc V < (v1.toNat * 65536 + v2.toNat + 1) * h.p := by
          have hvlow := h.vlow_lt
          refine h.divisor.trans_lt ?_
          rw [Nat.succ_mul]
          omega
      _ ≤ (v1.toNat + 1) * 65536 * h.p := by
        have hv2 := h.v2_lt
        exact Nat.mul_le_mul_right _ (by omega)
  have hu : (v1.toNat + 1) * 65536 * h.p * 65536 ≤ U :=
    calc (v1.toNat + 1) * 65536 * h.p * 65536 = (v1.toNat + 1) * 65536 * 65536 * h.p := by ring
      _ ≤ ((uj0.toNat * 65536 + uj1.toNat) * 65536 + uj2.toNat) * h.p :=
        Nat.mul_le_mul_right _ (by omega)
      _ ≤ U := (Nat.le_add_right _ _).trans_eq h.dividend.symm
  omega

/-- An estimate that is too large is made smaller by one. -/
lemma qhatTooBig_spec (hleft : qhat.toNat * v1.toNat + rhat.toNat =
      uj0.toNat * 65536 + uj1.toNat) (hrhat : rhat.toNat < 65536) (hqhat : qhat.toNat ≤ 65536)
    (hbig : U < qhat.toNat * V) :
    match qhatTooBig v1 (qhat, rhat) with
    | .inl s => Estimate U V v1 uj0 uj1 s.1 s.2 ∧ rhat.toNat + 32768 ≤ s.2.toNat
    | .inr qhat' => Near U V qhat' := by
  have hpos : 0 < qhat.toNat := Nat.pos_of_mul_pos_right (Nat.lt_of_le_of_lt (Nat.zero_le _) hbig)
  have hv1 := h.v1_lt
  have hge := h.v1_ge
  have hpred : (qhat - 1).toNat = qhat.toNat - 1 :=
    UInt32.toNat_sub_of_le _ _ (UInt32.le_iff_toNat_le.mpr hpos)
  have hrest : (rhat + v1).toNat = rhat.toNat + v1.toNat := by
    rw [UInt32.toNat_add]
    omega
  have hleft' : (qhat.toNat - 1) * v1.toNat + (rhat.toNat + v1.toNat) =
      uj0.toNat * 65536 + uj1.toNat := by
    have hsplit : qhat.toNat * v1.toNat = (qhat.toNat - 1) * v1.toNat + v1.toNat := by
      rw [← Nat.succ_mul, Nat.succ_eq_add_one, Nat.sub_add_cancel hpos]
    omega
  have hquotient : U / V ≤ qhat.toNat - 1 := by
    have hlt := (Nat.div_lt_iff_lt_mul h.pos).mpr hbig
    omega
  rw [qhatTooBig]
  split_ifs with hbreak
  · rw [UInt32.le_iff_toNat_le, hrest] at hbreak
    have hbound : 65536 ≤ rhat.toNat + v1.toNat := hbreak
    refine ⟨by omega, by omega, ?_⟩
    rw [hpred]
    refine le_of_passed h.dividend h.divisor hleft' h.vlow_lt (by omega) (by omega) ?_
    calc (qhat.toNat - 1) * v2.toNat ≤ 65536 * 65536 :=
          Nat.mul_le_mul (by omega) (Nat.le_of_lt h.v2_lt)
      _ ≤ (rhat.toNat + v1.toNat) * 65536 := Nat.mul_le_mul_right _ hbound
      _ ≤ (rhat.toNat + v1.toNat) * 65536 + uj2.toNat := Nat.le_add_right _ _
  · rw [UInt32.le_iff_toNat_le, hrest] at hbreak
    have hbound : ¬65536 ≤ rhat.toNat + v1.toNat := hbreak
    refine ⟨⟨?_, ?_, ?_, ?_⟩, ?_⟩
    · rw [hpred, hrest, hleft']
    · rw [hrest]
      omega
    · rw [hpred]
      omega
    · rw [hpred]
      exact hquotient
    · rw [hrest]
      omega

/-- The loop of D3 ends, after two rounds at most. -/
lemma trialLoop_spec (fuel : Nat) : ∀ qhat rhat : UInt32, Estimate U V v1 uj0 uj1 qhat rhat →
    65536 ≤ rhat.toNat + fuel * 32768 →
      ∃ qhat', runFor (trialRound v1 v2 uj2) fuel (qhat, rhat) = some qhat' ∧
        Near U V qhat' := by
  induction fuel with
  | zero =>
    intro qhat rhat hs hfuel
    have hrhat := hs.rhat_lt
    omega
  | succ fuel ih =>
    intro qhat rhat hs hfuel
    obtain ⟨hmul, hle⟩ := toNat_mul_digits h.v2_lt hs.qhat_lt
    rw [Nat.mul_comm v2.toNat] at hmul
    rw [runFor, trialRound]
    split_ifs with htest
    · rw [UInt32.lt_iff_toNat_lt, hmul, toNat_COMBINE hs.rhat_lt h.uj2_lt] at htest
      have hnext := h.qhatTooBig_spec hs.left hs.rhat_lt (Nat.le_of_lt hs.qhat_lt)
        (lt_of_too_big h.dividend h.divisor hs.left h.ulow_lt htest)
      cases hround : qhatTooBig v1 (qhat, rhat) with
      | inl s =>
        rw [hround] at hnext
        exact ih s.1 s.2 hnext.1 (by have hmore := hnext.2; omega)
      | inr qhat' =>
        rw [hround] at hnext
        exact ⟨qhat', rfl, hnext⟩
    · rw [UInt32.lt_iff_toNat_lt, hmul, toNat_COMBINE hs.rhat_lt h.uj2_lt] at htest
      have hge := h.v1_ge
      exact ⟨qhat, rfl, hs.qhat_lt, hs.quotient_le,
        le_of_passed h.dividend h.divisor hs.left h.vlow_lt (by omega)
          (Nat.le_of_lt hs.qhat_lt) (by omega)⟩

/-- The estimate is the digit of the quotient or its successor. -/
theorem trial_spec (hlt : U < V * 65536) :
    ∃ qhat, trial v1 v2 uj0 uj1 uj2 = some qhat ∧ Near U V qhat := by
  have hge := h.v1_ge
  have hv1 := h.v1_lt
  have huj1 := h.uj1_lt
  rw [trial]
  split_ifs with hequal
  · have hB : B.toNat = 65536 := rfl
    have hleft : B.toNat * v1.toNat + uj1.toNat = uj0.toNat * 65536 + uj1.toNat := by
      rw [hB, hequal, Nat.mul_comm]
    have hnext := h.qhatTooBig_spec hleft huj1 (Nat.le_of_eq hB) (by rwa [hB, Nat.mul_comm])
    cases hround : qhatTooBig v1 (B, uj1) with
    | inl s =>
      rw [hround] at hnext
      exact h.trialLoop_spec 2 s.1 s.2 hnext.1 (by omega)
    | inr qhat =>
      rw [hround] at hnext
      exact ⟨qhat, rfl, hnext⟩
  · have huj0 : uj0.toNat < v1.toNat :=
      Nat.lt_of_le_of_ne (h.uj0_le hlt) fun heq => hequal (UInt32.toNat_inj.mp heq)
    have hnn : (COMBINE uj0 uj1).toNat = uj0.toNat * 65536 + uj1.toNat :=
      toNat_COMBINE (by omega) huj1
    have hleft : (COMBINE uj0 uj1 / v1).toNat * v1.toNat + (COMBINE uj0 uj1 % v1).toNat =
        uj0.toNat * 65536 + uj1.toNat := by
      rw [UInt32.toNat_div, UInt32.toNat_mod, hnn, Nat.mul_comm]
      exact Nat.div_add_mod _ _
    have hmod : (COMBINE uj0 uj1 % v1).toNat < v1.toNat := by
      rw [UInt32.toNat_mod]
      exact Nat.mod_lt _ (by omega)
    refine h.trialLoop_spec 2 _ _ ⟨hleft, by omega, ?_, ?_⟩ (by omega)
    · rw [UInt32.toNat_div, hnn]
      exact (Nat.div_lt_iff_lt_mul (by omega)).mpr (by nlinarith)
    · have hbig : U < ((COMBINE uj0 uj1 / v1).toNat + 1) * V :=
        calc U < (uj0.toNat * 65536 + uj1.toNat + 1) * 65536 * h.p := by
              have hulow := h.ulow_lt
              have huj2 := h.uj2_lt
              refine h.dividend.trans_lt ?_
              nlinarith
          _ ≤ ((COMBINE uj0 uj1 / v1).toNat + 1) * (v1.toNat * 65536 + v2.toNat) * h.p := by
            refine Nat.mul_le_mul_right _ ?_
            nlinarith
          _ ≤ ((COMBINE uj0 uj1 / v1).toNat + 1) * V := by
            rw [Nat.mul_assoc]
            exact Nat.mul_le_mul_left _ ((Nat.le_add_right _ _).trans_eq h.divisor.symm)
      exact Nat.le_of_lt_succ ((Nat.div_lt_iff_lt_mul h.pos).mpr hbig)

end Leading

/-! ## The digits of the quotient -/

/-- The digits that D3 looks at are the first ones of the dividend and the divisor. -/
def leading (u v : Digits) (l k n : Nat) (hv : 32768 ≤ (v (l + 1)).toNat) :
    Leading (u.num k (n + 3)) (v.num (l + 1) (n + 2)) (v.get (l + 1)) (v.get (l + 2)) (u.get k)
      (u.get (k + 1)) (u.get (k + 2)) where
  p := 65536 ^ n
  ulow := u.num (k + 3) n
  vlow := v.num (l + 3) n
  ulow_lt := num_lt
  vlow_lt := num_lt
  dividend := by
    rw [Nat.add_comm n 3, num_add]
    simp only [num, digitsFrom, Nat.zero_mul, Nat.zero_add, Nat.add_zero, toNat_get]
  divisor := by
    rw [Nat.add_comm n 2, num_add]
    simp only [num, digitsFrom, Nat.zero_mul, Nat.zero_add, Nat.add_zero, toNat_get]
  uj1_lt := get_lt u _
  uj2_lt := get_lt u _
  v1_lt := get_lt v _
  v2_lt := get_lt v _
  v1_ge := by rwa [toNat_get]

/-- One round of the loop over `j` gives a digit of the quotient and leaves the remainder. -/
theorem divDigit_spec (hn : 2 ≤ n) (hv : 32768 ≤ (v (l + 1)).toNat)
    (hlt : u.num k (n + 1) < v.num (l + 1) n * 65536) :
    ∃ u' q', divDigit v l n k u q = some (u', q') ∧ u' k = 0 ∧
      u'.num (k + 1) n = u.num k (n + 1) % v.num (l + 1) n ∧
      (q' (k + n)).toNat = u.num k (n + 1) / v.num (l + 1) n ∧
      (∀ i, i < k ∨ k + n < i → u' i = u i) ∧ ∀ i, i ≠ k + n → q' i = q i := by
  obtain ⟨n, rfl⟩ : ∃ m, n = m + 2 := ⟨n - 2, by omega⟩
  have hlead := leading u v l k n hv
  obtain ⟨qhat, htrial, hqhat, hge, hle⟩ := hlead.trial_spec hlt
  have hsub := mulSub_spec (v := v) (l := l) (k := k) hqhat (n + 2) 0 u (by decide)
  rw [divDigit, htrial, Option.bind_eq_bind, Option.bind_some]
  generalize mulSub v l qhat k (n + 2) 0 u = r at hsub ⊢
  obtain ⟨u₁, b⟩ := r
  obtain ⟨hsum, hborrow, hrest⟩ := hsub
  dsimp only at hsum hborrow hrest ⊢
  have hfirst : (u₁.get k).toNat = (u k).toNat := by
    rw [toNat_get, hrest k (.inl (Nat.le_refl k))]
  have hk := (u k).toNat_lt
  have hlow := toNat_LHALF (u₁.get k - b)
  have hhigh := toNat_HHALF (u₁.get k - b)
  rw [UInt32.toNat_sub, hfirst] at hlow hhigh
  -- the borrow leaves the first digit as it is needed
  have hkept : (u₁.put k (LHALF (u₁.get k - b))).num (k + 1) (n + 2) = u₁.num (k + 1) (n + 2) :=
    num_congr fun i hi _ => put_of_ne (by omega)
  have hput : ∀ i, i ≠ k → u₁.put k (LHALF (u₁.get k - b)) i = u₁ i := fun i hi => put_of_ne hi
  have hputk := toNat_put_self (p := u₁) (i := k) (LHALF_lt (u₁.get k - b))
  generalize u₁.put k (LHALF (u₁.get k - b)) = u₂ at hkept hput hputk ⊢
  rw [UInt32.toNat_zero, Nat.add_zero, ← hkept] at hsum
  have hexact := digit_exact (u := u.num k (n + 3)) num_succ hsum num_lt (Nat.le_of_lt num_lt)
    hlead.pos hge hle
  have hover := digit_over (u := u.num k (n + 3)) num_succ hsum num_lt (Nat.le_of_lt num_lt)
    hlead.pos hge hle
  by_cases hfits : b.toNat ≤ (u k).toNat
  · obtain ⟨hdigit, hmod, hzero⟩ := hexact hfits
    have hnone : HHALF (u₁.get k - b) = 0 :=
      UInt32.toNat_inj.mp (hhigh.trans (by rw [UInt32.toNat_zero]; omega))
    rw [if_neg (not_not.mpr hnone)]
    refine ⟨_, _, rfl, ?_, hmod, ?_, fun i hi => ?_, fun i hi => put_of_ne hi⟩
    · exact UInt16.toNat_inj.mp (hputk.trans (hlow.trans (by rw [UInt16.toNat_zero]; omega)))
    · rw [toNat_put_self hqhat, hdigit]
    · rw [hput i (by omega), hrest i (by omega)]
  · obtain ⟨hdigit, hb, hmod⟩ := hover (by omega)
    have hsome : HHALF (u₁.get k - b) ≠ 0 := by
      intro hzero
      rw [hzero, UInt32.toNat_zero] at hhigh
      omega
    rw [if_pos hsome]
    have hback := addBack_spec (v := v) (l := l) (k := k) (n + 2) 0 u₂ (by decide)
    generalize addBack v l k (n + 2) 0 u₂ = r at hback ⊢
    obtain ⟨u₃, c⟩ := r
    obtain ⟨hadd, hc, hrest'⟩ := hback
    dsimp only at hadd hc hrest' ⊢
    have hlt' : u.num k (n + 3) % v.num (l + 1) (n + 2) < 65536 ^ (n + 2) :=
      Nat.lt_trans (Nat.mod_lt _ hlead.pos) num_lt
    have hsum' : c.toNat * 65536 ^ (n + 2) + u₃.num (k + 1) (n + 2) =
        1 * 65536 ^ (n + 2) + u.num k (n + 3) % v.num (l + 1) (n + 2) := by
      rw [UInt32.toNat_zero] at hadd
      omega
    obtain ⟨hone, hrem⟩ := eq_of_digits num_lt hlt' hsum'
    have hlast : (u₃.get k + c).toNat = 65536 := by
      have hu₃ : (u₃.get k).toNat = 65535 := by
        rw [toNat_get, hrest' k (.inl (Nat.le_refl k)), hputk, hlow]
        omega
      rw [UInt32.toNat_add, hu₃, hone]
    have hend := toNat_LHALF (u₃.get k + c)
    rw [hlast] at hend
    refine ⟨_, _, rfl, ?_, ?_, ?_, fun i hi => ?_, fun i hi => put_of_ne hi⟩
    · exact UInt16.toNat_inj.mp ((toNat_put_self (LHALF_lt _)).trans hend)
    · rw [num_congr fun i hi _ => put_of_ne (by omega), hrem]
    · have hpred : (qhat - 1).toNat = qhat.toNat - 1 :=
        UInt32.toNat_sub_of_le _ _ (UInt32.le_iff_toNat_le.mpr (hdigit.symm ▸ Nat.le_add_left 1 _))
      rw [toNat_put_self (by omega), hpred, hdigit]
      exact Nat.add_sub_cancel _ _
    · rw [put_of_ne (by omega), hrest' i (by omega), hput i (by omega), hrest i (by omega)]

/-- The loop over `j` divides the digits from `u[k]` on, whose first ones are less than the
divisor. -/
lemma divLoop_spec (hn : 2 ≤ n) (hv : 32768 ≤ (v (l + 1)).toNat) (c : Nat) :
    ∀ (k : Nat) (u q : Digits), u.num k n < v.num (l + 1) n →
      ∃ u' q', divLoop v l n c k u q = some (u', q') ∧
        u'.num (k + c) n = u.num k (n + c) % v.num (l + 1) n ∧
        q'.num (k + n) c = u.num k (n + c) / v.num (l + 1) n ∧
        (∀ i, k ≤ i → i < k + c → u' i = 0) ∧
        (∀ i, i < k ∨ k + n + c ≤ i → u' i = u i) ∧
        ∀ i, i < k + n ∨ k + n + c ≤ i → q' i = q i := by
  induction c with
  | zero =>
    intro k u q hlt
    refine ⟨u, q, rfl, ?_, ?_, fun i hi hi' => ?_, fun i _ => rfl, fun i _ => rfl⟩
    · exact (Nat.mod_eq_of_lt hlt).symm
    · exact (Nat.div_eq_of_lt hlt).symm
    · omega
  | succ c ih =>
    intro k u q hlt
    have hpos : 0 < v.num (l + 1) n := Nat.lt_of_le_of_lt (Nat.zero_le _) hlt
    have hnext : u.num k (n + 1) < v.num (l + 1) n * 65536 := by
      have hk := (u (k + n)).toNat_lt
      rw [num_succ_last]
      omega
    obtain ⟨u₁, q₁, hround, hzero, hmod, hdiv, hu, hq⟩ := divDigit_spec (q := q) hn hv hnext
    obtain ⟨u', q', hloop, hrem, hquot, hzeros, hu', hq'⟩ :=
      ih (k + 1) u₁ q₁ (hmod ▸ Nat.mod_lt _ hpos)
    have hsplit : u.num k (n + (c + 1)) =
        u.num k (n + 1) * 65536 ^ c + u.num (k + 1 + n) c := by
      rw [show n + (c + 1) = n + 1 + c by omega, num_add, show k + (n + 1) = k + 1 + n by omega]
    have hrest : u₁.num (k + 1) (n + c) =
        u.num k (n + 1) % v.num (l + 1) n * 65536 ^ c + u.num (k + 1 + n) c := by
      rw [num_add, ← hmod]
      exact congrArg _ (num_congr fun i hi _ => hu i (by omega))
    obtain ⟨hdivs, hmods⟩ := div_add_digits (w := u.num k (n + 1)) (r := u.num (k + 1 + n) c) hpos
      (65536 ^ c)
    rw [← hsplit, ← hrest] at hdivs hmods
    refine ⟨u', q', ?_, ?_, ?_, fun i hi hi' => ?_, fun i hi => ?_, fun i hi => ?_⟩
    · rw [divLoop, hround, Option.bind_eq_bind, Option.bind_some]
      exact hloop
    · rw [hmods, ← hrem, show k + (c + 1) = k + 1 + c by omega]
    · rw [num_succ, hq' _ (by omega), hdiv, hdivs, ← hquot, show k + n + 1 = k + 1 + n by omega]
    · rcases Nat.eq_or_lt_of_le hi with rfl | hlater
      · rw [hu' _ (by omega), hzero]
      · exact hzeros i hlater (by omega)
    · rw [hu' i (by omega), hu i (by omega)]
    · rw [hq' i (by omega), hq i (by omega)]

/-! ## Shifts -/

/-- D1 finds the shift that sets the first bit of a digit. -/
lemma norm_spec (fuel : Nat) : ∀ t d : UInt32, 0 < t.toNat → t.toNat < 65536 →
    32768 ≤ t.toNat * 2 ^ fuel → d.toNat + fuel < 16 →
      ∃ d' e, runFor normRound (fuel + 1) (t, d) = some d' ∧ d'.toNat = d.toNat + e ∧
        d'.toNat < 16 ∧ 32768 ≤ t.toNat * 2 ^ e ∧ t.toNat * 2 ^ e < 65536 := by
  have hhalf : (B / 2).toNat = 32768 := rfl
  intro t d hpos hlt hge hd
  induction fuel generalizing t d with
  | zero =>
    rw [pow_zero, Nat.mul_one] at hge
    rw [runFor, normRound, if_neg (by rw [UInt32.lt_iff_toNat_lt]; omega)]
    exact ⟨d, 0, rfl, rfl, by omega, by omega, by omega⟩
  | succ fuel ih =>
    rw [runFor, normRound]
    by_cases hsmall : t < B / 2
    · rw [if_pos hsmall]
      rw [UInt32.lt_iff_toNat_lt, hhalf] at hsmall
      have hdouble : (t <<< 1).toNat = t.toNat * 2 := by
        rw [UInt32.toNat_shiftLeft, show (1 : UInt32).toNat % 32 = 1 from rfl, Nat.shiftLeft_eq]
        omega
      have hnext : (d + 1).toNat = d.toNat + 1 := by
        rw [UInt32.toNat_add, UInt32.toNat_one]
        omega
      have hmore : ∀ e, (t <<< 1).toNat * 2 ^ e = t.toNat * 2 ^ (e + 1) := fun e => by
        rw [hdouble, Nat.mul_assoc, ← Nat.pow_succ']
      obtain ⟨d', e, hrun, heq, hd', hge', hlt'⟩ := ih (t <<< 1) (d + 1) (by omega) (by omega)
        (by rwa [hmore]) (by omega)
      rw [hmore] at hge' hlt'
      exact ⟨d', e + 1, hrun, by omega, hd', hge', hlt'⟩
    · rw [if_neg hsmall]
      rw [UInt32.lt_iff_toNat_lt, hhalf] at hsmall
      exact ⟨d, 0, rfl, rfl, by omega, by omega, by omega⟩

section

variable {d : UInt32} (hd : 0 < d.toNat) (hd' : d.toNat < 16) {x y : UInt32}
include hd'

lemma toNat_complement : (16 - d).toNat = 16 - d.toNat :=
  UInt32.toNat_sub_of_le _ _ (UInt32.le_iff_toNat_le.mpr (Nat.le_of_lt hd'))

lemma pow_split : 2 ^ d.toNat * 2 ^ (16 - d.toNat) = 65536 := by
  rw [← pow_add, Nat.add_sub_cancel' (Nat.le_of_lt hd')]
  rfl

lemma toNat_shiftLeft_digit : (LHALF (x <<< d)).toNat = x.toNat * 2 ^ d.toNat % 65536 := by
  rw [toNat_LHALF, UInt32.toNat_shiftLeft, Nat.mod_eq_of_lt (by omega : d.toNat < 32),
    Nat.shiftLeft_eq, Nat.mod_mod_of_dvd _ (by decide)]

include hd

/-- The bits of a digit that stay and those that the digit behind it gives. -/
lemma toNat_shl_digit (hy : y.toNat < 65536) :
    (LHALF (x <<< d) ||| (y >>> (16 - d))).toNat =
        x.toNat * 2 ^ d.toNat % 65536 + y.toNat / 2 ^ (16 - d.toNat) ∧
      (LHALF (x <<< d) ||| (y >>> (16 - d))).toNat < 65536 := by
  have hpow := pow_split hd'
  have hlow : y.toNat / 2 ^ (16 - d.toNat) < 2 ^ d.toNat :=
    (Nat.div_lt_iff_lt_mul (Nat.two_pow_pos _)).mpr (by rwa [hpow])
  have hhigh : x.toNat % 2 ^ (16 - d.toNat) < 2 ^ (16 - d.toNat) :=
    Nat.mod_lt _ (Nat.two_pow_pos _)
  rw [UInt32.toNat_or, toNat_shiftLeft_digit hd', UInt32.toNat_shiftRight,
    toNat_complement hd', Nat.mod_eq_of_lt (by omega : 16 - d.toNat < 32),
    Nat.shiftRight_eq_div_pow, ← hpow, Nat.mul_comm x.toNat, Nat.mul_mod_mul_left,
    Nat.mul_comm (2 ^ d.toNat), ← Nat.shiftLeft_eq, shiftLeft_or hlow, Nat.shiftLeft_eq]
  refine ⟨rfl, ?_⟩
  calc x.toNat % 2 ^ (16 - d.toNat) * 2 ^ d.toNat + y.toNat / 2 ^ (16 - d.toNat)
      < x.toNat % 2 ^ (16 - d.toNat) * 2 ^ d.toNat + 2 ^ d.toNat := Nat.add_lt_add_left hlow _
    _ = (x.toNat % 2 ^ (16 - d.toNat) + 1) * 2 ^ d.toNat := (Nat.succ_mul _ _).symm
    _ ≤ 2 ^ d.toNat * 2 ^ (16 - d.toNat) := by
      rw [Nat.mul_comm (2 ^ d.toNat)]
      exact Nat.mul_le_mul_right _ hhigh

/-- The bits of a digit that stay and those that the digit before it gives. -/
lemma toNat_shr_digit (hx : x.toNat < 65536) :
    ((x >>> d) ||| LHALF (y <<< (16 - d))).toNat =
        y.toNat * 2 ^ (16 - d.toNat) % 65536 + x.toNat / 2 ^ d.toNat ∧
      ((x >>> d) ||| LHALF (y <<< (16 - d))).toNat < 65536 := by
  have hcomp := toNat_complement hd'
  have hback : (16 - (16 - d)).toNat = d.toNat := by
    rw [toNat_complement (by omega), hcomp]
    omega
  have hdigit := toNat_shl_digit (d := 16 - d) (x := y) (by omega) (by omega) hx
  rwa [UInt32.toNat_inj.mp hback, hcomp, UInt32.or_comm,
    show 16 - (16 - d.toNat) = d.toNat by omega] at hdigit

/-- The digits are shifted to the left, without the bits that fall out of the first one. -/
lemma shl_spec (len : Nat) : ∀ (a : Nat) (p : Digits),
    (p a).toNat / 2 ^ (16 - d.toNat) * 65536 ^ (len + 1) + (shl d len a p).num a (len + 1) =
        p.num a (len + 1) * 2 ^ d.toNat ∧
      ∀ i, i < a ∨ a + len < i → shl d len a p i = p i := by
  have hsplit : ∀ x : Nat, x / 2 ^ (16 - d.toNat) * 65536 + x * 2 ^ d.toNat % 65536 =
      x * 2 ^ d.toNat := fun x => by
    have hdiv : x * 2 ^ d.toNat / 65536 = x / 2 ^ (16 - d.toNat) := by
      rw [← pow_split hd', Nat.mul_comm x, Nat.mul_div_mul_left _ _ (Nat.two_pow_pos _)]
    rw [← hdiv, Nat.mul_comm]
    exact Nat.div_add_mod _ _
  induction len with
  | zero =>
    intro a p
    rw [shl]
    refine ⟨?_, fun i hi => put_of_ne (by omega)⟩
    simp only [num, digitsFrom, Nat.zero_mul, Nat.zero_add, Nat.add_zero, pow_one,
      toNat_put_self (LHALF_lt _), toNat_shiftLeft_digit hd', toNat_get]
    exact hsplit _
  | succ len ih =>
    intro a p
    obtain ⟨hdigit, hlt⟩ := toNat_shl_digit hd hd' (x := p.get a) (get_lt p (a + 1))
    rw [shl]
    generalize LHALF (p.get a <<< d) ||| (p.get (a + 1) >>> (16 - d)) = x at hdigit hlt ⊢
    obtain ⟨hsum, hrest⟩ := ih (a + 1) (p.put a x)
    have hkept : (p.put a x).num (a + 1) (len + 1) = p.num (a + 1) (len + 1) :=
      num_congr fun i hi _ => put_of_ne (by omega)
    refine ⟨?_, fun i hi => ?_⟩
    · have hsame := hsplit (p a).toNat
      rw [toNat_get, toNat_get] at hdigit
      generalize (p a).toNat * 2 ^ d.toNat % 65536 = low at hsame hdigit
      rw [hkept, put_of_ne (by omega)] at hsum
      rw [num_succ, hrest a (.inl (Nat.lt_succ_self a)), toNat_put_self hlt, hdigit,
        num_succ (p := p), Nat.add_mul _ _ (2 ^ d.toNat), ← hsum, Nat.mul_right_comm, ← hsame]
      ring
    · rw [hrest i (by omega), put_of_ne (by omega)]

/-- The digits are shifted to the right, from the one before them. -/
lemma shr_spec (k : Nat) (len : Nat) : ∀ u : Digits,
    (shr d k len u).num (k + 1) len = u.num k (len + 1) / 2 ^ d.toNat % 65536 ^ len ∧
      shr d k len u k = 0 ∧ ∀ i, i < k ∨ k + len < i → shr d k len u i = u i := by
  induction len with
  | zero =>
    intro u
    rw [shr]
    exact ⟨(Nat.mod_one _).symm, Function.update_self .., fun i hi => put_of_ne (by omega)⟩
  | succ len ih =>
    intro u
    obtain ⟨hdigit, hlt⟩ := toNat_shr_digit hd hd' (y := u.get (k + len)) (get_lt u (k + 1 + len))
    rw [shr]
    generalize (u.get (k + 1 + len) >>> d) ||| LHALF (u.get (k + len) <<< (16 - d)) = x
      at hdigit hlt ⊢
    obtain ⟨hsum, hzero, hrest⟩ := ih (u.put (k + 1 + len) x)
    refine ⟨?_, hzero, fun i hi => ?_⟩
    · have hkept : (u.put (k + 1 + len) x).num k (len + 1) = u.num k (len + 1) :=
        num_congr fun i hi _ => put_of_ne (by omega)
      have hpow := pow_split hd'
      have hhigh : u.num k (len + 1) * 2 ^ (16 - d.toNat) % 65536 =
          (u (k + len)).toNat * 2 ^ (16 - d.toNat) % 65536 := by
        rw [num_succ_last, Nat.add_mul, Nat.mul_right_comm, Nat.mul_add_mod_self_right]
      rw [toNat_get, toNat_get, show k + 1 + len = k + (len + 1) by omega] at hdigit
      have hdiv : u.num k (len + 1 + 1) / 2 ^ d.toNat =
          65536 * (u.num k (len + 1) / 2 ^ d.toNat) + x.toNat := by
        rw [hdigit, ← hhigh, num_succ_last, ← hpow]
        exact shift_digit (Nat.two_pow_pos _) (Nat.two_pow_pos _)
      rw [num_succ_last, hsum, hkept, hrest _ (.inr (by omega)), toNat_put_self hlt, pow_succ,
        Nat.mul_comm (65536 ^ len), Nat.mod_mul, hdiv, Nat.mul_add_mod,
        Nat.mul_add_div (by decide), Nat.div_eq_of_lt hlt, Nat.mod_eq_of_lt hlt, Nat.add_comm,
        Nat.mul_comm]
      rfl
    · rw [hrest i (by omega), put_of_ne (by omega)]

end

/-! ## The program -/

/-- The leading zeros are those before the first digit that is not zero. -/
lemma skipZeros_spec {p : Digits} (m : Nat) : ∀ place : Nat,
    (∀ m' place', skipZeros p m place = some (m', place') →
      place ≤ place' ∧ m' + place' = m + place ∧ p (place' + 1) ≠ 0 ∧
        ∀ i, place < i → i ≤ place' → p i = 0) ∧
      (skipZeros p m place = none → ∀ i, place < i → i ≤ place + m + 1 → p i = 0) := by
  have hget : ∀ i, p.get i = 0 ↔ p i = 0 := fun i => by
    rw [← UInt32.toNat_inj, ← UInt16.toNat_inj, toNat_get]
    rfl
  induction m with
  | zero =>
    intro place
    simp only [skipZeros, hget]
    split_ifs with hzero
    · exact ⟨fun _ _ h => (nomatch h), fun _ i hi hi' => (show i = place + 1 by omega) ▸ hzero⟩
    · refine ⟨fun m' place' h => ?_, fun h => (nomatch h)⟩
      cases h
      exact ⟨le_rfl, rfl, hzero, fun i hi hi' => by omega⟩
  | succ m ih =>
    intro place
    simp only [skipZeros, hget]
    split_ifs with hzero
    · have hfirst : ∀ i, place < i → (place + 1 < i → p i = 0) → p i = 0 := fun i hi hlater => by
        rcases Nat.eq_or_lt_of_le hi with rfl | hlt
        · exact hzero
        · exact hlater hlt
      refine ⟨fun m' place' h => ?_, fun h i hi hi' => ?_⟩
      · obtain ⟨hle, hsum, hdigit, hzeros⟩ := (ih (place + 1)).1 m' place' h
        exact ⟨by omega, by omega, hdigit, fun i hi hi' =>
          hfirst i hi fun hlt => hzeros i hlt hi'⟩
      · exact hfirst i hi fun hlt => (ih (place + 1)).2 h i hlt (by omega)
    · refine ⟨fun m' place' h => ?_, fun h => (nomatch h)⟩
      cases h
      exact ⟨le_rfl, rfl, hzero, fun i hi hi' => by omega⟩

/-- The first digit that is not zero bounds the number from below. -/
lemma le_num {p : Digits} {a n : Nat} (h : p a ≠ 0) : 65536 ^ n ≤ p.num a (n + 1) := by
  have hpos : 0 < (p a).toNat :=
    Nat.pos_of_ne_zero fun hzero => h (UInt16.toNat_inj.mp hzero)
  rw [num_succ]
  exact (Nat.le_mul_of_pos_left _ hpos).trans (Nat.le_add_right _ _)

section

variable {d : UInt32} (hd : d.toNat < 16)
include hd

/-- A number that keeps all its bits is multiplied. -/
lemma num_shl {p : Digits} {a : Nat} (len : Nat) (hfit : (p a).toNat * 2 ^ d.toNat < 65536) :
    (if 0 < d then shl d len a p else p).num a (len + 1) = p.num a (len + 1) * 2 ^ d.toNat ∧
      ∀ i, i < a → (if 0 < d then shl d len a p else p) i = p i := by
  split_ifs with hpos
  · rw [UInt32.lt_iff_toNat_lt, UInt32.toNat_zero] at hpos
    obtain ⟨hsum, hrest⟩ := shl_spec hpos hd len a p
    have hzero : (p a).toNat / 2 ^ (16 - d.toNat) = 0 := by
      refine Nat.div_eq_of_lt ?_
      rw [← pow_split hd, Nat.mul_comm] at hfit
      exact Nat.lt_of_mul_lt_mul_left hfit
    rw [hzero, Nat.zero_mul, Nat.zero_add] at hsum
    exact ⟨hsum, fun i hi => hrest i (.inl hi)⟩
  · rw [UInt32.lt_iff_toNat_lt, UInt32.toNat_zero] at hpos
    rw [Nat.eq_zero_of_not_pos hpos, pow_zero, Nat.mul_one]
    exact ⟨rfl, fun _ _ => rfl⟩

/-- The remainder is shifted back. -/
lemma num_shr {r : Nat} (hr : r < 65536 ^ n) (hzero : u k = 0)
    (hnum : u.num (k + 1) n = r * 2 ^ d.toNat) :
    (if 0 < d then shr d k n u else u).num (k + 1) n = r ∧
      (if 0 < d then shr d k n u else u) k = 0 ∧
      ∀ i, i < k → (if 0 < d then shr d k n u else u) i = u i := by
  split_ifs with hpos
  · rw [UInt32.lt_iff_toNat_lt, UInt32.toNat_zero] at hpos
    obtain ⟨hquot, hfirst, hrest⟩ := shr_spec hpos hd k n u
    rw [num_succ, hzero, UInt16.toNat_zero, Nat.zero_mul, Nat.zero_add, hnum,
      Nat.mul_div_cancel _ (Nat.two_pow_pos _), Nat.mod_eq_of_lt hr] at hquot
    exact ⟨hquot, hfirst, fun i hi => hrest i (.inl hi)⟩
  · rw [UInt32.lt_iff_toNat_lt, UInt32.toNat_zero] at hpos
    rw [Nat.eq_zero_of_not_pos hpos, pow_zero, Nat.mul_one] at hnum
    exact ⟨hnum, hzero, fun _ _ => rfl⟩

end

/-- The program D divides. -/
lemma programD_spec {m : Nat} (hn : 2 ≤ n) (hplace : k + (m + n) = 4) (hv : v (l + 1) ≠ 0)
    (hu : ∀ i, i ≤ k → u i = 0) :
    ∃ u' q', programD v l n u k m q = some (u', q') ∧
      u'.num 1 4 = u.num 1 4 % v.num (l + 1) n ∧ q'.num 1 4 = u.num 1 4 / v.num (l + 1) n := by
  have hvpos : 0 < (v (l + 1)).toNat :=
    Nat.pos_of_ne_zero fun hzero => hv (UInt16.toNat_inj.mp hzero)
  obtain ⟨d, e, hrun, heq, hd, hge, hlt⟩ := norm_spec 15 (v.get (l + 1)) 0 (by rwa [toNat_get])
    (get_lt v _) (by rw [toNat_get]; omega) (by decide)
  rw [UInt32.toNat_zero, Nat.zero_add] at heq
  rw [← heq, toNat_get] at hge hlt
  have hfour : u.num 1 4 = u.num k (m + n + 1) := by
    rw [← hplace, num_zeros (m := k) (fun i _ hi => hu i (by omega)), num_succ (a := k),
      hu k (Nat.le_refl k), UInt16.toNat_zero, Nat.zero_mul, Nat.zero_add, Nat.add_comm 1 k]
  have hless : u.num 1 4 < 65536 ^ (m + n) := by
    rw [← hplace, num_zeros (m := k) (fun i _ hi => hu i (by omega))]
    exact num_lt
  obtain ⟨n, rfl⟩ : ∃ j, n = j + 1 := ⟨n - 1, by omega⟩
  have hV := le_num (n := n) hv
  obtain ⟨hvnum, -⟩ := num_shl hd n hlt
  obtain ⟨hunum, hukept⟩ := num_shl hd (p := u) (a := k) (m + (n + 1))
    (by rw [hu k (Nat.le_refl k)]; exact Nat.zero_mul _ ▸ by decide)
  rw [programD, hrun, Option.bind_eq_bind, Option.bind_some, Nat.add_sub_cancel]
  generalize (if 0 < d then shl d n (l + 1) v else v) = v' at hvnum ⊢
  dsimp only
  generalize (if 0 < d then shl d (m + (n + 1)) k u else u) = u' at hunum hukept ⊢
  -- the first digits of the dividend are those of a shorter number
  have hstart : u'.num k (n + 1) < v'.num (l + 1) (n + 1) := by
    have hadd : u'.num k (n + 1) * 65536 ^ (m + 1) ≤ u.num k (m + (n + 1) + 1) * 2 ^ d.toNat := by
      rw [← hunum, show m + (n + 1) + 1 = n + 1 + (m + 1) by omega,
        num_add (n + 1) (m + 1)]
      exact Nat.le_add_right _ _
    refine Nat.lt_of_mul_lt_mul_right (a := 65536 ^ (m + 1)) (Nat.lt_of_le_of_lt hadd ?_)
    calc u.num k (m + (n + 1) + 1) * 2 ^ d.toNat
        < 65536 ^ (m + (n + 1)) * 2 ^ d.toNat :=
          Nat.mul_lt_mul_of_pos_right (hfour ▸ hless) (Nat.two_pow_pos _)
      _ = 65536 ^ n * 2 ^ d.toNat * 65536 ^ (m + 1) := by
        rw [show m + (n + 1) = n + (m + 1) by omega, pow_add]
        ring
      _ ≤ v'.num (l + 1) (n + 1) * 65536 ^ (m + 1) := by
        rw [hvnum]
        exact Nat.mul_le_mul_right _ (Nat.mul_le_mul_right _ hV)
  have hfirst : 32768 ≤ (v' (l + 1)).toNat := by
    by_contra hsmall
    have hrest : v'.num (l + 1 + 1) n < 65536 ^ n := num_lt
    have hlow : 32768 * 65536 ^ n ≤ v'.num (l + 1) (n + 1) := by
      rw [hvnum, num_succ, Nat.add_mul, Nat.mul_right_comm]
      exact (Nat.mul_le_mul_right _ hge).trans (Nat.le_add_right _ _)
    rw [num_succ] at hlow
    have hle : ((v' (l + 1)).toNat + 1) * 65536 ^ n ≤ 32768 * 65536 ^ n :=
      Nat.mul_le_mul_right _ (by omega)
    rw [Nat.succ_mul] at hle
    omega
  obtain ⟨u'', q', hloop, hrem, hquot, hzeros, hukept', hqkept⟩ :=
    divLoop_spec hn hfirst (m + 1) k u' (fun i => if i < 4 - m then 0 else q i) hstart
  rw [show n + 1 + (m + 1) = m + (n + 1) + 1 by omega, hunum, hvnum, ← hfour] at hrem hquot
  rw [Nat.mul_mod_mul_right] at hrem
  rw [Nat.mul_div_mul_right _ _ (Nat.two_pow_pos _)] at hquot
  have hmod : u.num 1 4 % v.num (l + 1) (n + 1) < 65536 ^ (n + 1) :=
    Nat.lt_trans (Nat.mod_lt _ (Nat.lt_of_lt_of_le (Nat.pow_pos (by decide)) hV)) num_lt
  obtain ⟨hback, hlast, hbefore⟩ :=
    num_shr hd (k := k + m) hmod (hzeros _ (by omega) (by omega)) hrem
  rw [hloop, Option.bind_eq_bind, Option.bind_some]
  refine ⟨_, _, rfl, ?_, ?_⟩
  · rw [show 4 = k + m + (n + 1) by omega, num_zeros fun i hi hi' => ?_, Nat.add_comm 1, hback,
      show k + m + (n + 1) = 4 by omega]
    rcases Nat.lt_or_ge i k with hlow | hhigh
    · rw [hbefore i (by omega), hukept' i (.inl hlow), hukept i hlow, hu i (by omega)]
    · rcases Nat.eq_or_lt_of_le (show i ≤ k + m by omega) with rfl | hlt'
      · exact hlast
      · rw [hbefore i hlt', hzeros i hhigh (by omega)]
  · rw [← hquot, show 4 = k + n + (m + 1) by omega, num_zeros fun i hi hi' => ?_,
      show 1 + (k + n) = k + (n + 1) by omega]
    exact (hqkept i (.inl (by omega))).trans (if_pos (by omega))

/-- The division by one digit. -/
lemma shortDivision_spec {u : Digits} {t : UInt32} (hpos : 0 < t.toNat) (ht : t.toNat < 65536) :
    (shortDivision u t).1.toNat = u.num 1 4 / t.toNat ∧
      (shortDivision u t).2.toNat = u.num 1 4 % t.toNat := by
  -- one digit more
  have hround : ∀ (x : UInt32) (i : Nat), x.toNat < t.toNat →
      (COMBINE x (u.get i)).toNat = x.toNat * 65536 + (u i).toNat ∧
        (COMBINE x (u.get i) / t).toNat < 65536 ∧
        (COMBINE x (u.get i) % t).toNat < t.toNat ∧
        (COMBINE x (u.get i) / t).toNat * t.toNat + (COMBINE x (u.get i) % t).toNat =
          x.toNat * 65536 + (u i).toNat := fun x i hx => by
    have hi := (u i).toNat_lt
    have hcombine : (COMBINE x (u.get i)).toNat = x.toNat * 65536 + (u i).toNat := by
      rw [toNat_COMBINE (by omega) (get_lt u i), toNat_get]
    refine ⟨hcombine, ?_, ?_, ?_⟩
    · rw [UInt32.toNat_div, hcombine]
      exact (Nat.div_lt_iff_lt_mul hpos).mpr (by omega)
    · rw [UInt32.toNat_mod]
      exact Nat.mod_lt _ hpos
    · rw [UInt32.toNat_div, UInt32.toNat_mod, hcombine, Nat.mul_comm]
      exact Nat.div_add_mod _ _
  have hzero : (0 : UInt32).toNat < t.toNat := hpos
  have hfirst : COMBINE 0 (u.get 1) = u.get 1 := UInt32.toNat_inj.mp <| by
    rw [(hround 0 1 hzero).1, toNat_get, UInt32.toNat_zero, Nat.zero_mul, Nat.zero_add]
  obtain ⟨-, hq₁, hr₁, h₁⟩ := hround 0 1 hzero
  obtain ⟨-, hq₂, hr₂, h₂⟩ := hround _ 2 hr₁
  obtain ⟨-, hq₃, hr₃, h₃⟩ := hround _ 3 hr₂
  obtain ⟨-, hq₄, hr₄, h₄⟩ := hround _ 4 hr₃
  rw [hfirst] at hq₁ hr₁ h₁ hq₂ hr₂ h₂ hq₃ hr₃ h₃ hq₄ hr₄ h₄
  have hdigit : ∀ x : UInt32, x.toNat < 65536 → (LHALF x).toNat = x.toNat := fun x hx =>
    (toNat_LHALF x).trans (Nat.mod_eq_of_lt hx)
  rw [shortDivision, toNat_quad, toNat_COMBINE (LHALF_lt _) (LHALF_lt _),
    toNat_COMBINE (LHALF_lt _) (LHALF_lt _), hdigit _ hq₁, hdigit _ hq₂, hdigit _ hq₃,
    hdigit _ hq₄, UInt32.toNat_toUInt64]
  refine And.imp Eq.symm Eq.symm ((Nat.div_mod_unique hpos).mpr ⟨?_, hr₄⟩)
  rw [UInt32.toNat_zero] at h₁
  rw [num_four]
  linarith

/-- The quotient and the remainder are those of the numbers, whatever the digits of the quotient
held before. -/
theorem qdivrem_eq (qspace : Digits) (uq vq : UInt64) (arq : Bool) :
    qdivrem qspace uq vq arq =
      if vq = 0 then none else some (uq / vq, if arq then some (uq % vq) else none) := by
  rw [qdivrem]
  by_cases hzero : vq = 0
  · rw [if_pos hzero, if_pos hzero]
  · rw [if_neg hzero, if_neg hzero]
    have hpos : 0 < vq.toNat := Nat.pos_of_ne_zero fun h => hzero (UInt64.toNat_inj.mp h)
    by_cases hless : uq < vq
    · rw [if_pos hless]
      rw [UInt64.lt_iff_toNat_lt] at hless
      have hdiv : uq / vq = 0 := UInt64.toNat_inj.mp <| by
        rw [UInt64.toNat_div, Nat.div_eq_of_lt hless]
        rfl
      have hmod : uq % vq = uq := UInt64.toNat_inj.mp <| by
        rw [UInt64.toNat_mod, Nat.mod_eq_of_lt hless]
      rw [hdiv, hmod]
    · rw [if_neg hless]
      rw [UInt64.lt_iff_toNat_lt] at hless
      have hresult : ∀ q r : UInt64, q.toNat = uq.toNat / vq.toNat → r.toNat = uq.toNat % vq.toNat →
          (q, if arq then some r else none) = (uq / vq, if arq then some (uq % vq) else none) := by
        intro q r hq hr
        rw [UInt64.toNat_inj.mp (hq.trans (UInt64.toNat_div ..).symm),
          UInt64.toNat_inj.mp (hr.trans (UInt64.toNat_mod ..).symm)]
      have hU := num_ofQuad uq
      have hV := num_ofQuad vq
      dsimp only
      cases hskip : skipZeros (ofQuad vq) 2 0 with
      | none =>
        have hzeros := (skipZeros_spec 2 0).2 hskip
        have hone : (ofQuad vq).num 1 4 = (ofQuad vq 4).toNat := by
          rw [show 4 = 3 + 1 from rfl, num_zeros fun i hi hi' => hzeros i hi (by omega)]
          simp only [num, digitsFrom, Nat.zero_mul, Nat.zero_add, Nat.add_zero, Nat.reduceAdd]
        rw [hV] at hone
        have hshort := shortDivision_spec (u := ofQuad uq) (t := (ofQuad vq).get 4)
          (by rwa [toNat_get, ← hone]) (get_lt _ 4)
        rw [toNat_get, ← hone, hU] at hshort
        exact congrArg some (hresult _ _ hshort.1 hshort.2)
      | some s =>
        obtain ⟨n, l⟩ := s
        obtain ⟨-, hsum, hdigit, hzeros⟩ := (skipZeros_spec 2 0).1 n l hskip
        have hlen : (ofQuad vq).num 1 4 = (ofQuad vq).num (l + 1) (n + 2) := by
          rw [show 4 = l + (n + 2) by omega, num_zeros fun i hi hi' => hzeros i hi (by omega),
            Nat.add_comm 1]
        have hfour : ofQuad uq 0 = 0 := rfl
        cases hskip' : skipZeros (ofQuad uq) (2 - n) 0 with
        | none =>
          have hzeros' := (skipZeros_spec (2 - n) 0).2 hskip'
          have hsmall : (ofQuad uq).num 1 4 < 65536 ^ (n + 1) := by
            rw [show 4 = 3 - n + (n + 1) by omega,
              num_zeros fun i hi hi' => hzeros' i hi (by omega)]
            exact num_lt
          have hlarge : 65536 ^ (n + 1) ≤ (ofQuad vq).num (l + 1) (n + 2) := le_num hdigit
          omega
        | some s =>
          obtain ⟨m, k⟩ := s
          obtain ⟨-, hsum', -, hzeros'⟩ := (skipZeros_spec (2 - n) 0).1 m k hskip'
          obtain ⟨u', q', hprogram, hrem, hquot⟩ := programD_spec (q := qspace) (u := ofQuad uq)
            (v := ofQuad vq) (l := l) (n := n + 2) (k := k) (m := m) (by omega) (by omega) hdigit
            (fun i hi => by
              rcases Nat.eq_zero_or_pos i with rfl | hi'
              · rfl
              · exact hzeros' i hi' hi)
          rw [hU, ← hlen, hV] at hrem hquot
          simp only [hskip', hprogram, Option.bind_eq_bind, Option.bind_some]
          exact congrArg some (hresult _ _ ((toNat_toQuad q').trans hquot)
            ((toNat_toQuad u').trans hrem))

end DiegOS.Libc
