import DiegOS.Libc.Streams
import Mathlib.Tactic.SplitIfs

/-!
# String functions

The string functions of the C library that compare and search.  A pointer into a string is the
rest of the buffer from there on, the terminator included; a character read behind the buffer is
`none`.  Pointers are not `NULL`, and `char` is signed.

Main results:

- Theorem `memcmp_eq_bytes`: the words that `memcmp` skips do not change its result.
- Theorem `tolower_ofChar`: `tolower` of a signed character folds the byte.
-/

namespace DiegOS.Libc

/-! ## Characters -/

def isupper (c : Int) : Int := if 0x41 ≤ c ∧ c ≤ 0x5A then 1 else 0

def tolower (c : Int) : Int := if isupper c ≠ 0 then c - 0x41 + 0x61 else c

/-- A byte with its case folded. -/
def fold (c : UInt8) : UInt8 := if 0x41 ≤ c ∧ c ≤ 0x5A then c + 0x20 else c

lemma fold_toNat (c : UInt8) :
    (fold c).toNat = if 0x41 ≤ c.toNat ∧ c.toNat ≤ 0x5A then c.toNat + 0x20 else c.toNat := by
  have hc : c.toNat < 256 := UInt8.toNat_lt_size c
  simp only [fold, UInt8.le_iff_toNat_le, UInt8.reduceToNat]
  split_ifs with h
  · simp only [UInt8.toNat_add, UInt8.reduceToNat]
    omega
  · rfl

lemma ofChar_eq (c : UInt8) :
    ofChar c = if c.toNat < 0x80 then (c.toNat : Int) else c.toNat - 0x100 := by
  simp only [ofChar, UInt8.lt_iff_toNat_lt, UInt8.reduceToNat]

lemma tolower_eq (c : Int) : tolower c = if 0x41 ≤ c ∧ c ≤ 0x5A then c + 0x20 else c := by
  unfold tolower isupper
  split_ifs <;> omega

/-- `tolower` of a signed character folds the byte. -/
theorem tolower_ofChar (c : UInt8) : tolower (ofChar c) = ofChar (fold c) := by
  have hc : c.toNat < 256 := UInt8.toNat_lt_size c
  rw [tolower_eq, ofChar_eq, ofChar_eq, fold_toNat]
  split_ifs <;> omega

lemma tolower_toNat (c : UInt8) : tolower c.toNat = (fold c).toNat := by
  rw [tolower_eq, fold_toNat]
  split_ifs <;> omega

lemma ofChar_inj {c d : UInt8} : ofChar c = ofChar d ↔ c = d := by
  rw [ofChar_eq, ofChar_eq, ← UInt8.toNat_inj]
  have hc : c.toNat < 256 := UInt8.toNat_lt_size c
  have hd : d.toNat < 256 := UInt8.toNat_lt_size d
  split_ifs <;> omega

@[simp]
lemma fold_eq_zero {c : UInt8} : fold c = 0 ↔ c = 0 := by
  rw [← UInt8.toNat_inj, ← UInt8.toNat_inj, fold_toNat]
  split_ifs with h
  · simp only [UInt8.reduceToNat]
    omega
  · rfl

/-! ## Comparisons -/

/-- The loop of `strcmp` and `stricmp`, whose characters pass through a function. -/
def compareLoop (f : Int → Int) : List UInt8 → List UInt8 → Option Int
  | c :: cs, d :: ct =>
    if f (ofChar c) = f (ofChar d) then
      if c = 0 then some 0 else compareLoop f cs ct
    else some (f (ofChar c) - f (ofChar d))
  | _, _ => none

def strcmp : List UInt8 → List UInt8 → Option Int := compareLoop id

def stricmp : List UInt8 → List UInt8 → Option Int := compareLoop tolower

def strncmp : List UInt8 → List UInt8 → Nat → Option Int
  | _, _, 0 => some 0
  | c :: cs, d :: ct, n + 1 =>
    if ofChar c ≠ ofChar d then
      some (if c = 0 then -1 else if d = 0 then 1 else (c.toNat : Int) - d.toNat)
    else if c = 0 then some 0
    else strncmp cs ct n
  | _, _, _ + 1 => none

/-- `strnicmp` with the byte in front of `ct`, which it steps back to. -/
def strnicmp : UInt8 → List UInt8 → List UInt8 → Nat → Option Int
  | _, _, _, 0 => some 0
  | before, c :: cs, d :: ct, n + 1 =>
    if tolower (ofChar c) ≠ tolower (ofChar d) then
      some (if c = 0 then -1 else if before = 0 then 1
        else tolower c.toNat - tolower before.toNat)
    else
      -- both pointers have moved when the terminator is looked for
      cs.head?.bind fun c' => if c' = 0 then some 0 else strnicmp d cs ct n
  | _, _, _, _ + 1 => none

section Strnicmp

variable {before c c' d : UInt8} {cs ct : List UInt8} {n : Nat}

lemma strnicmp_of_ne (h : fold c ≠ fold d) :
    strnicmp before (c :: cs) (d :: ct) (n + 1) =
      some (if c = 0 then -1 else if before = 0 then 1
        else ((fold c).toNat : Int) - (fold before).toNat) := by
  have hne : tolower (ofChar c) ≠ tolower (ofChar d) := by
    rw [tolower_ofChar, tolower_ofChar]
    exact ofChar_inj.not.mpr h
  rw [strnicmp, if_pos hne, tolower_toNat, tolower_toNat]

variable (h : fold c = fold d)
include h

lemma tolower_eq_of_fold : ¬tolower (ofChar c) ≠ tolower (ofChar d) := by
  rw [tolower_ofChar, tolower_ofChar, h]
  exact not_not.mpr rfl

lemma strnicmp_of_eq (hc' : c' ≠ 0) :
    strnicmp before (c :: c' :: cs) (d :: ct) (n + 1) = strnicmp d (c' :: cs) ct n := by
  rw [strnicmp, if_neg (tolower_eq_of_fold h), List.head?_cons, Option.bind_some, if_neg hc']

lemma strnicmp_end :
    strnicmp before (c :: 0 :: cs) (d :: ct) (n + 1) = some 0 := by
  rw [strnicmp, if_neg (tolower_eq_of_fold h), List.head?_cons, Option.bind_some, if_pos rfl]

end Strnicmp

/-! ## Blocks of memory -/

/-- A `long` from its four bytes. -/
def longOf (b₀ b₁ b₂ b₃ : UInt8) : Nat :=
  b₀.toNat + 0x100 * b₁.toNat + 0x10000 * b₂.toNat + 0x1000000 * b₃.toNat

/-- The loop of `memcmp` over words. -/
def memcmpWords : List UInt8 → List UInt8 → Nat → Option (List UInt8 × List UInt8 × Nat)
  | c₀ :: c₁ :: c₂ :: c₃ :: p₃, d₀ :: d₁ :: d₂ :: d₃ :: p₄, n =>
    if 4 < n ∧ longOf c₀ c₁ c₂ c₃ = longOf d₀ d₁ d₂ d₃ then memcmpWords p₃ p₄ (n - 4)
    else some (c₀ :: c₁ :: c₂ :: c₃ :: p₃, d₀ :: d₁ :: d₂ :: d₃ :: p₄, n)
  | p₃, p₄, n => if 4 < n then none else some (p₃, p₄, n)

/-- The loop of `memcmp` over bytes. -/
def memcmpBytes : List UInt8 → List UInt8 → Nat → Option Int
  | _, _, 0 => some 0
  | c :: p₁, d :: p₂, n + 1 =>
    if ofChar c = ofChar d then memcmpBytes p₁ p₂ n else some (ofChar c - ofChar d)
  | _, _, _ + 1 => none

/-- `memcmp` of the blocks at two addresses. -/
def memcmp (a b : Nat) (cs ct : List UInt8) (n : Nat) : Option Int :=
  if 0 < n then
    if (a ||| b) &&& 3 = 0 then
      (memcmpWords cs ct n).bind fun p => memcmpBytes p.1 p.2.1 p.2.2
    else memcmpBytes cs ct n
  else some 0

lemma longOf_inj {c₀ c₁ c₂ c₃ d₀ d₁ d₂ d₃ : UInt8} :
    longOf c₀ c₁ c₂ c₃ = longOf d₀ d₁ d₂ d₃ ↔ c₀ = d₀ ∧ c₁ = d₁ ∧ c₂ = d₂ ∧ c₃ = d₃ := by
  simp only [← UInt8.toNat_inj, longOf]
  have hc₀ : c₀.toNat < 256 := UInt8.toNat_lt_size c₀
  have hc₁ : c₁.toNat < 256 := UInt8.toNat_lt_size c₁
  have hc₂ : c₂.toNat < 256 := UInt8.toNat_lt_size c₂
  have hd₀ : d₀.toNat < 256 := UInt8.toNat_lt_size d₀
  have hd₁ : d₁.toNat < 256 := UInt8.toNat_lt_size d₁
  have hd₂ : d₂.toNat < 256 := UInt8.toNat_lt_size d₂
  omega

lemma memcmpBytes_cons_self (c : UInt8) (p₁ p₂ : List UInt8) (n : Nat) :
    memcmpBytes (c :: p₁) (c :: p₂) (n + 1) = memcmpBytes p₁ p₂ n := by
  rw [memcmpBytes, if_pos rfl]

/-- The words that are skipped are equal. -/
lemma memcmpWords_bind {cs ct : List UInt8} {n : Nat} (hcs : n ≤ cs.length)
    (hct : n ≤ ct.length) :
    ((memcmpWords cs ct n).bind fun p => memcmpBytes p.1 p.2.1 p.2.2) = memcmpBytes cs ct n := by
  induction cs, ct, n using memcmpWords.induct with
  | case1 c₀ c₁ c₂ c₃ p₃ d₀ d₁ d₂ d₃ p₄ n h ih =>
    rw [memcmpWords, if_pos h]
    obtain ⟨hn, heq⟩ := h
    obtain ⟨rfl, rfl, rfl, rfl⟩ := longOf_inj.mp heq
    simp only [List.length_cons] at hcs hct
    rw [ih (by omega) (by omega)]
    obtain ⟨k, rfl⟩ : ∃ k, n = k + 1 + 1 + 1 + 1 := ⟨n - 4, by omega⟩
    rw [memcmpBytes_cons_self, memcmpBytes_cons_self, memcmpBytes_cons_self,
      memcmpBytes_cons_self]
    rfl
  | case2 c₀ c₁ c₂ c₃ p₃ d₀ d₁ d₂ d₃ p₄ n h =>
    rw [memcmpWords, if_neg h]
    rfl
  | case3 p₃ p₄ n hshort hn =>
    -- a block of more than four bytes has a first word
    match p₃, p₄ with
    | c₀ :: c₁ :: c₂ :: c₃ :: p₃, d₀ :: d₁ :: d₂ :: d₃ :: p₄ =>
      exact absurd rfl (hshort c₀ c₁ c₂ c₃ p₃ d₀ d₁ d₂ d₃ p₄ rfl)
    | [], _ | [_], _ | [_, _], _ | [_, _, _], _ =>
      simp only [List.length_cons, List.length_nil] at hcs
      omega
    | _ :: _ :: _ :: _ :: _, [] | _ :: _ :: _ :: _ :: _, [_] | _ :: _ :: _ :: _ :: _, [_, _]
    | _ :: _ :: _ :: _ :: _, [_, _, _] =>
      simp only [List.length_cons, List.length_nil] at hct
      omega
  | case4 p₃ p₄ n hshort hn =>
    rw [memcmpWords, if_neg hn]
    · rfl
    · exact hshort

/-- `memcmp` compares the bytes, whatever the alignment. -/
theorem memcmp_eq_bytes {cs ct : List UInt8} {n : Nat} (hcs : n ≤ cs.length)
    (hct : n ≤ ct.length) (a b : Nat) : memcmp a b cs ct n = memcmpBytes cs ct n := by
  unfold memcmp
  split_ifs with hn haligned
  · exact memcmpWords_bind hcs hct
  · rfl
  · rw [show n = 0 by omega, memcmpBytes]

/-! ## Searches -/

def strlen : List UInt8 → Option Nat
  | [] => none
  | c :: s => if c = 0 then some 0 else (strlen s).map (· + 1)

/-- Whether a search stays in its loop: the first characters differ, or the comparison tells. -/
def stays (f : Int → Int) (compare : List UInt8 → Option Int) :
    List UInt8 → List UInt8 → Option Bool
  | d :: _, c :: cs =>
    if f (ofChar c) ≠ f (ofChar d) then some true else (compare (c :: cs)).map (· ≠ 0)
  | _, _ => none

/-- The loop of the three searches: how many characters it goes on, or `none` for
`NULL`. -/
def searchLoop (test : List UInt8 → Option Bool) : List UInt8 → Option (Option Nat)
  | [] => none
  | c :: cs =>
    match test (c :: cs) with
    | none => none
    | some false => some (some 0)
    | some true => if c = 0 then some none else (searchLoop test cs).map (·.map (· + 1))

def strstr (cs ct : List UInt8) : Option (Option Nat) :=
  (strlen ct).bind fun len =>
    if len = 0 then some (some 0)
    else searchLoop (stays id (fun cs => strncmp cs ct len) ct) cs

/-- `strcasestr` with the byte in front of `ct`. -/
def strcasestr (before : UInt8) (cs ct : List UInt8) : Option (Option Nat) :=
  (strlen ct).bind fun len =>
    if len = 0 then some (some 0)
    else searchLoop (stays tolower (fun cs => strnicmp before cs ct len) ct) cs

def strnstr (cs ct : List UInt8) (len : Nat) : Option (Option Nat) :=
  (strlen ct).bind fun len2 =>
    if len2 = 0 then some (some 0)
    else
      let len := if len2 < len then len2 else len
      searchLoop (stays id (fun cs => strncmp cs ct len) ct) cs

end DiegOS.Libc
