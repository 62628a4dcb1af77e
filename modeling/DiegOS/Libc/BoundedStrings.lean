import DiegOS.Libc.Tokens
import Mathlib.Data.List.Basic

/-!
# Bounded string building

`strncat` and `strncpy` in one memory.  A pointer is an index, zero is `NULL`, and
the addresses that are written are kept in order; the strings may overlap.

Main results:

- Theorem `strncat_eq`: `strncat` as long as its bound is met.
- Lemma `strncpy_copies`: `strncpy` copies and pads.
- Theorem `bounded_iff`: both stay in bounds exactly if the string is not shorter than the
  bound.
-/

namespace DiegOS.Libc

/-! ## The code -/

/-- A memory and the addresses that were written. -/
structure Writing where
  memory : List UInt8
  written : List Nat
  deriving Repr, DecidableEq

/-- Store a character; a store behind the memory fails. -/
def Writing.put (w : Writing) (a : Nat) (c : UInt8) : Option Writing :=
  if a < w.memory.length then some ⟨w.memory.set a c, w.written ++ [a]⟩ else none

/-- The loop of `strncat` and the first one of `strncpy`: the memory, `s1` and what
is left of `n`. -/
def copyLoop : Nat → Writing → Nat → Nat → Option (Writing × Nat × Nat)
  | 0, w, s1, _ => some (w, s1, 0)
  | n + 1, w, s1, ct =>
    (w.memory[ct]?).bind fun c =>
      (w.put s1 c).bind fun w =>
        if c = 0 then some (w, s1 + 1, n) else copyLoop n w (s1 + 1) (ct + 1)

/-- The second loop of `strncpy`. -/
def padLoop : Nat → Writing → Nat → Option Writing
  | 0, w, _ => some w
  | n + 1, w, s1 => (w.put s1 0).bind fun w => padLoop n w (s1 + 1)

/-- `strncat`; the terminator is found as in `strlen`. -/
def strncat (memory : List UInt8) (s ct n : Nat) : Option Writing :=
  if s ≠ 0 ∧ ct ≠ 0 ∧ 0 < n then
    (strlen (memory.drop s)).bind fun len =>
      (copyLoop n ⟨memory, []⟩ (s + len) ct).bind fun r => r.1.put r.2.1 0
  else some ⟨memory, []⟩

/-- `strncpy`, with the addresses that it writes. -/
def strncpyWriting (memory : List UInt8) (s ct n : Nat) : Option Writing :=
  if s ≠ 0 ∧ ct ≠ 0 ∧ 0 < n then
    (copyLoop n ⟨memory, []⟩ s ct).bind fun r => padLoop r.2.2 r.1 r.2.1
  else some ⟨memory, []⟩

/-! ## Strings in a memory -/

/-- A pointer to a string in a memory. -/
structure PointsTo (memory : List UInt8) (p : Nat) (text : List UInt8) : Prop where
  pointer : p ≠ 0
  noZero : 0 ∉ text
  bytes : StringAt memory p text

section Copies

variable {memory text chars : List UInt8} {w w' w'' : Writing} {p s ct d k n : Nat} {c : UInt8}
  {f g : Nat → Option UInt8}

section

variable (h : PointsTo memory p text)
include h

lemma PointsTo.read {i : Nat} (hi : i ≤ text.length) :
    memory[p + i]? = (text ++ [0])[i]? := by
  obtain ⟨rest, hrest⟩ := h.bytes
  have hlen : i < (text ++ [0]).length := by
    rw [List.length_append, List.length_singleton]
    omega
  rw [← List.getElem?_drop, hrest, ← List.singleton_append, ← List.append_assoc,
    List.getElem?_append_left hlen]

lemma PointsTo.read_text {i : Nat} (hi : i < text.length) :
    memory[p + i]? = text[i]? := by
  rw [h.read (Nat.le_of_lt hi), List.getElem?_append_left hi]

lemma PointsTo.read_end : memory[p + text.length]? = some 0 := by
  rw [h.read (Nat.le_refl _), List.getElem?_concat_length]

/-- No character of a string is its terminator. -/
lemma PointsTo.read_ne {i : Nat} (hi : i < text.length) :
    memory[p + i]? ≠ some 0 := by
  rw [h.read_text hi]
  exact fun hzero => h.noZero (List.mem_of_getElem? hzero)

end

lemma PointsTo.intro (hp : p ≠ 0) (htext : 0 ∉ text)
    (h : ∀ i < text.length, memory[p + i]? = text[i]?) (hend : memory[p + text.length]? = some 0) :
    PointsTo memory p text := by
  have hprefix : text ++ [0] <+: memory.drop p := by
    refine List.prefix_iff_getElem?.mpr fun i hi => ?_
    rw [List.length_append, List.length_singleton] at hi
    rw [List.getElem?_drop, ← List.getElem?_eq_getElem]
    rcases Nat.lt_or_eq_of_le (Nat.le_of_lt_succ hi) with hi | rfl
    · rw [h i hi, List.getElem?_append_left hi]
    · rw [hend, List.getElem?_concat_length]
  obtain ⟨rest, hrest⟩ := hprefix
  exact ⟨hp, htext, rest, by rw [← hrest, List.append_assoc, List.singleton_append]⟩

lemma strlen_prefix (htext : 0 ∉ text) (rest : List UInt8) :
    strlen (text ++ 0 :: rest) = some text.length := by
  induction text with
  | nil => rfl
  | cons c text ih =>
    rw [List.mem_cons, not_or] at htext
    rw [List.cons_append, strlen, if_neg (Ne.symm htext.1), ih htext.2]
    rfl

lemma PointsTo.strlen_eq (h : PointsTo memory p text) :
    strlen (memory.drop p) = some text.length := by
  obtain ⟨rest, hrest⟩ := h.bytes
  rw [hrest, strlen_prefix h.noZero]

/-! ## The loops -/

/-- So many characters have been stored one after the other, and nothing else. -/
structure Stored (w w' : Writing) (d k : Nat) (f : Nat → Option UInt8) : Prop where
  length : w'.memory.length = w.memory.length
  written : w'.written = w.written ++ List.range' d k
  stored : ∀ i < k, w'.memory[d + i]? = f i
  kept : ∀ a, ¬(d ≤ a ∧ a < d + k) → w'.memory[a]? = w.memory[a]?

lemma Stored.zero (w : Writing) (d : Nat) (f : Nat → Option UInt8) : Stored w w d 0 f where
  length := rfl
  written := (List.append_nil _).symm
  stored := fun _ hi => absurd hi (Nat.not_lt_zero _)
  kept := fun _ _ => rfl

/-- One more character. -/
lemma Stored.succ (h : Stored w w' d k f) (hc : f k = some c) (hroom : d + k < w.memory.length) :
    ∃ w'', w'.put (d + k) c = some w'' ∧ Stored w w'' d (k + 1) f := by
  refine ⟨_, if_pos (h.length ▸ hroom), ⟨?_, ?_, ?_, ?_⟩⟩
  · rw [List.length_set, h.length]
  · rw [h.written, List.append_assoc, List.range'_1_concat]
  · intro i hi
    rcases Nat.lt_or_eq_of_le (Nat.le_of_lt_succ hi) with hi | rfl
    · rw [List.getElem?_set_ne (by omega), h.stored i hi]
    · rw [List.getElem?_set_self (h.length ▸ hroom), hc]
  · intro a ha
    rw [List.getElem?_set_ne (by omega), h.kept a (by omega)]

lemma Stored.append {m : Nat} (h : Stored w w' d k f)
    (h' : Stored w' w'' (d + k) m fun i => f (k + i)) : Stored w w'' d (k + m) f := by
  refine ⟨h'.length.trans h.length, ?_, ?_, ?_⟩
  · rw [h'.written, h.written, List.append_assoc, List.range'_append_1]
  · intro i hi
    by_cases hlt : i < k
    · rw [h'.kept _ (by omega), h.stored i hlt]
    · have hstored := h'.stored (i - k) (by omega)
      rwa [Nat.add_assoc, Nat.add_sub_cancel' (Nat.not_lt.mp hlt)] at hstored
  · intro a ha
    rw [h'.kept a (by omega), h.kept a (by omega)]

lemma Stored.congr (h : Stored w w' d k f) (hfg : ∀ i < k, f i = g i) : Stored w w' d k g :=
  ⟨h.length, h.written, fun i hi => (h.stored i hi).trans (hfg i hi), h.kept⟩

/-- The loop copies characters if none of them is overwritten before it is read. -/
lemma copyLoop_add (hread : ∀ i < k, ct + i < d ∨ d ≤ ct)
    (hzero : ∀ i < k, memory[ct + i]? ≠ some 0) (hct : ct + k ≤ memory.length)
    (hroom : d + k ≤ memory.length) :
    ∃ w, Stored ⟨memory, []⟩ w d k (fun i => memory[ct + i]?) ∧
      ∀ n, copyLoop (k + n) ⟨memory, []⟩ d ct = copyLoop n w (d + k) (ct + k) := by
  induction k with
  | zero => exact ⟨_, .zero _ _ _, fun n => by rw [Nat.zero_add, Nat.add_zero, Nat.add_zero]⟩
  | succ k ih =>
    obtain ⟨w, hstored, hloop⟩ := ih (fun i hi => hread i (Nat.lt_succ_of_lt hi))
      (fun i hi => hzero i (Nat.lt_succ_of_lt hi)) (by omega) (by omega)
    have hc := List.getElem?_eq_getElem (show ct + k < memory.length by omega)
    have hfirst := hread k (Nat.lt_succ_self k)
    have hsame := hstored.kept (ct + k) (by omega)
    obtain ⟨w', hput, hstored'⟩ := hstored.succ hc hroom
    have hne : memory[ct + k] ≠ 0 := fun h => hzero k (Nat.lt_succ_self k) (h ▸ hc)
    refine ⟨w', hstored', fun n => ?_⟩
    rw [Nat.add_assoc, hloop, Nat.add_comm 1 n, copyLoop, hsame, hc, Option.bind_some, hput,
      Option.bind_some, if_neg hne, Nat.add_assoc, Nat.add_assoc]

/-- The second loop of `strncpy` stores terminators. -/
lemma padLoop_eq (hroom : d + n ≤ w.memory.length) :
    ∃ w', padLoop n w d = some w' ∧ Stored w w' d n fun _ => some 0 := by
  have hadd : ∀ k ≤ n, ∃ w', Stored w w' d k (fun _ => some 0) ∧
      ∀ n, padLoop (k + n) w d = padLoop n w' (d + k) := by
    intro k hk
    induction k with
    | zero => exact ⟨w, .zero _ _ _, fun n => by rw [Nat.zero_add, Nat.add_zero]⟩
    | succ k ih =>
      obtain ⟨w', hstored, hloop⟩ := ih (Nat.le_of_lt hk)
      obtain ⟨w'', hput, hstored'⟩ := hstored.succ (c := 0) rfl (by omega)
      refine ⟨w'', hstored', fun n => ?_⟩
      rw [Nat.add_assoc, hloop, Nat.add_comm 1 n, padLoop, hput, Option.bind_some, Nat.add_assoc]
  obtain ⟨w', hstored, hloop⟩ := hadd n (Nat.le_refl n)
  exact ⟨w', hloop 0, hstored⟩

/-- The loop of `strncat` ends behind its start. -/
lemma copyLoop_le {s1 left : Nat} (h : copyLoop n w d ct = some (w', s1, left)) :
    d + min n 1 ≤ s1 := by
  induction n generalizing w d ct with
  | zero =>
    rw [copyLoop, Option.some.injEq, Prod.mk.injEq, Prod.mk.injEq] at h
    omega
  | succ n ih =>
    rw [copyLoop, Option.bind_eq_some_iff] at h
    obtain ⟨c, -, h⟩ := h
    obtain ⟨w'', -, h⟩ := Option.bind_eq_some_iff.mp h
    split at h
    · rw [Option.some.injEq, Prod.mk.injEq, Prod.mk.injEq] at h
      omega
    · have hle := ih h
      omega

/-! ## The functions -/

/-- `strncat` leaves the string followed by the first characters of the other one, and writes
to no address behind the terminator. -/
def AppendsInBounds (memory : List UInt8) (s ct n : Nat) (text chars : List UInt8) : Prop :=
  ∃ w, strncat memory s ct n = some w ∧ PointsTo w.memory s (text ++ chars.take n) ∧
    (∀ a ∈ w.written, a ≤ s + (text.length + min n chars.length)) ∧
    ∀ a ∉ w.written, w.memory[a]? = memory[a]?

/-- `strncpy` writes the destination and nothing else, the copy being padded. -/
def CopiesInBounds (memory : List UInt8) (s ct n : Nat) (chars : List UInt8) : Prop :=
  ∃ w, strncpyWriting memory s ct n = some w ∧ w.written = List.range' s n ∧
    (∀ i < n, w.memory[s + i]? = some (chars.getD i 0)) ∧
    ∀ a ∉ w.written, w.memory[a]? = memory[a]?

/-- No character is overwritten before it is read: the destination does not start behind the first
one and within what is read. -/
def ReadFirst (s ct n len : Nat) : Prop := s ≤ ct ∨ ct + n ≤ s ∨ ct + len < s

/-- The claim of both functions, wherever the memory has room for what they should write. -/
def InBounds (memory : List UInt8) (s ct n : Nat) (text chars : List UInt8) : Prop :=
  AppendsInBounds memory s ct n text chars ∧
    (s + n ≤ memory.length → ReadFirst s ct n chars.length → CopiesInBounds memory s ct n chars)

/-- The terminator of a string is not one of the characters that are appended to it. -/
lemma PointsTo.apart (hs : PointsTo memory s text) (hct : PointsTo memory ct chars) {i : Nat}
    (hi : i < chars.length) : ct + i < s + text.length ∨ s + text.length ≤ ct := by
  by_contra hnot
  rw [not_or, Nat.not_lt, Nat.not_le] at hnot
  obtain ⟨hle, hlt⟩ := hnot
  refine hct.read_ne (i := s + text.length - ct) (by omega) ?_
  rw [Nat.add_sub_cancel' (Nat.le_of_lt hlt), hs.read_end]

lemma PointsTo.length_lt (h : PointsTo memory p text) : p + text.length < memory.length :=
  (List.getElem?_eq_some_iff.mp h.read_end).1

/-- The characters in front of a terminator are copied. -/
lemma PointsTo.copyLoop_add (h : PointsTo memory ct chars) (hk : k ≤ chars.length)
    (hread : ∀ i < k, ct + i < d ∨ d ≤ ct) (hroom : d + k ≤ memory.length) :
    ∃ w, Stored ⟨memory, []⟩ w d k (fun i => chars[i]?) ∧
      ∀ n, copyLoop (k + n) ⟨memory, []⟩ d ct = copyLoop n w (d + k) (ct + k) := by
  have hlen := h.length_lt
  obtain ⟨w, hstored, hloop⟩ := Libc.copyLoop_add hread
    (fun i hi => h.read_ne (Nat.lt_of_lt_of_le hi hk)) (by omega) hroom
  exact ⟨w, hstored.congr fun i hi => h.read_text (Nat.lt_of_lt_of_le hi hk), hloop⟩

/-- A string behind which another one has been stored. -/
lemma PointsTo.append (h : PointsTo w.memory p text) (hchars : 0 ∉ chars)
    (hstored : Stored w w' (p + text.length) (chars.length + 1) fun i => (chars ++ [0])[i]?) :
    PointsTo w'.memory p (text ++ chars) := by
  have hnew : ∀ i ≤ chars.length, w'.memory[p + text.length + i]? = (chars ++ [0])[i]? :=
    fun i hi => hstored.stored i (Nat.lt_succ_of_le hi)
  refine .intro h.pointer ?_ ?_ ?_
  · rw [List.mem_append, not_or]
    exact ⟨h.noZero, hchars⟩
  · intro i hi
    rw [List.length_append] at hi
    by_cases hlt : i < text.length
    · rw [hstored.kept _ (by omega), h.read_text hlt, List.getElem?_append_left hlt]
    · have hsplit : p + text.length + (i - text.length) = p + i := by omega
      have hread := hnew (i - text.length) (by omega)
      rw [hsplit, List.getElem?_append_left (by omega)] at hread
      rw [hread, List.getElem?_append_right (Nat.not_lt.mp hlt)]
  · rw [List.length_append, ← Nat.add_assoc, hnew _ (Nat.le_refl _), List.getElem?_concat_length]

section

variable (hs : PointsTo memory s text)
include hs

theorem strncat_eq (hct : PointsTo memory ct chars) (hn : 0 < n) :
    strncat memory s ct n =
      (copyLoop n ⟨memory, []⟩ (s + text.length) ct).bind fun r => r.1.put r.2.1 0 := by
  rw [strncat, if_pos ⟨hs.pointer, hct.pointer, hn⟩, hs.strlen_eq, Option.bind_some]

/-- `strncat` as long as its bound is met. -/
lemma strncat_appends (hct : PointsTo memory ct chars)
    (hroom : s + (text.length + min n chars.length) < memory.length) (hn : n ≤ chars.length) :
    AppendsInBounds memory s ct n text chars := by
  rw [Nat.min_eq_left hn] at hroom
  rcases Nat.eq_zero_or_pos n with rfl | hpos
  · refine ⟨⟨memory, []⟩, if_neg (by simp), ?_, ?_, fun _ _ => rfl⟩
    · rwa [List.take_zero, List.append_nil]
    · exact fun a ha => absurd ha List.not_mem_nil
  · have htake : (chars.take n).length = n := List.length_take_of_le hn
    obtain ⟨w, hstored, hloop⟩ := hct.copyLoop_add hn
      (fun i hi => hs.apart hct (Nat.lt_of_lt_of_le hi hn)) (by omega)
    have hchars := hstored.congr (g := fun i => (chars.take n ++ [0])[i]?) fun i hi => by
      rw [List.getElem?_append_left (by omega), List.getElem?_take_of_lt hi]
    have hend : (chars.take n ++ [0])[n]? = some 0 := by
      rw [List.getElem?_append_right (by omega), htake, Nat.sub_self]
      rfl
    obtain ⟨w', hput, hstored'⟩ := hchars.succ hend
      (show s + text.length + n < memory.length by omega)
    refine ⟨w', ?_, ?_, ?_, ?_⟩
    · rw [strncat_eq hs hct hpos, ← Nat.add_zero n, hloop 0]
      exact hput
    · have hzero : 0 ∉ chars.take n := fun h => hct.noZero (List.mem_of_mem_take h)
      exact hs.append (w := ⟨memory, []⟩) hzero (by rwa [htake])
    · intro a ha
      rw [hstored'.written, List.nil_append, List.mem_range'_1] at ha
      omega
    · intro a ha
      rw [hstored'.written, List.nil_append, List.mem_range'_1] at ha
      exact hstored'.kept a ha

/-- With a bound that is not met, `strncat` writes behind the terminator. -/
lemma strncat_writes_behind (hct : PointsTo memory ct chars)
    (hroom : s + (text.length + min n chars.length) < memory.length) (hn : chars.length < n)
    (h : strncat memory s ct n = some w) :
    ∃ a ∈ w.written, s + (text.length + chars.length) < a := by
  obtain ⟨w', -, hloop⟩ := hct.copyLoop_add (Nat.le_refl _)
    (fun i hi => hs.apart hct hi) (show s + text.length + chars.length ≤ _ by omega)
  rw [strncat_eq hs hct (by omega), ← Nat.add_sub_cancel' (Nat.le_of_lt hn), hloop,
    Option.bind_eq_some_iff] at h
  obtain ⟨⟨w'', s1, left⟩, hcopy, hput⟩ := h
  have hle := copyLoop_le hcopy
  rw [Writing.put, Option.ite_none_right_eq_some, Option.some.injEq] at hput
  refine ⟨s1, ?_, by omega⟩
  rw [← hput.2]
  exact List.mem_append_right _ (List.mem_singleton_self s1)

end

/-- `strncpy` copies and pads. -/
lemma strncpy_copies (hct : PointsTo memory ct chars) (hs : s ≠ 0) (hroom : s + n ≤ memory.length)
    (hfirst : ReadFirst s ct n chars.length) : CopiesInBounds memory s ct n chars := by
  have hstores : ∃ w, strncpyWriting memory s ct n = some w ∧
      Stored ⟨memory, []⟩ w s n fun i => some (chars.getD i 0) := by
    rcases Nat.eq_zero_or_pos n with rfl | hpos
    · exact ⟨_, if_neg (by simp), .zero _ _ _⟩
    rw [strncpyWriting, if_pos ⟨hs, hct.pointer, hpos⟩]
    have hget : ∀ i < chars.length, chars[i]? = some (chars.getD i 0) := fun i hi => by
      rw [List.getD_eq_getElem?_getD, List.getElem?_eq_getElem hi, Option.getD_some]
    have hpad : ∀ i, chars.length ≤ i → chars.getD i 0 = 0 := fun i hi => by
      rw [List.getD_eq_getElem?_getD, List.getElem?_eq_none hi, Option.getD_none]
    by_cases hn : n ≤ chars.length
    · obtain ⟨w, hstored, hloop⟩ := hct.copyLoop_add (d := s) hn
        (fun i hi => by rcases hfirst with h | h | h <;> omega) (by omega)
      refine ⟨w, ?_, hstored.congr fun i hi => hget i (by omega)⟩
      rw [← Nat.add_zero n, hloop 0]
      rfl
    · obtain ⟨m, rfl⟩ : ∃ m, n = chars.length + (m + 1) := ⟨n - chars.length - 1, by omega⟩
      obtain ⟨w, hstored, hloop⟩ := hct.copyLoop_add (d := s) (Nat.le_refl _)
        (fun i hi => by rcases hfirst with h | h | h <;> omega) (by omega)
      have hzero : w.memory[ct + chars.length]? = some 0 := by
        rw [hstored.kept _ (by rcases hfirst with h | h | h <;> omega), hct.read_end]
      have hchars := hstored.congr fun i hi => hget i hi
      obtain ⟨w', hput, hstored'⟩ := hchars.succ (c := 0) (by rw [hpad _ (Nat.le_refl _)])
        (show s + chars.length < memory.length by omega)
      have hlength : w'.memory.length = memory.length := hstored'.length
      obtain ⟨w'', hrun, hpadded⟩ := padLoop_eq (w := w') (d := s + (chars.length + 1)) (n := m)
        (by omega)
      refine ⟨w'', ?_, ?_⟩
      · rw [hloop, copyLoop, hzero, Option.bind_some, hput, Option.bind_some, if_pos rfl,
          Option.bind_some]
        exact hrun
      · have happend := hstored'.append (hpadded.congr fun i hi => by
          rw [hpad _ (by omega)])
        rwa [Nat.add_assoc, Nat.add_comm 1 m] at happend
  obtain ⟨w, hrun, hstored⟩ := hstores
  refine ⟨w, hrun, hstored.written, hstored.stored, fun a ha => hstored.kept a ?_⟩
  rwa [hstored.written, List.nil_append, List.mem_range'_1] at ha

/-- Both functions stay in bounds exactly if the string is not shorter than the bound. -/
theorem bounded_iff (hs : PointsTo memory s text) (hct : PointsTo memory ct chars)
    (hroom : s + (text.length + min n chars.length) < memory.length) :
    InBounds memory s ct n text chars ↔ n ≤ chars.length := by
  constructor
  · rintro ⟨⟨w, hrun, -, hbound, -⟩, -⟩
    by_contra hn
    obtain ⟨a, ha, hlt⟩ := strncat_writes_behind hs hct hroom (Nat.not_le.mp hn) hrun
    have hle := hbound a ha
    omega
  · intro hn
    exact ⟨strncat_appends hs hct hroom hn, fun hroom hfirst =>
      strncpy_copies hct hs.pointer hroom hfirst⟩

end Copies

/-- Two letters behind a pointer, a buffer for two more and a string. -/
def filled : List UInt8 := [1, 0x61, 0, 0x7A, 0x7A, 0x62, 0]

theorem bounded_filled : InBounds filled 1 5 1 [0x61] [0x62] :=
  (bounded_iff ⟨by decide, by decide, [0x7A, 0x7A, 0x62, 0], rfl⟩ ⟨by decide, by decide, [], rfl⟩
    (by decide)).mpr (by decide)

/-- A bound of two, and a string of one letter: a third byte is written. -/
theorem not_bounded_filled : ¬InBounds filled 1 5 2 [0x61] [0x62] := by
  rintro ⟨⟨w, hrun, -, hbound, -⟩, -⟩
  have hw : strncat filled 1 5 2 =
      some ⟨[1, 0x61, 0x62, 0, 0, 0x62, 0], [2, 3, 4]⟩ := by decide
  rw [hw, Option.some.injEq] at hrun
  subst hrun
  exact absurd (hbound 4 (by decide)) (by decide)

end DiegOS.Libc
