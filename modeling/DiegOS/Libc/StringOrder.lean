import DiegOS.Lib.Lexicographic
import DiegOS.Libc.Strings

/-!
# The order of strings

The sign of what `strcmp`, `strncmp`, `stricmp`, `strnicmp` and
`memcmp` return, against the lexicographic order of the characters as unsigned bytes.  All
five look for the characters at which the strings stop being equal.  `strncmp` compares these
as unsigned bytes; three of the others subtract them as signed characters; `strnicmp` ends at
the terminator of its first string, and otherwise steps one character too far back in the second.

Main results:

- Theorem `strncmp_tells`: `strncmp` tells the order of any two strings.
- Theorem `ordered_iff`: the comparisons tell the order exactly if the characters at which the
  strings stop being equal are both ASCII or both not, and the character that `strnicmp` looks
  at is on the same side.
-/

namespace DiegOS.Libc

open Lib (SignOf stop stop_nil_left stop_nil_right stop_cons signOf_iff)

/-- A call returned a number whose sign tells how two strings are ordered. -/
def Tells (r : Option Int) (l l' : List UInt8) : Prop :=
  ∃ i, r = some i ∧ SignOf (· < ·) i l l'

/-- A number tells how two characters are ordered. -/
def SignAt (i : Int) (s : UInt8 × UInt8) : Prop := (i < 0 ↔ s.1 < s.2) ∧ (i = 0 ↔ s.1 = s.2)

/-- Both characters are ASCII or both are not. -/
def SameHalf (s : UInt8 × UInt8) : Prop := s.1 < 0x80 ↔ s.2 < 0x80

/-- The character in front of the one at which the second list stops being equal to the first. -/
def frontOf : UInt8 → List UInt8 → List UInt8 → UInt8
  | before, c :: l, d :: l' => if c = d then frontOf d l l' else before
  | before, _, _ => before

/-- What `strnicmp` compares the character of the first string with is on the same side as the
character of the second, and the first string has not ended. -/
def SameSide (front : UInt8) (s : UInt8 × UInt8) : Prop :=
  s.1 = s.2 ∨ s.1 ≠ 0 ∧ front ≠ s.1 ∧ (front < s.1 ↔ s.2 < s.1)

/-! ## The order of bytes -/

lemma tells_some {i : Int} {l l' : List UInt8} : Tells (some i) l l' ↔ SignOf (· < ·) i l l' := by
  constructor
  · rintro ⟨j, hj, h⟩
    cases hj
    exact h
  · exact fun h => ⟨i, rfl, h⟩

lemma not_tells_none {l l' : List UInt8} : ¬Tells none l l' := by
  rintro ⟨i, hi, h⟩
  cases hi

lemma byte_lt_asymm (c d : UInt8) (h : c < d) : ¬d < c := by
  rw [UInt8.lt_iff_toNat_lt] at *
  omega

lemma byte_lt_or_gt (c d : UInt8) (h : c ≠ d) : c < d ∨ d < c := by
  rw [Ne, ← UInt8.toNat_inj] at h
  rw [UInt8.lt_iff_toNat_lt, UInt8.lt_iff_toNat_lt]
  omega

lemma byte_pos {c : UInt8} (h : c ≠ 0) : 0 < c := by
  rcases byte_lt_or_gt c 0 h with hlt | hgt
  · rw [UInt8.lt_iff_toNat_lt] at hlt
    exact absurd hlt (Nat.not_lt_zero _)
  · exact hgt

/-- A number tells how two strings are ordered if it tells how the characters are ordered at which
they stop being equal. -/
lemma tells_iff {i : Int} {l l' : List UInt8}
    (hends : l.length = l'.length ∨ 0 ∉ l ∧ 0 ∉ l') :
    Tells (some i) l l' ↔ SignAt i (stop 0 l l') := by
  rw [tells_some, signOf_iff byte_lt_asymm byte_lt_or_gt]
  · rfl
  · refine hends.imp_right fun h => ?_
    have hpos : ∀ {l : List UInt8}, 0 ∉ l → ∀ c ∈ l, c ≠ 0 ∧ 0 < c := by
      intro l hl c hc
      have hne : c ≠ 0 := fun heq => hl (heq ▸ hc)
      exact ⟨hne, byte_pos hne⟩
    exact ⟨hpos h.1, hpos h.2⟩

lemma signAt_zero {s : UInt8 × UInt8} : SignAt 0 s ↔ s.1 = s.2 := by
  constructor
  · exact fun h => h.2.mp rfl
  · intro h
    refine ⟨iff_of_false (by omega) ?_, iff_of_true rfl h⟩
    rw [h, UInt8.lt_iff_toNat_lt]
    omega

/-- Two positive numbers say the same. -/
lemma signAt_of_pos {i j : Int} (hi : 0 < i) (hj : 0 < j) {s : UInt8 × UInt8} :
    SignAt i s ↔ SignAt j s := by
  have hneg : i < 0 ↔ j < 0 := by omega
  have hzero : i = 0 ↔ j = 0 := by omega
  rw [SignAt, SignAt, hneg, hzero]

/-- The difference of a byte and one that stands in for the other. -/
lemma signAt_toNat {c d e : UInt8} (hne : c ≠ e) :
    SignAt ((c.toNat : Int) - d.toNat) (c, e) ↔ d ≠ c ∧ (d < c ↔ e < c) := by
  rw [Ne, ← UInt8.toNat_inj] at hne
  simp only [SignAt, UInt8.lt_iff_toNat_lt, ← UInt8.toNat_inj, Ne]
  omega

/-- The difference of two signed characters. -/
lemma signAt_ofChar (s : UInt8 × UInt8) : SignAt (ofChar s.1 - ofChar s.2) s ↔ SameHalf s := by
  have hc : s.1.toNat < 256 := UInt8.toNat_lt_size s.1
  have hd : s.2.toNat < 256 := UInt8.toNat_lt_size s.2
  simp only [SignAt, SameHalf, ofChar_eq, UInt8.lt_iff_toNat_lt, ← UInt8.toNat_inj,
    UInt8.reduceToNat]
  split_ifs <;> omega

/-! ## The loops -/

/-- The loop of `strcmp` and `stricmp`. -/
lemma compareLoop_eq {f : Int → Int} {g : UInt8 → UInt8}
    (hf : ∀ c, f (ofChar c) = ofChar (g c)) (hzero : ∀ c, g c = 0 ↔ c = 0) {l l' : List UInt8}
    (hl : 0 ∉ l) (hl' : 0 ∉ l') :
    compareLoop f (l ++ [0]) (l' ++ [0]) =
      some (ofChar (stop 0 (l.map g) (l'.map g)).1 - ofChar (stop 0 (l.map g) (l'.map g)).2) := by
  have hend : g 0 = 0 := (hzero 0).mpr rfl
  induction l generalizing l' with
  | nil =>
    cases l' with
    | nil => simp [compareLoop, hf, hend]
    | cons d l' =>
      have hd : g d ≠ 0 := fun h => hl' (List.mem_cons.mpr (.inl ((hzero d).mp h).symm))
      rw [List.nil_append, List.cons_append, compareLoop, hf, hf, hend,
        if_neg (ofChar_inj.not.mpr hd.symm), List.map_nil, stop_nil_left]
      rfl
  | cons c l ih =>
    have hc : c ≠ 0 := fun h => hl (List.mem_cons.mpr (.inl h.symm))
    cases l' with
    | nil =>
      rw [List.nil_append, List.cons_append, compareLoop, hf, hf, hend,
        if_neg (ofChar_inj.not.mpr ((hzero c).not.mpr hc)), List.map_nil, stop_nil_right]
      rfl
    | cons d l' =>
      rw [List.cons_append, List.cons_append, compareLoop, hf, hf, List.map_cons,
        List.map_cons, stop_cons]
      by_cases heq : g c = g d
      · rw [if_pos (congrArg ofChar heq), if_neg hc, if_pos heq,
          ih (List.not_mem_of_not_mem_cons hl) (List.not_mem_of_not_mem_cons hl')]
      · rw [if_neg (ofChar_inj.not.mpr heq), if_neg heq]

/-- The loop of `memcmp`. -/
lemma memcmpBytes_eq {m m' : List UInt8} {n : Nat} (hm : n ≤ m.length) (hm' : n ≤ m'.length) :
    memcmpBytes m m' n =
      some (ofChar (stop 0 (m.take n) (m'.take n)).1 -
        ofChar (stop 0 (m.take n) (m'.take n)).2) := by
  induction n generalizing m m' with
  | zero => simp [memcmpBytes]
  | succ n ih =>
    cases m with
    | nil => cases hm
    | cons c m =>
      cases m' with
      | nil => cases hm'
      | cons d m' =>
        rw [memcmpBytes, List.take_succ_cons, List.take_succ_cons, stop_cons]
        by_cases heq : c = d
        · rw [if_pos (congrArg ofChar heq), if_pos heq,
            ih (Nat.le_of_succ_le_succ hm) (Nat.le_of_succ_le_succ hm')]
        · rw [if_neg (ofChar_inj.not.mpr heq), if_neg heq]

/-- The loop of `strncmp`. -/
lemma strncmp_signAt {l l' : List UInt8} (hl : 0 ∉ l) (hl' : 0 ∉ l') (n : Nat) :
    ∃ i, strncmp (l ++ [0]) (l' ++ [0]) n = some i ∧
      SignAt i (stop 0 (l.take n) (l'.take n)) := by
  induction n generalizing l l' with
  | zero => exact ⟨0, by rw [strncmp], signAt_zero.mpr rfl⟩
  | succ n ih =>
    rcases l with - | ⟨c, l⟩ <;> rcases l' with - | ⟨d, l'⟩
    · exact ⟨0, rfl, signAt_zero.mpr rfl⟩
    · have hd : 0 ≠ d := fun h => hl' (List.mem_cons.mpr (.inl h))
      refine ⟨-1, ?_, ?_⟩
      · rw [List.nil_append, List.cons_append, strncmp, if_pos (ofChar_inj.not.mpr hd),
          if_pos rfl]
      · rw [List.take_nil, stop_nil_left]
        exact ⟨iff_of_true (by omega) (byte_pos hd.symm), iff_of_false (by omega) hd⟩
    · have hc : c ≠ 0 := fun h => hl (List.mem_cons.mpr (.inl h.symm))
      refine ⟨1, ?_, ?_⟩
      · rw [List.nil_append, List.cons_append, strncmp, if_pos (ofChar_inj.not.mpr hc),
          if_neg hc, if_pos rfl]
      · rw [List.take_nil, stop_nil_right]
        exact ⟨iff_of_false (by omega) (byte_lt_asymm 0 c (byte_pos hc)),
          iff_of_false (by omega) hc⟩
    · have hc : c ≠ 0 := fun h => hl (List.mem_cons.mpr (.inl h.symm))
      have hd : d ≠ 0 := fun h => hl' (List.mem_cons.mpr (.inl h.symm))
      rw [List.cons_append, List.cons_append, strncmp, List.take_succ_cons,
        List.take_succ_cons, stop_cons]
      by_cases heq : c = d
      · rw [if_neg (not_not.mpr (congrArg ofChar heq)), if_neg hc, if_pos heq]
        exact ih (List.not_mem_of_not_mem_cons hl) (List.not_mem_of_not_mem_cons hl')
      · rw [if_pos (ofChar_inj.not.mpr heq), if_neg hc, if_neg hd, if_neg heq]
        exact ⟨_, rfl, (signAt_toNat heq).mpr ⟨Ne.symm heq, Iff.rfl⟩⟩

/-- What `strnicmp` says once it has passed the first characters, or at the first. -/
lemma strnicmp_signAt (before : UInt8) {c : UInt8} {l l' : List UInt8} (hl : 0 ∉ c :: l)
    (hl' : 0 ∉ l') (n : Nat) :
    ∃ i, strnicmp before (c :: l ++ [0]) (l' ++ [0]) n = some i ∧
      (SignAt i (stop 0 (((c :: l).take n).map fold) ((l'.take n).map fold)) ↔
        SameSide (frontOf (fold before) (((c :: l).take n).map fold) ((l'.take n).map fold))
          (stop 0 (((c :: l).take n).map fold) ((l'.take n).map fold))) := by
  induction n generalizing before c l l' with
  | zero => exact ⟨0, by rw [strnicmp], iff_of_true (signAt_zero.mpr rfl) (.inl rfl)⟩
  | succ n ih =>
    have hc : c ≠ 0 := fun h => hl (List.mem_cons.mpr (.inl h.symm))
    have hfold : fold c ≠ 0 := fold_eq_zero.not.mpr hc
    -- the first characters differ, and the character in front is taken for the second
    have hfirst : ∀ e : UInt8, fold c ≠ fold e →
        (SignAt (if c = 0 then -1 else if before = 0 then 1
            else ((fold c).toNat : Int) - (fold before).toNat) (fold c, fold e) ↔
          SameSide (fold before) (fold c, fold e)) := by
      intro e hne
      rw [if_neg hc, SameSide, or_iff_right hne, and_iff_right hfold, ← signAt_toNat hne]
      by_cases hbefore : before = 0
      · rw [if_pos hbefore, hbefore, fold_eq_zero.mpr rfl]
        have hpos : 0 < (fold c).toNat := UInt8.lt_iff_toNat_lt.mp (byte_pos hfold)
        apply signAt_of_pos
        · omega
        · simp only [UInt8.reduceToNat]
          omega
      · rw [if_neg hbefore]
    cases l' with
    | nil => exact ⟨_, strnicmp_of_ne hfold, hfirst 0 hfold⟩
    | cons d l' =>
      rw [List.take_succ_cons, List.take_succ_cons, List.map_cons, List.map_cons, stop_cons,
        frontOf]
      by_cases heq : fold c = fold d
      · rw [if_pos heq, if_pos heq]
        cases l with
        | nil =>
          refine ⟨0, strnicmp_end heq, ?_⟩
          rw [List.take_nil, List.map_nil, stop_nil_left, signAt_zero, SameSide]
          exact (or_iff_left fun h => h.1 rfl).symm
        | cons c' l =>
          have hc' : c' ≠ 0 := fun h =>
            hl (List.mem_cons_of_mem c (List.mem_cons.mpr (.inl h.symm)))
          obtain ⟨i, hi, hsign⟩ := ih d (List.not_mem_of_not_mem_cons hl)
            (List.not_mem_of_not_mem_cons hl')
          exact ⟨i, (strnicmp_of_eq heq hc').trans hi, hsign⟩
      · rw [if_neg heq, if_neg heq]
        exact ⟨_, strnicmp_of_ne heq, hfirst d heq⟩

/-! ## The order -/

/-- The five comparisons of two strings and two blocks tell how the first characters are ordered,
and the words that `memcmp` skips do not matter. -/
structure Ordered (a b : Nat) (before : UInt8) (l l' m m' : List UInt8) (n : Nat) : Prop where
  strncmp : Tells (strncmp (l ++ [0]) (l' ++ [0]) n) (l.take n) (l'.take n)
  strcmp : Tells (strcmp (l ++ [0]) (l' ++ [0])) l l'
  memcmp : Tells (memcmp a b m m' n) (m.take n) (m'.take n)
  fast : Libc.memcmp a b m m' n = memcmpBytes m m' n
  stricmp : Tells (stricmp (l ++ [0]) (l' ++ [0])) (l.map fold) (l'.map fold)
  strnicmp : Tells (strnicmp before (l ++ [0]) (l' ++ [0]) n)
    ((l.take n).map fold) ((l'.take n).map fold)

/-- When `strnicmp` tells the order of the characters in question, with their case folded. -/
def StrnicmpWhen (before : UInt8) (l l' : List UInt8) (n : Nat) : Prop :=
  n = 0 ∨ l = [] ∧ l' ≠ [] ∨
    l ≠ [] ∧ SameSide (frontOf (fold before) ((l.take n).map fold) ((l'.take n).map fold))
      (stop 0 ((l.take n).map fold) ((l'.take n).map fold))

/-- The characters at which the strings stop being equal are on the same half of the bytes, and
`strnicmp` tells their order. -/
structure OrderedWhen (before : UInt8) (l l' m m' : List UInt8) (n : Nat) : Prop where
  strcmp : SameHalf (stop 0 l l')
  memcmp : SameHalf (stop 0 (m.take n) (m'.take n))
  stricmp : SameHalf (stop 0 (l.map fold) (l'.map fold))
  strnicmp : StrnicmpWhen before l l' n

section Order

variable {l l' m m' : List UInt8} (hl : 0 ∉ l) (hl' : 0 ∉ l')

lemma not_mem_map_fold (hl : 0 ∉ l) : 0 ∉ l.map fold := by
  intro h
  obtain ⟨c, hc, hzero⟩ := List.mem_map.mp h
  exact hl (fold_eq_zero.mp hzero ▸ hc)

lemma not_mem_take (hl : 0 ∉ l) (n : Nat) : 0 ∉ l.take n :=
  fun h => hl (List.mem_of_mem_take h)

include hl hl'

/-- `strncmp` tells the order of any two strings. -/
theorem strncmp_tells (n : Nat) :
    Tells (strncmp (l ++ [0]) (l' ++ [0]) n) (l.take n) (l'.take n) := by
  obtain ⟨i, hi, hsign⟩ := strncmp_signAt hl hl' n
  rw [hi]
  exact (tells_iff (.inr ⟨not_mem_take hl n, not_mem_take hl' n⟩)).mpr hsign

lemma strcmp_tells_iff :
    Tells (strcmp (l ++ [0]) (l' ++ [0])) l l' ↔ SameHalf (stop 0 l l') := by
  have heq := compareLoop_eq (f := id) (g := id) (fun _ => rfl) (fun _ => Iff.rfl) hl hl'
  rw [List.map_id, List.map_id] at heq
  rw [strcmp, heq, tells_iff (.inr ⟨hl, hl'⟩), signAt_ofChar]

lemma stricmp_tells_iff :
    Tells (stricmp (l ++ [0]) (l' ++ [0])) (l.map fold) (l'.map fold) ↔
      SameHalf (stop 0 (l.map fold) (l'.map fold)) := by
  rw [stricmp, compareLoop_eq tolower_ofChar (fun _ => fold_eq_zero) hl hl',
    tells_iff (.inr ⟨not_mem_map_fold hl, not_mem_map_fold hl'⟩), signAt_ofChar]

lemma strnicmp_tells_iff (before : UInt8) (n : Nat) :
    Tells (strnicmp before (l ++ [0]) (l' ++ [0]) n) ((l.take n).map fold) ((l'.take n).map fold) ↔
      StrnicmpWhen before l l' n := by
  have hends : 0 ∉ (l.take n).map fold ∧ 0 ∉ (l'.take n).map fold :=
    ⟨not_mem_map_fold (not_mem_take hl n), not_mem_map_fold (not_mem_take hl' n)⟩
  cases n with
  | zero =>
    rw [strnicmp, tells_iff (.inr hends)]
    exact iff_of_true (signAt_zero.mpr rfl) (.inl rfl)
  | succ n =>
    cases l with
    | cons c l =>
      obtain ⟨i, hi, hsign⟩ := strnicmp_signAt before hl hl' (n + 1)
      rw [hi, tells_iff (.inr hends), hsign]
      simp [StrnicmpWhen]
    | nil =>
      cases l' with
      | nil =>
        -- the terminators are equal and the next characters are behind them
        have hnone : strnicmp before ([] ++ [0]) ([] ++ [0]) (n + 1) = none := rfl
        rw [hnone]
        refine iff_of_false not_tells_none ?_
        simp [StrnicmpWhen]
      | cons d l' =>
        have hd : d ≠ 0 := fun h => hl' (List.mem_cons.mpr (.inl h.symm))
        have hne : fold 0 ≠ fold d := fun h => hd (fold_eq_zero.mp h.symm)
        rw [List.nil_append, List.cons_append, strnicmp_of_ne hne, if_pos rfl,
          tells_iff (.inr hends), List.take_nil, List.map_nil, stop_nil_left,
          List.take_succ_cons, List.map_cons, List.headD_cons]
        refine iff_of_true ?_ (.inr (.inl ⟨rfl, List.cons_ne_nil d l'⟩))
        exact ⟨iff_of_true (by omega) (byte_pos (fold_eq_zero.not.mpr hd)),
          iff_of_false (by omega) hne⟩

end Order

lemma memcmp_tells_iff {m m' : List UInt8} {n : Nat} (hm : n ≤ m.length) (hm' : n ≤ m'.length)
    (a b : Nat) :
    Tells (memcmp a b m m' n) (m.take n) (m'.take n) ↔
      SameHalf (stop 0 (m.take n) (m'.take n)) := by
  rw [memcmp_eq_bytes hm hm', memcmpBytes_eq hm hm', tells_iff, signAt_ofChar]
  exact .inl (by rw [List.length_take, List.length_take]; omega)

/-- The five comparisons tell how strings and blocks are ordered exactly if the characters at which
they stop being equal allow it. -/
theorem ordered_iff {l l' m m' : List UInt8} {n : Nat} (hl : 0 ∉ l) (hl' : 0 ∉ l')
    (hm : n ≤ m.length) (hm' : n ≤ m'.length) (a b : Nat) (before : UInt8) :
    Ordered a b before l l' m m' n ↔ OrderedWhen before l l' m m' n := by
  constructor
  · intro h
    exact ⟨(strcmp_tells_iff hl hl').mp h.strcmp, (memcmp_tells_iff hm hm' a b).mp h.memcmp,
      (stricmp_tells_iff hl hl').mp h.stricmp, (strnicmp_tells_iff hl hl' before n).mp h.strnicmp⟩
  · intro h
    exact ⟨strncmp_tells hl hl' n, (strcmp_tells_iff hl hl').mpr h.strcmp,
      (memcmp_tells_iff hm hm' a b).mpr h.memcmp, memcmp_eq_bytes hm hm' a b,
      (stricmp_tells_iff hl hl').mpr h.stricmp,
      (strnicmp_tells_iff hl hl' before n).mpr h.strnicmp⟩

/-- `"aC"` and `"ab"` at two aligned addresses. -/
theorem ordered_ascii :
    Ordered 0 4 0 [0x61, 0x43] [0x61, 0x62] [0x61, 0x43] [0x61, 0x62] 2 :=
  (ordered_iff (by decide) (by decide) (by decide) (by decide) 0 4 0).mpr
    ⟨by unfold SameHalf; decide, by unfold SameHalf; decide, by unfold SameHalf; decide,
      Or.inr (Or.inr ⟨by decide, by unfold SameSide; decide⟩)⟩

/-- `strnicmp` takes `"a"` for `"ab"`, and `strcmp` puts a character above 127 in
front of `"a"`. -/
theorem ordered_broken :
    ¬Ordered 0 0 0 [0x61] [0x61, 0x62] [0, 0] [0, 0] 2 ∧
      ¬Tells (strcmp [0x80, 0] [0x61, 0]) [0x80] [0x61] := by
  constructor
  · intro h
    have hequal : ([0x61] : List UInt8) = [0x61, 0x62] :=
      (tells_some (i := 0)).mp h.strnicmp |>.zero.mp rfl
    cases hequal
  · intro h
    have hsign : SignOf (· < ·) (-225) [(0x80 : UInt8)] [0x61] := tells_some.mp h
    have hlt : List.Lex (· < ·) [(0x80 : UInt8)] [0x61] := hsign.neg.mp (by decide)
    cases hlt with
    | rel h => exact absurd h (by decide)

end DiegOS.Libc
