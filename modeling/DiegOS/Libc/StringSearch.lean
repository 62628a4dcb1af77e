import DiegOS.Lib.FirstPosition
import DiegOS.Libc.StringOrder
import Mathlib.Data.List.Infix

/-!
# Searches in strings

What `strstr`, `strcasestr` and `strnstr` find.  The loop they share stops at the
first position where the comparison says that the strings are equal.  `strncmp` says so where
the pattern occurs, but `strnicmp` also where the string ends within the pattern and where the
character in front of the difference is doubled; and `strnstr` does not bound the position, but
shortens the pattern.

Main results:

- Theorem `strstr_found`: `strstr` finds the first occurrence.
- Theorem `searches_iff`: the other two do exactly if no position in front of it passes for one.
-/

namespace DiegOS.Libc

open Lib (FirstAt)

/-- A search returned the first position with a property, or `NULL` if there is none. -/
def Found (r : Option (Option Nat)) (P : Nat → Prop) : Prop := ∃ p, r = some p ∧ FirstAt P p

/-- The first string goes on with the character in front of the difference. -/
def Doubled (l l' : List UInt8) : Prop :=
  ∃ u c d v w, l' = u ++ c :: d :: v ∧ c ≠ d ∧ l = u ++ c :: c :: w

/-- `strnicmp` takes the strings for equal. -/
def Taken (l l' : List UInt8) : Prop := l' <+: l ∨ l <+: l' ∨ Doubled l l'

/-! ## The loop -/

lemma strlen_append {l : List UInt8} (hl : 0 ∉ l) : strlen (l ++ [0]) = some l.length := by
  induction l with
  | nil => rfl
  | cons c l ih =>
    have hc : c ≠ 0 := fun h => hl (List.mem_cons.mpr (.inl h.symm))
    rw [List.cons_append, strlen, if_neg hc, ih (List.not_mem_of_not_mem_cons hl)]
    rfl

/-- The loop of the searches stops at the first position where its test fails. -/
lemma searchLoop_found {test : List UInt8 → Option Bool} {P : List UInt8 → Prop}
    (htest : ∀ rest, 0 ∉ rest → ∃ b, test (rest ++ [0]) = some b ∧ (b = false ↔ P rest))
    (hend : ¬P []) {l : List UInt8} (hl : 0 ∉ l) :
    Found (searchLoop test (l ++ [0])) fun j => P (l.drop j) := by
  induction l with
  | nil =>
    obtain ⟨b, htest, hb⟩ := htest [] hl
    cases b with
    | false => exact absurd (hb.mp rfl) hend
    | true =>
      refine ⟨none, ?_, fun i => ?_⟩
      · rw [List.nil_append, searchLoop, ← List.nil_append [(0 : UInt8)], htest]
        rfl
      · change ¬P (List.drop i [])
        rw [List.drop_nil]
        exact hend
  | cons c l ih =>
    have hc : c ≠ 0 := fun h => hl (List.mem_cons.mpr (.inl h.symm))
    obtain ⟨b, htest, hb⟩ := htest (c :: l) hl
    rw [List.cons_append] at htest ⊢
    rw [searchLoop, htest]
    cases b with
    | false => exact ⟨some 0, rfl, FirstAt.zero (hb.mp rfl)⟩
    | true =>
      obtain ⟨p, hp, hfirst⟩ := ih (List.not_mem_of_not_mem_cons hl)
      refine ⟨p.map (· + 1), ?_, ?_⟩
      · simp only [if_neg hc, hp, Option.map_some]
      · exact FirstAt.succ hfirst fun h => by cases hb.mpr h

/-- The test of the searches, from what the comparison says where the first characters are equal. -/
lemma stays_spec {f : Int → Int} {g : UInt8 → UInt8} (hf : ∀ c, f (ofChar c) = ofChar (g c))
    (hzero : ∀ c, g c = 0 ↔ c = 0) {compare : List UInt8 → Option Int} {P : List UInt8 → Prop}
    {d : UInt8} {ct : List UInt8} (hd : d ≠ 0)
    (hhead : ∀ rest, P rest → ∃ c, rest.head? = some c ∧ g c = g d)
    (hcompare : ∀ c rest, 0 ∉ c :: rest → g c = g d →
      ∃ i, compare (c :: rest ++ [0]) = some i ∧ (i = 0 ↔ P (c :: rest)))
    (rest : List UInt8) (hrest : 0 ∉ rest) :
    ∃ b, stays f compare (d :: ct) (rest ++ [0]) = some b ∧ (b = false ↔ P rest) := by
  cases rest with
  | nil =>
    have hne : f (ofChar 0) ≠ f (ofChar d) := by
      rw [hf, hf, (hzero 0).mpr rfl]
      exact ofChar_inj.not.mpr fun h => hd ((hzero d).mp h.symm)
    refine ⟨true, ?_, iff_of_false Bool.noConfusion fun h => ?_⟩
    · rw [List.nil_append, stays, if_pos hne]
    · obtain ⟨c, hc, -⟩ := hhead [] h
      cases hc
  | cons c rest =>
    by_cases heq : g c = g d
    · obtain ⟨i, hi, hP⟩ := hcompare c rest hrest heq
      refine ⟨decide (i ≠ 0), ?_, ?_⟩
      · rw [List.cons_append, stays, hf, hf, if_neg (not_not.mpr (congrArg ofChar heq)),
          ← List.cons_append, hi, Option.map_some]
      · rw [← hP, decide_eq_false_iff_not, not_not]
    · refine ⟨true, ?_, iff_of_false Bool.noConfusion fun h => ?_⟩
      · rw [List.cons_append, stays, hf, hf, if_pos (ofChar_inj.not.mpr heq)]
      · obtain ⟨c', hc', hg⟩ := hhead (c :: rest) h
        cases hc'
        exact heq hg

/-! ## What the comparisons take for equal -/

/-- `strncmp` with a limit inside the second string. -/
lemma strncmp_zero {l l' : List UInt8} (hl : 0 ∉ l) (hl' : 0 ∉ l') {n : Nat}
    (hn : n ≤ l'.length) :
    ∃ i, strncmp (l ++ [0]) (l' ++ [0]) n = some i ∧ (i = 0 ↔ l'.take n <+: l) := by
  obtain ⟨i, hi, hsign⟩ := strncmp_tells hl hl' n
  refine ⟨i, hi, ?_⟩
  have hlen : (l'.take n).length = n := by rw [List.length_take]; omega
  rw [hsign.zero, List.prefix_iff_eq_take, hlen, eq_comm]

lemma doubled_cons_cons {q c : UInt8} {l l' : List UInt8} :
    Doubled (q :: c :: l) (q :: c :: l') ↔ Doubled (c :: l) (c :: l') := by
  constructor
  · rintro ⟨u, e, d, v, w, hl', hne, hl⟩
    cases u with
    | nil =>
      -- the character in front would be the one behind it in both strings
      simp only [List.nil_append, List.cons.injEq] at hl hl'
      exact absurd (hl.2.1.symm.trans hl'.2.1) hne
    | cons x u =>
      rw [List.cons_append, List.cons.injEq] at hl hl'
      exact ⟨u, e, d, v, w, hl'.2, hne, hl.2⟩
  · rintro ⟨u, e, d, v, w, hl', hne, hl⟩
    exact ⟨q :: u, e, d, v, w, by rw [hl', List.cons_append], hne, by rw [hl, List.cons_append]⟩

lemma taken_cons_cons {q c : UInt8} {l l' : List UInt8} :
    Taken (q :: c :: l) (q :: c :: l') ↔ Taken (c :: l) (c :: l') := by
  simp only [Taken, doubled_cons_cons, List.prefix_cons_inj]

/-- The strings differ behind their first character. -/
lemma taken_of_ne {q c d : UInt8} {l l' : List UInt8} (hne : c ≠ d) :
    Taken (q :: c :: l) (q :: d :: l') ↔ c = q := by
  constructor
  · rintro (h | h | ⟨u, e, e', v, w, hl', he, hl⟩)
    · exact absurd (List.cons_prefix_cons.mp (List.cons_prefix_cons.mp h).2).1 hne.symm
    · exact absurd (List.cons_prefix_cons.mp (List.cons_prefix_cons.mp h).2).1 hne
    · rcases u with - | ⟨x, - | ⟨y, u⟩⟩
      · simp only [List.nil_append, List.cons.injEq] at hl
        exact hl.2.1.trans hl.1.symm
      · simp only [List.cons_append, List.nil_append, List.cons.injEq] at hl hl'
        exact absurd (hl.2.1.trans hl'.2.1.symm) hne
      · simp only [List.cons_append, List.cons.injEq] at hl hl'
        exact absurd (hl.2.1.trans hl'.2.1.symm) hne
  · rintro rfl
    exact .inr (.inr ⟨[], c, d, l', l, rfl, hne, rfl⟩)

/-- `strnicmp` behind characters that are equal. -/
lemma strnicmp_zero {before c : UInt8} {l l' : List UInt8} (hbefore : before ≠ 0)
    (hl : 0 ∉ c :: l) (hl' : 0 ∉ l') :
    ∃ i, strnicmp before (c :: l ++ [0]) (l' ++ [0]) l'.length = some i ∧
      (i = 0 ↔ Taken (fold before :: (c :: l).map fold) (fold before :: l'.map fold)) := by
  induction l' generalizing before c l with
  | nil =>
    refine ⟨0, by rw [List.length_nil, strnicmp], iff_of_true rfl (.inl ?_)⟩
    exact List.cons_prefix_cons.mpr ⟨rfl, List.nil_prefix⟩
  | cons d l' ih =>
    have hc : c ≠ 0 := fun h => hl (List.mem_cons.mpr (.inl h.symm))
    have hd : d ≠ 0 := fun h => hl' (List.mem_cons.mpr (.inl h.symm))
    rw [List.map_cons, List.map_cons, List.length_cons]
    by_cases heq : fold c = fold d
    · rw [← heq, taken_cons_cons]
      cases l with
      | nil =>
        refine ⟨0, strnicmp_end heq, iff_of_true rfl (.inr (.inl ?_))⟩
        exact List.cons_prefix_cons.mpr ⟨rfl, List.nil_prefix⟩
      | cons c' l =>
        have hc' : c' ≠ 0 := fun h =>
          hl (List.mem_cons_of_mem c (List.mem_cons.mpr (.inl h.symm)))
        rw [heq, List.cons_append, List.cons_append, List.cons_append,
          strnicmp_of_eq heq hc']
        exact ih hd (List.not_mem_of_not_mem_cons hl) (List.not_mem_of_not_mem_cons hl')
    · refine ⟨_, strnicmp_of_ne heq, ?_⟩
      rw [if_neg hc, if_neg hbefore, taken_of_ne heq, ← UInt8.toNat_inj]
      omega

/-! ## The searches -/

/-- The three searches find the first occurrence: of the pattern, of the pattern up to case, and of
the pattern within the first characters. -/
structure Searches (before : UInt8) (cs ct : List UInt8) (len : Nat) : Prop where
  strstr : Found (strstr (cs ++ [0]) (ct ++ [0])) fun j => ct <+: cs.drop j
  strcasestr : Found (strcasestr before (cs ++ [0]) (ct ++ [0]))
    fun j => ct.map fold <+: (cs.drop j).map fold
  strnstr : Found (strnstr (cs ++ [0]) (ct ++ [0]) len) fun j => ct <+: (cs.take len).drop j

/-- The rest of a string passes for an occurrence up to case: it ends within the pattern, or the
character in front of the difference is doubled. -/
def Passes (rest ct : List UInt8) : Prop :=
  rest ≠ [] ∧ rest.map fold <+: ct.map fold ∨ Doubled (rest.map fold) (ct.map fold)

/-- Nothing in front of an occurrence passes for one, and with a limit the first occurrence is
within it, or the characters of the pattern up to the limit, or the first, do not occur. -/
structure SearchesWhen (cs ct : List UInt8) (len : Nat) : Prop where
  strcasestr : ∀ j, Passes (cs.drop j) ct → ∃ i ≤ j, ct.map fold <+: (cs.drop i).map fold
  strnstr : if len < ct.length then ∀ j, ¬ct.take (if len = 0 then 1 else len) <+: cs.drop j
    else ∀ j, ct <+: cs.drop j → ∃ i ≤ j, ct <+: cs.drop i ∧ i + ct.length ≤ len

lemma Found.iff_of_imp {r : Option (Option Nat)} {P Q : Nat → Prop} (h : Found r P)
    (himp : ∀ j, Q j → P j) : Found r Q ↔ ∀ j, P j → ∃ i ≤ j, Q i := by
  obtain ⟨p, hp, hfirst⟩ := h
  rw [← hfirst.iff_of_imp himp]
  constructor
  · rintro ⟨q, hq, hQ⟩
    rw [hp] at hq
    exact Option.some.inj hq ▸ hQ
  · exact fun hQ => ⟨p, hp, hQ⟩

/-- What a search returned has the property. -/
lemma Found.of_eq {r : Option (Option Nat)} {P : Nat → Prop} {j : Nat} (h : Found r P)
    (hr : r = some (some j)) : P j := by
  obtain ⟨p, hp, hfirst⟩ := h
  rw [hr] at hp
  cases hp
  exact hfirst.1

lemma prefix_head {d : UInt8} {ct rest : List UInt8} (h : d :: ct <+: rest) :
    ∃ c, rest.head? = some c ∧ c = d := by
  obtain ⟨t, rfl⟩ := h
  exact ⟨d, rfl, rfl⟩

section Search

variable {cs ct : List UInt8} (hcs : 0 ∉ cs) (hct : 0 ∉ ct) (hne : ct ≠ [])

include hcs hct hne

/-- The loop of `strstr` and `strnstr`. -/
lemma searchLoop_strncmp {len : Nat} (hlen : len ≤ ct.length) :
    Found (searchLoop (stays id (fun cs => strncmp cs (ct ++ [0]) len) (ct ++ [0])) (cs ++ [0]))
      fun j => ct.take (if len = 0 then 1 else len) <+: cs.drop j := by
  cases ct with
  | nil => exact absurd rfl hne
  | cons d ct =>
    have hd : d ≠ 0 := fun h => hct (List.mem_cons.mpr (.inl h.symm))
    obtain ⟨k, hk⟩ : ∃ k, (if len = 0 then 1 else len) = k + 1 := by
      refine ⟨(if len = 0 then 1 else len) - 1, ?_⟩
      split_ifs <;> omega
    rw [List.cons_append]
    refine searchLoop_found (P := fun rest => (d :: ct).take (if len = 0 then 1 else len) <+: rest)
      (stays_spec (fun _ => rfl) (fun _ => Iff.rfl) hd ?_ ?_) ?_ hcs
    · intro rest h
      rw [hk, List.take_succ_cons] at h
      exact prefix_head h
    · intro c rest hrest heq
      obtain ⟨i, hi, hzero⟩ := strncmp_zero hrest hct hlen
      refine ⟨i, hi, hzero.trans ?_⟩
      -- without a limit there is still the first character
      by_cases hlen : len = 0
      · rw [hlen, if_pos rfl, heq]
        exact iff_of_true List.nil_prefix (List.cons_prefix_cons.mpr ⟨rfl, List.nil_prefix⟩)
      · rw [if_neg hlen]
    · rw [hk, List.take_succ_cons]
      exact fun h => by cases List.prefix_nil.mp h

/-- `strstr` finds the first occurrence. -/
theorem strstr_found : Found (strstr (cs ++ [0]) (ct ++ [0])) fun j => ct <+: cs.drop j := by
  have hlen : ct.length ≠ 0 := fun h => hne (List.length_eq_zero_iff.mp h)
  have hfound := searchLoop_strncmp hcs hct hne (Nat.le_refl ct.length)
  rw [if_neg hlen, List.take_length] at hfound
  rw [strstr, strlen_append hct, Option.bind_some, if_neg hlen]
  exact hfound

lemma strnstr_found_iff (len : Nat) :
    Found (strnstr (cs ++ [0]) (ct ++ [0]) len) (fun j => ct <+: (cs.take len).drop j) ↔
      if len < ct.length then ∀ j, ¬ct.take (if len = 0 then 1 else len) <+: cs.drop j
      else ∀ j, ct <+: cs.drop j → ∃ i ≤ j, ct <+: cs.drop i ∧ i + ct.length ≤ len := by
  have hlen : ct.length ≠ 0 := fun h => hne (List.length_eq_zero_iff.mp h)
  rw [strnstr, strlen_append hct, Option.bind_some, if_neg hlen]
  -- an occurrence within the first characters
  have hwithin : ∀ j, ct <+: (cs.take len).drop j ↔ ct <+: cs.drop j ∧ j + ct.length ≤ len := by
    intro j
    rw [List.drop_take, List.prefix_take_iff]
    refine and_congr_right fun _ => ?_
    omega
  simp only [hwithin]
  by_cases hlt : len < ct.length
  · rw [if_pos hlt, if_neg (by omega),
      (searchLoop_strncmp hcs hct hne (Nat.le_of_lt hlt)).iff_of_imp fun j hj => by omega]
    refine forall_congr' fun j => imp_congr_right fun _ => iff_of_false ?_ id
    rintro ⟨i, -, -, h⟩
    omega
  · have heq : (if ct.length < len then ct.length else len) = ct.length := by
      split_ifs <;> omega
    have hfound := searchLoop_strncmp hcs hct hne (Nat.le_refl ct.length)
    rw [if_neg hlen, List.take_length] at hfound
    rw [if_neg hlt, heq]
    exact hfound.iff_of_imp fun j hj => hj.1

/-- The loop of `strcasestr`. -/
lemma strcasestr_found (before : UInt8) :
    Found (strcasestr before (cs ++ [0]) (ct ++ [0])) fun j =>
      cs.drop j ≠ [] ∧ Taken ((cs.drop j).map fold) (ct.map fold) := by
  have hlen : ct.length ≠ 0 := fun h => hne (List.length_eq_zero_iff.mp h)
  rw [strcasestr, strlen_append hct, Option.bind_some, if_neg hlen]
  cases ct with
  | nil => exact absurd rfl hne
  | cons d ct =>
    have hd : d ≠ 0 := fun h => hct (List.mem_cons.mpr (.inl h.symm))
    refine searchLoop_found (P := fun rest => rest ≠ [] ∧ Taken (rest.map fold)
      ((d :: ct).map fold)) (stays_spec tolower_ofChar (fun _ => fold_eq_zero) hd ?_ ?_)
      (fun h => h.1 rfl) hcs
    · rintro rest ⟨hrest, htaken⟩
      cases rest with
      | nil => exact absurd rfl hrest
      | cons c rest =>
        refine ⟨c, rfl, ?_⟩
        rcases htaken with h | h | ⟨u, e, e', v, w, hl', -, hl⟩
        · exact (List.cons_prefix_cons.mp h).1.symm
        · exact (List.cons_prefix_cons.mp h).1
        · cases u with
          | nil | cons x u => exact (List.cons.inj hl).1.trans (List.cons.inj hl').1.symm
    · intro c rest hrest heq
      rw [List.map_cons, List.map_cons, heq, List.length_cons]
      cases rest with
      | nil =>
        refine ⟨0, strnicmp_end heq, iff_of_true rfl ⟨List.cons_ne_nil c [], ?_⟩⟩
        exact .inr (.inl (List.cons_prefix_cons.mpr ⟨rfl, List.nil_prefix⟩))
      | cons c' rest =>
        have hc' : c' ≠ 0 := fun h =>
          hrest (List.mem_cons_of_mem c (List.mem_cons.mpr (.inl h.symm)))
        obtain ⟨i, hi, hzero⟩ := strnicmp_zero hd (List.not_mem_of_not_mem_cons hrest)
          (List.not_mem_of_not_mem_cons hct)
        refine ⟨i, (strnicmp_of_eq heq hc').trans hi, hzero.trans ?_⟩
        exact (and_iff_right (List.cons_ne_nil c (c' :: rest))).symm

lemma strcasestr_found_iff (before : UInt8) :
    Found (strcasestr before (cs ++ [0]) (ct ++ [0]))
        (fun j => ct.map fold <+: (cs.drop j).map fold) ↔
      ∀ j, Passes (cs.drop j) ct → ∃ i ≤ j, ct.map fold <+: (cs.drop i).map fold := by
  have hoccurs : ∀ rest : List UInt8, ct.map fold <+: rest.map fold → rest ≠ [] := by
    rintro rest h rfl
    exact hne (List.map_eq_nil_iff.mp (List.prefix_nil.mp h))
  rw [(strcasestr_found hcs hct hne before).iff_of_imp fun j hj => ⟨hoccurs _ hj, .inl hj⟩]
  refine forall_congr' fun j => ?_
  constructor
  · rintro h (⟨hrest, hpasses⟩ | hdoubled)
    · exact h ⟨hrest, .inr (.inl hpasses)⟩
    · refine h ⟨?_, .inr (.inr hdoubled)⟩
      intro hrest
      obtain ⟨u, c, d, v, w, -, -, hl⟩ := hdoubled
      rw [hrest, List.map_nil] at hl
      exact absurd hl.symm (List.append_ne_nil_of_right_ne_nil u (List.cons_ne_nil c _))
  · rintro h ⟨hrest, hoccurs | hpasses | hdoubled⟩
    · exact ⟨j, Nat.le_refl j, hoccurs⟩
    · exact h (.inl ⟨hrest, hpasses⟩)
    · exact h (.inr hdoubled)

end Search

/-- The three searches find the first occurrence exactly if nothing in front of it passes for one
and the limit does not matter. -/
theorem searches_iff {cs ct : List UInt8} (hcs : 0 ∉ cs) (hct : 0 ∉ ct) (hne : ct ≠ [])
    (before : UInt8) (len : Nat) : Searches before cs ct len ↔ SearchesWhen cs ct len := by
  constructor
  · intro h
    exact ⟨(strcasestr_found_iff hcs hct hne before).mp h.strcasestr,
      (strnstr_found_iff hcs hct hne len).mp h.strnstr⟩
  · intro h
    exact ⟨strstr_found hcs hct hne, (strcasestr_found_iff hcs hct hne before).mpr h.strcasestr,
      (strnstr_found_iff hcs hct hne len).mpr h.strnstr⟩

/-- `"ab"` in `"abA"`, within the first two characters. -/
theorem searches_ab : Searches 0 [0x61, 0x62, 0x41] [0x61, 0x62] 2 :=
  (searches_iff (by decide) (by decide) (by decide) 0 2).mpr
    { strcasestr := fun j _ => ⟨0, Nat.zero_le j, by decide⟩
      strnstr := fun j _ => ⟨0, Nat.zero_le j, by decide, by decide⟩ }

/-- `strcasestr` finds `"ab"` in `"a"` and in `"aac"`, and `strnstr`
finds it within one character of `"ac"` and within two of `"cab"`. -/
theorem searches_broken : ¬Searches 0 [0x61] [0x61, 0x62] 2 ∧
    ¬Searches 0 [0x61, 0x61, 0x63] [0x61, 0x62] 4 ∧ ¬Searches 0 [0x61, 0x63] [0x61, 0x62] 1 ∧
      ¬Searches 0 [0x63, 0x61, 0x62] [0x61, 0x62] 2 := by
  refine ⟨fun h => ?_, fun h => ?_, fun h => ?_, fun h => ?_⟩
  · exact absurd (h.strcasestr.of_eq (j := 0) rfl) (by decide)
  · exact absurd (h.strcasestr.of_eq (j := 0) rfl) (by decide)
  · exact absurd (h.strnstr.of_eq (j := 0) rfl) (by decide)
  · exact absurd (h.strnstr.of_eq (j := 1) rfl) (by decide)

end DiegOS.Libc
