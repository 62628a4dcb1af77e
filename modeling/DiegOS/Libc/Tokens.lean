import DiegOS.Libc.Strings

/-!
# Tokens

`strtok_r` with `strspn` and `strpbrk`, and `strncpy`.  A pointer into the
buffer that `strtok_r` writes to is an index; a character read behind a buffer is
`none`.

Main results:

- Theorem `strtokR_eq`: one call of `strtok_r` finds the next token of the text that is
  left.
- Theorem `strncpy_eq`: a string that is shorter than the buffer is copied and padded.
-/

namespace DiegOS.Libc

/-! ## The code -/

/-- The inner loop of `strspn` and `strpbrk`: whether a character is one of a string. -/
def charIn (c : UInt8) : List UInt8 → Option Bool
  | [] => none
  | d :: ct => if d = 0 then some false else if d = c then some true else charIn c ct

def strspn : List UInt8 → List UInt8 → Option Nat
  | [], _ => none
  | c :: cs, ct =>
    if c = 0 then some 0
    else
      (charIn c ct).bind fun found =>
        if found then (strspn cs ct).map (· + 1) else some 0

/-- `strpbrk`, from the string on. -/
def strpbrk : List UInt8 → List UInt8 → Option (Option Nat)
  | [], _ => none
  | c :: cs, ct =>
    if c = 0 then some none
    else
      (charIn c ct).bind fun found =>
        if found then some (some 0) else (strpbrk cs ct).map (Option.map (· + 1))

/-- The end of `strtok_r`: the character behind the token is overwritten. -/
def cutToken (buffer : List UInt8) (s1 : Nat) : Option Nat → Option Nat × Option Nat × List UInt8
  | some k => (some s1, some (s1 + k + 1), buffer.set (s1 + k) 0)
  | none => (some s1, none, buffer)

/-- `strtok_r`: the token, `*saveptr` and the buffer after it. -/
def strtokR (buffer : List UInt8) (s : Option Nat) (ct : List UInt8) (saveptr : Option Nat) :
    Option (Option Nat × Option Nat × List UInt8) :=
  match s.or saveptr with
  | none => some (none, saveptr, buffer)
  | some s =>
    (strspn (buffer.drop s) ct).bind fun n =>
      let s1 := s + n
      (buffer[s1]?).bind fun c =>
        if c = 0 then some (none, none, buffer)
        else (strpbrk (buffer.drop s1) ct).map (cutToken buffer s1)

/-- `strncpy`: what the first `n` bytes of the destination are after it. -/
def strncpy : List UInt8 → Nat → Option (List UInt8)
  | _, 0 => some []
  | [], _ + 1 => none
  | c :: ct, n + 1 =>
    if c = 0 then some (0 :: List.replicate n 0) else (strncpy ct n).map (c :: ·)

/-! ## Tokens of a text -/

/-- The tokens of a text between separators. -/
def tokens (set text : List UInt8) : List (List UInt8) :=
  (text.splitOnP (· ∈ set)).filter (· ≠ [])

section Tokens

variable {set text sp w tail ct cs rest pre buffer : List UInt8} {c d : UInt8}
  {saveptr : Option Nat}

lemma tokens_cons (h : d ∈ set) (text : List UInt8) :
    tokens set (d :: text) = tokens set text := by
  rw [tokens, List.splitOnP_cons_eq_if_modifyHead, if_pos (decide_eq_true h), List.filter_cons,
    if_neg (by simp)]
  rfl

lemma tokens_append_left (h : ∀ c ∈ sp, c ∈ set) (text : List UInt8) :
    tokens set (sp ++ text) = tokens set text := by
  induction sp with
  | nil => rfl
  | cons c sp ih =>
    rw [List.cons_append, tokens_cons (h c (.head _)),
      ih fun c hc => h c (.tail _ hc)]

lemma tokens_word (hw : w ≠ []) (h : ∀ c ∈ w, c ∉ set) : tokens set w = [w] := by
  rw [tokens, List.splitOnP_eq_singleton (by simpa using h), List.filter_cons,
    if_pos (decide_eq_true hw)]
  rfl

lemma tokens_word_cons (hw : w ≠ []) (h : ∀ c ∈ w, c ∉ set) (hd : d ∈ set)
    (text : List UInt8) : tokens set (w ++ d :: text) = w :: tokens set text := by
  rw [tokens, List.splitOnP_append_cons_of_forall_mem (p := (· ∈ set)) (by simpa using h) d
    (decide_eq_true hd), List.filter_cons,
    if_pos (decide_eq_true hw)]
  rfl

/-- A text is separators, a token and what is behind it, which starts with a separator. -/
lemma exists_token (set text : List UInt8) :
    ∃ sp w tail, text = sp ++ (w ++ tail) ∧ (∀ c ∈ sp, c ∈ set) ∧ (∀ c ∈ w, c ∉ set) ∧
      (w = [] → tail = []) ∧ ∀ d tail', tail = d :: tail' → d ∈ set := by
  induction text with
  | nil => exact ⟨[], [], [], rfl, by simp, by simp, fun _ => rfl, by simp⟩
  | cons c text ih =>
    obtain ⟨sp, w, tail, rfl, hsp, hw, hempty, htail⟩ := ih
    by_cases hc : c ∈ set
    · exact ⟨c :: sp, w, tail, rfl, by simpa [hc] using hsp, hw, hempty, htail⟩
    · refine ⟨[], ?_⟩
      cases sp with
      | nil =>
        cases w with
        | nil =>
          obtain rfl := hempty rfl
          exact ⟨[c], [], rfl, by simp, by simpa using hc, by simp, by simp⟩
        | cons c' w =>
          exact ⟨c :: c' :: w, tail, rfl, by simp, by simpa [hc] using hw, by simp, htail⟩
      | cons d sp =>
        refine ⟨[c], d :: sp ++ (w ++ tail), rfl, by simp, by simpa using hc, by simp, ?_⟩
        rintro d' tail' heq
        obtain rfl : d = d' := (List.cons.inj heq).1
        exact hsp d (.head _)

/-! ## The functions -/

section

variable (hset : 0 ∉ set)
include hset

lemma charIn_eq : charIn c (set ++ [0]) = some (decide (c ∈ set)) := by
  induction set with
  | nil => rfl
  | cons d set ih =>
    rw [List.mem_cons, not_or] at hset
    rw [List.cons_append, charIn, if_neg (Ne.symm hset.1)]
    by_cases hd : d = c
    · rw [if_pos hd, hd, decide_eq_true List.mem_cons_self]
    · rw [if_neg hd, ih hset.2]
      simp [Ne.symm hd]

lemma strspn_append (hsp : ∀ c ∈ sp, c ∈ set) (cs : List UInt8) :
    strspn (sp ++ cs) (set ++ [0]) = (strspn cs (set ++ [0])).map (· + sp.length) := by
  induction sp with
  | nil =>
    rw [List.nil_append]
    exact Option.map_id'.symm
  | cons c sp ih =>
    have hc := hsp c (.head _)
    have hne : c ≠ 0 := fun h => hset (h ▸ hc)
    rw [List.cons_append, strspn, if_neg hne, charIn_eq hset, Option.bind_some,
      decide_eq_true hc, if_pos rfl, ih fun c hc => hsp c (.tail _ hc),
      Option.map_map]
    rfl

lemma strspn_stop (hc : c ∉ set) (cs : List UInt8) :
    strspn (c :: cs) (set ++ [0]) = some 0 := by
  rw [strspn, charIn_eq hset, decide_eq_false hc]
  split <;> rfl

lemma strpbrk_append (hw : ∀ c ∈ w, c ∉ set) (hzero : 0 ∉ w)
    (cs : List UInt8) :
    strpbrk (w ++ cs) (set ++ [0]) =
      (strpbrk cs (set ++ [0])).map (Option.map (· + w.length)) := by
  induction w with
  | nil =>
    have hid : Option.map (· + ([] : List UInt8).length) = id := Option.map_id
    rw [List.nil_append, hid, Option.map_id]
    rfl
  | cons c w ih =>
    rw [List.mem_cons, not_or] at hzero
    rw [List.cons_append, strpbrk, if_neg (Ne.symm hzero.1), charIn_eq hset, Option.bind_some,
      decide_eq_false (hw c (.head _)), if_neg Bool.false_ne_true,
      ih (fun c hc => hw c (.tail _ hc)) hzero.2, Option.map_map]
    congr 1
    funext k
    cases k <;> rfl

lemma strpbrk_found (hd : d ∈ set) (cs : List UInt8) :
    strpbrk (d :: cs) (set ++ [0]) = some (some 0) := by
  have hne : d ≠ 0 := fun h => hset (h ▸ hd)
  rw [strpbrk, if_neg hne, charIn_eq hset, Option.bind_some, decide_eq_true hd, if_pos rfl]

end

lemma strpbrk_end (cs ct : List UInt8) : strpbrk (0 :: cs) ct = some none := rfl

/-- A string starts at an index of a buffer. -/
def StringAt (buffer : List UInt8) (i : Nat) (w : List UInt8) : Prop :=
  ∃ rest, buffer.drop i = w ++ 0 :: rest

/-- The tokens that are left behind a saved pointer. -/
inductive Left (set : List UInt8) : List UInt8 → Option Nat → List (List UInt8) → Prop
  | done (buffer : List UInt8) : Left set buffer none []
  | text (pre : List UInt8) {text : List UInt8} (rest : List UInt8) (htext : 0 ∉ text) :
      Left set (pre ++ (text ++ 0 :: rest)) (some pre.length) (tokens set text)

/-- What a call of `strtok_r` returns, from the tokens that are left. -/
inductive Token (set : List UInt8) :
    Option (Option Nat × Option Nat × List UInt8) → List (List UInt8) → Prop
  | none (buffer : List UInt8) : Token set (some (none, none, buffer)) []
  | found {buffer : List UInt8} {i : Nat} {saveptr : Option Nat} {w : List UInt8}
      {ws : List (List UInt8)} (hword : StringAt buffer i w) (hne : w ≠ []) (hzero : 0 ∉ w)
      (hleft : Left set buffer saveptr ws) : Token set (some (some i, saveptr, buffer)) (w :: ws)

/-- A call of `strtok_r` up to the first character that is no separator. -/
lemma strtokR_skip (cs : List UInt8) (hset : 0 ∉ set) {s : Option Nat}
    (hptr : s.or saveptr = some pre.length) (hsp : ∀ c ∈ sp, c ∈ set) (hc : c ∉ set) :
    strtokR (pre ++ (sp ++ c :: cs)) s (set ++ [0]) saveptr =
      if c = 0 then some (none, none, pre ++ (sp ++ c :: cs))
      else (strpbrk (c :: cs) (set ++ [0])).map
        (cutToken (pre ++ (sp ++ c :: cs)) (pre.length + sp.length)) := by
  have hdrop : (pre ++ (sp ++ c :: cs)).drop (pre.length + sp.length) = c :: cs := by
    rw [← List.append_assoc, ← List.length_append, List.drop_left]
  have hspan : strspn ((pre ++ (sp ++ c :: cs)).drop pre.length) (set ++ [0]) =
      some sp.length := by
    rw [List.drop_left, strspn_append hset hsp, strspn_stop hset hc, Option.map_some,
      Nat.zero_add]
  have hhead : (pre ++ (sp ++ c :: cs))[pre.length + sp.length]? = some c := by
    rw [← List.head?_drop, hdrop, List.head?_cons]
  rw [strtokR, hptr]
  dsimp only
  rw [hspan, Option.bind_some, hhead, Option.bind_some, hdrop]

/-- The last token of a text. -/
lemma strtokR_last (hset : 0 ∉ set) {s : Option Nat} (hptr : s.or saveptr = some pre.length)
    (hsp : ∀ c ∈ sp, c ∈ set) (hw : ∀ c ∈ w, c ∉ set) (hne : w ≠ []) (hzero : 0 ∉ w) :
    strtokR (pre ++ (sp ++ (w ++ 0 :: rest))) s (set ++ [0]) saveptr =
      some (some (pre.length + sp.length), none, pre ++ (sp ++ (w ++ 0 :: rest))) := by
  cases w with
  | nil => exact absurd rfl hne
  | cons c w =>
    have hc : c ≠ 0 := fun h => hzero (List.mem_cons.mpr (.inl h.symm))
    have hskip := strtokR_skip (w ++ 0 :: rest) hset hptr hsp (hw c (.head _))
    have hbreak := strpbrk_append hset hw hzero (0 :: rest)
    rw [strpbrk_end] at hbreak
    rw [if_neg hc] at hskip
    exact hskip.trans (congrArg (Option.map _) hbreak)

/-- A token with a separator behind it. -/
lemma strtokR_cut (hset : 0 ∉ set) {s : Option Nat} (hptr : s.or saveptr = some pre.length)
    (hsp : ∀ c ∈ sp, c ∈ set) (hw : ∀ c ∈ w, c ∉ set) (hne : w ≠ []) (hzero : 0 ∉ w)
    (hd : d ∈ set) :
    strtokR (pre ++ (sp ++ (w ++ d :: tail))) s (set ++ [0]) saveptr =
      some (some (pre.length + sp.length), some (pre ++ (sp ++ (w ++ [0]))).length,
        pre ++ (sp ++ (w ++ [0])) ++ tail) := by
  have hset' : (pre ++ (sp ++ (w ++ d :: tail))).set (pre.length + sp.length + w.length) 0 =
      pre ++ (sp ++ (w ++ [0])) ++ tail := by
    have hsplit : pre ++ (sp ++ (w ++ d :: tail)) = (pre ++ sp ++ w) ++ d :: tail := by
      simp only [List.append_assoc]
    rw [hsplit, ← List.length_append, ← List.length_append, List.set_append_right _ _
      (Nat.le_refl _), Nat.sub_self, List.set_cons_zero]
    simp only [List.append_assoc, List.singleton_append]
  have hnext : pre.length + sp.length + w.length + 1 = (pre ++ (sp ++ (w ++ [0]))).length := by
    simp only [List.length_append, List.length_singleton, Nat.add_assoc]
  cases w with
  | nil => exact absurd rfl hne
  | cons c w =>
    have hc : c ≠ 0 := fun h => hzero (List.mem_cons.mpr (.inl h.symm))
    have hskip := strtokR_skip (w ++ d :: tail) hset hptr hsp (hw c (.head _))
    have hbreak := strpbrk_append hset hw hzero (d :: tail)
    rw [strpbrk_found hset hd, Option.map_some, Option.map_some, Nat.zero_add] at hbreak
    rw [if_neg hc] at hskip
    rw [← hset', ← hnext]
    exact hskip.trans (congrArg (Option.map _) hbreak)

/-- One call of `strtok_r` finds the next token of the text that is left. -/
theorem strtokR_eq (hset : 0 ∉ set) {s : Option Nat} {ws : List (List UInt8)}
    (hleft : Left set buffer (s.or saveptr) ws) :
    Token set (strtokR buffer s (set ++ [0]) saveptr) ws := by
  generalize hptr : s.or saveptr = ptr at hleft
  cases hleft with
  | done buffer =>
    have hnone : saveptr = none := (Option.or_eq_none_iff.mp hptr).2
    rw [strtokR, hptr, hnone]
    exact .none buffer
  | @text pre text rest htext =>
    obtain ⟨sp, w, tail, rfl, hsp, hw, hempty, htail⟩ := exists_token set text
    have hzero : 0 ∉ w := fun h => htext
      (List.mem_append_right _ (List.mem_append_left _ h))
    have hword : ∀ rest, StringAt (pre ++ (sp ++ (w ++ 0 :: rest))) (pre.length + sp.length) w :=
      fun rest => ⟨rest, by rw [← List.append_assoc, ← List.length_append, List.drop_left]⟩
    rw [tokens_append_left hsp, List.append_assoc, List.append_assoc]
    by_cases hne : w = []
    · obtain rfl := hempty hne
      subst hne
      have hnone := strtokR_skip rest hset hptr hsp hset
      rw [if_pos rfl] at hnone
      rw [List.nil_append, List.nil_append, hnone]
      exact .none _
    · cases tail with
      | nil =>
        rw [List.nil_append, List.append_nil, strtokR_last hset hptr hsp hw hne hzero,
          tokens_word hne hw]
        exact .found (hword rest) hne hzero (.done _)
      | cons d tail =>
        have hd := htail d tail rfl
        have hlast : 0 ∉ tail := fun h => htext (List.mem_append_right _
          (List.mem_append_right _ (List.mem_cons_of_mem d h)))
        have hbuffer := hword (tail ++ 0 :: rest)
        rw [List.cons_append, strtokR_cut hset hptr hsp hw hne hzero hd,
          tokens_word_cons hne hw hd]
        refine .found ?_ hne hzero (.text _ rest hlast)
        simpa only [List.append_assoc, List.singleton_append] using hbuffer

/-- A string that is shorter than the buffer is copied and padded. -/
theorem strncpy_eq {text : List UInt8} (htext : 0 ∉ text) (rest : List UInt8) {n : Nat}
    (hn : text.length < n) :
    strncpy (text ++ 0 :: rest) n = some (text ++ 0 :: List.replicate (n - text.length - 1) 0) := by
  induction text generalizing n with
  | nil =>
    obtain ⟨n, rfl⟩ : ∃ k, n = k + 1 := ⟨n - 1, by omega⟩
    rfl
  | cons c text ih =>
    rw [List.mem_cons, not_or] at htext
    rw [List.length_cons] at hn
    obtain ⟨n, rfl⟩ : ∃ k, n = k + 1 := ⟨n - 1, by omega⟩
    rw [List.cons_append, strncpy, if_neg (Ne.symm htext.1), ih htext.2 (by omega),
      Option.map_some, List.length_cons, Nat.add_sub_add_right]
    rfl

/-- `strcmp` tells equal strings. -/
lemma strcmp_eq_zero {w item : List UInt8} (hw : 0 ∉ w) (hitem : 0 ∉ item)
    (rest rest' : List UInt8) :
    ∃ i, strcmp (w ++ 0 :: rest) (item ++ 0 :: rest') = some i ∧ (i = 0 ↔ w = item) := by
  induction w generalizing item with
  | nil =>
    cases item with
    | nil => exact ⟨0, rfl, iff_of_true rfl rfl⟩
    | cons d item =>
      rw [List.mem_cons, not_or] at hitem
      have hne : ofChar 0 ≠ ofChar d := ofChar_inj.not.mpr hitem.1
      refine ⟨ofChar 0 - ofChar d, if_neg hne, iff_of_false (by omega) ?_⟩
      exact (List.cons_ne_nil d item).symm
  | cons c w ih =>
    rw [List.mem_cons, not_or] at hw
    cases item with
    | nil =>
      have hne : ofChar c ≠ ofChar 0 := ofChar_inj.not.mpr (Ne.symm hw.1)
      exact ⟨ofChar c - ofChar 0, if_neg hne,
        iff_of_false (by omega) (List.cons_ne_nil c w)⟩
    | cons d item =>
      rw [List.mem_cons, not_or] at hitem
      by_cases hcd : c = d
      · subst hcd
        obtain ⟨i, hi, hzero⟩ := ih hw.2 hitem.2
        refine ⟨i, ?_, ?_⟩
        · rw [← hi]
          exact (if_pos rfl).trans (if_neg (Ne.symm hw.1))
        · rw [hzero, List.cons.injEq, and_iff_right rfl]
      · have hne : ofChar c ≠ ofChar d := ofChar_inj.not.mpr hcd
        refine ⟨ofChar c - ofChar d, if_neg hne, iff_of_false (by omega) fun h => ?_⟩
        exact hcd (List.cons.inj h).1

end Tokens

end DiegOS.Libc
