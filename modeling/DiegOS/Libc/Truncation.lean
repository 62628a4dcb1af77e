import DiegOS.Libc.PrintfIntegers
import DiegOS.Libc.Snprintf

/-!
# Truncated output

`vsnprintf` cuts the text of a format to the size of the caller's memory.  The digits of an
integer are made in `temp`, whose size does not depend on what is asked for.

Main results:

- Theorem `Stream.Filled.putAll_rest`: what is put leaves the memory behind the buffer.
- Theorem `fields_inside_iff`: when the digits of all directives go inside `temp`.
- Theorem `vsnprintf_truncates_iff`: when the output is cut to its size and nothing else is
  stored.
-/

namespace DiegOS.Libc

open Lib (numeral)

/-! ## The memory behind the buffer -/

section Rest

variable {s : Stream} {n i : Nat} {put : List UInt8}

lemma Stream.Filled.writebuffer_rest (h : s.Filled n put) (c : UInt8) (hi : n ≤ i) :
    (s.writebuffer (ofChar c)).1.cells i = s.cells i := by
  have hcount := h.count
  have hneg : s.fd < 0 := by rw [h.fd]; decide
  unfold Stream.writebuffer
  by_cases hfree : s.count ≠ 0
  · rw [if_pos hfree]
    exact Function.update_of_ne (by dsimp only; omega) _ _
  · rw [if_neg hfree, if_pos hneg]

/-- What is put leaves the memory behind the buffer as it is. -/
theorem Stream.Filled.putAll_rest {p : Printing} {malloc : Memory} (h : p.stream.Filled n put)
    (text : List UInt8) (hi : n ≤ i) :
    (Libc.putAll (fputcInternal malloc true) text p).1.stream.cells i = p.stream.cells i := by
  induction text generalizing p put with
  | nil => rfl
  | cons c text ih =>
    rw [putAll_cons, @ih _ ⟨_, p.bcount + 1, p.emitted ++ [c]⟩ (h.fputc c malloc)]
    obtain ⟨hwriting, heq⟩ := h.fputc_eq c malloc
    rw [heq]
    exact hwriting.writebuffer_rest c hi

end Rest

/-! ## The use of the temporary buffer -/

/-- How many digits `int2ascii` makes: no more than the width, if there is one. -/
def digitCount (base : Nat) (width : Int) (u : Nat) : Nat :=
  if width = 0 then (numeral base u).length
  else min (numeral base u).length (max 1 width.toNat)

lemma putDigits_length {base : Nat} (hbase : 1 < base) (x2c : List UInt8) (width : Int)
    (u : Nat) :
    (putDigits base x2c width (u + 1) u ⟨[], true⟩).chars.length = digitCount base width u := by
  have hpos := Lib.numeral_length_pos base u
  have hempty : ((Temp.mk [] true).chars.length : Int) = 0 := rfl
  rw [digitCount]
  by_cases hall : width = 0 ∨ ((numeral base u).length : Int) ≤ width ∨
      (numeral base u).length ≤ 1
  · rw [putDigits_all hbase (Nat.lt_succ_self u) (by rw [hempty]; omega), List.append_nil,
      length_digitChars]
    split_ifs
    · rfl
    · omega
  · have hcut := @putDigits_cut base x2c width hbase (u + 1) u ⟨[], true⟩ (Nat.lt_succ_self u)
      (by omega) (by rw [hempty]; omega) (by omega)
    rw [hempty] at hcut
    rw [if_neg (by omega)]
    omega

/-- How many characters `int2ascii` puts into `temp`. -/
def tempChars (d : Directive) (base u : Nat) : Nat :=
  (if d.flags.prepend then (radixMark base).length else 0) +
    (d.fillCount (digitCount base d.width u) + digitCount base d.width u)

lemma int2ascii_length (d : Directive) {base : Nat} (hbase : 1 < base) (x2c : List UInt8)
    (i : Int) (u : Nat) : (int2ascii d base x2c i u).chars.length = tempChars d base u := by
  rw [int2ascii_chars, List.length_append, List.length_append, List.length_replicate,
    putDigits_length hbase, tempChars]
  split_ifs
  · rfl
  · rfl

/-- How many characters a specifier puts into `temp`. -/
def tempUse (d : Directive) (ap : VaList) (c : UInt8) : Nat :=
  if c = 'd'.toUInt8 ∨ c = 'i'.toUInt8 then
    tempChars (d.clip decimalMax) 10 (ap.signed d.size).natAbs
  else if c = 'o'.toUInt8 then tempChars (d.clip octalMax) 8 (ap.unsigned d.size)
  else if c = 'p'.toUInt8 then
    let d := { d with flags := { d.flags with prepend := true } }
    tempChars (d.clip hexMax) 16 (ap.unsigned d.size)
  else if c = 'X'.toUInt8 ∨ c = 'x'.toUInt8 then
    tempChars (d.clip hexMax) 16 (ap.unsigned d.size)
  else if c = 'u'.toUInt8 then tempChars d 10 (ap.unsigned d.size)
  else if c = 'c'.toUInt8 ∨ c = percent then 1
  else 0

/-- A specifier stays inside `temp` if its characters leave room for the zero. -/
lemma convert_inside (string : UInt32 → List UInt8) (d : Directive) (ap : VaList) (c : UInt8) :
    (convert string d ap c).1.inside = true ↔ tempUse d ap c < TEMP_SIZE := by
  have hinteger : ∀ (d : Directive) {base : Nat} (_ : 1 < base) (x2c : List UInt8) (i : Int)
      (u : Nat), (int2ascii d base x2c i u).inside = true ↔ tempChars d base u < TEMP_SIZE := by
    intro d base hbase x2c i u
    rw [int2ascii_inside, int2ascii_length d hbase, decide_eq_true_iff]
  have hone : 1 < TEMP_SIZE := by decide
  have hzero : 0 < TEMP_SIZE := by decide
  unfold convert tempUse
  by_cases hd : c = 'd'.toUInt8 ∨ c = 'i'.toUInt8
  · rw [if_pos hd, if_pos hd]
    exact hinteger _ (by decide) _ _ _
  rw [if_neg hd, if_neg hd]
  by_cases ho : c = 'o'.toUInt8
  · rw [if_pos ho, if_pos ho]
    exact hinteger _ (by decide) _ _ _
  rw [if_neg ho, if_neg ho]
  by_cases hp : c = 'p'.toUInt8
  · rw [if_pos hp, if_pos hp]
    exact hinteger _ (by decide) _ _ _
  rw [if_neg hp, if_neg hp]
  by_cases hX : c = 'X'.toUInt8
  · rw [if_pos hX, if_pos (.inl hX)]
    exact hinteger _ (by decide) _ _ _
  rw [if_neg hX]
  by_cases hx : c = 'x'.toUInt8
  · rw [if_pos hx, if_pos (.inr hx)]
    exact hinteger _ (by decide) _ _ _
  rw [if_neg hx, if_neg (not_or.mpr ⟨hX, hx⟩)]
  by_cases hu : c = 'u'.toUInt8
  · rw [if_pos hu, if_pos hu]
    exact hinteger _ (by decide) _ _ _
  rw [if_neg hu, if_neg hu]
  by_cases hc : c = 'c'.toUInt8
  · rw [if_pos hc, if_pos (.inl hc)]
    exact iff_of_true rfl hone
  rw [if_neg hc]
  by_cases hpercent : c = percent
  · rw [if_pos hpercent, if_pos (.inr hpercent)]
    exact iff_of_true rfl hone
  rw [if_neg hpercent, if_neg (not_or.mpr ⟨hc, hpercent⟩)]
  by_cases hs : c = 's'.toUInt8
  · rw [if_pos hs]
    exact iff_of_true rfl hzero
  · rw [if_neg hs]
    exact iff_of_true rfl hzero

/-- The directives of a format: what stands before the specifier, the arguments from there on and
the specifier. -/
def directivesIn (string : UInt32 → List UInt8) :
    Nat → VaList → List UInt8 → List (Directive × VaList × UInt8)
  | 0, _, _ => []
  | _ + 1, _, [] => []
  | rounds + 1, ap, c :: fmt =>
    if c = percent then
      match readDirective ap fmt with
      | (_, _, []) => []
      | (d, ap, c :: fmt) => (d, ap, c) :: directivesIn string rounds (convert string d ap c).2 fmt
    else directivesIn string rounds ap fmt

/-- All directives of a format. -/
def directives (string : UInt32 → List UInt8) (fmt : List UInt8) (ap : VaList) :
    List (Directive × VaList × UInt8) :=
  directivesIn string fmt.length ap fmt

/-- No directive makes too many characters for `temp`. -/
def FitsTemp (string : UInt32 → List UInt8) (fmt : List UInt8) (ap : VaList) : Prop :=
  ∀ x ∈ directives string fmt ap, tempUse x.1 x.2.1 x.2.2 < TEMP_SIZE

lemma fieldsIn_inside_iff (string : UInt32 → List UInt8) (rounds : Nat) (ap : VaList)
    (fmt : List UInt8) :
    (∀ f ∈ fieldsIn string rounds ap fmt, f.inside = true) ↔
      ∀ x ∈ directivesIn string rounds ap fmt, tempUse x.1 x.2.1 x.2.2 < TEMP_SIZE := by
  induction rounds generalizing ap fmt with
  | zero => exact iff_of_true (List.forall_mem_nil _) (List.forall_mem_nil _)
  | succ rounds ih =>
    cases fmt with
    | nil => exact iff_of_true (List.forall_mem_nil _) (List.forall_mem_nil _)
    | cons c fmt =>
      rw [fieldsIn, directivesIn, nextField]
      by_cases hc : c = percent
      · rw [if_pos hc, if_pos hc]
        rcases readDirective ap fmt with ⟨d, ap', rest⟩
        cases rest with
        | nil => exact iff_of_true (List.forall_mem_nil _) (List.forall_mem_nil _)
        | cons c rest =>
          dsimp only
          rw [List.forall_mem_cons, List.forall_mem_cons, ih, convert_inside]
      · rw [if_neg hc, if_neg hc]
        dsimp only
        rw [List.forall_mem_cons, ih]
        exact and_iff_right rfl

/-- The digits go inside `temp` exactly if no directive makes too many characters. -/
theorem fields_inside_iff (string : UInt32 → List UInt8) (fmt : List UInt8) (ap : VaList) :
    (∀ f ∈ fields string fmt ap, f.inside = true) ↔ FitsTemp string fmt ap :=
  fieldsIn_inside_iff string fmt.length ap fmt

/-! ## Truncation -/

/-- `vsnprintf` stores the text of the format, cut to the size, and the zero behind it, and
nothing else, and returns the length of the text. -/
structure Truncates (validsize : Nat) (string : UInt32 → List UInt8) (s : Nat → UInt8) (n : Nat)
    (fmt : List UInt8) (ap : VaList) : Prop where
  /-- every store into `temp` went inside it -/
  temp : ∀ f ∈ fields string fmt ap, f.inside = true
  /-- every store through the stream went inside the buffer -/
  buffer : (formattedPrintf string none (memoryStream validsize s n) fmt true
    ap).1.stream.inside = true
  rest : ∀ i, n ≤ i → (vsnprintf validsize string s n fmt ap).1 i = s i
  text : (List.range (min (printed string fmt ap).length (n - 1))).map
    (vsnprintf validsize string s n fmt ap).1 = (printed string fmt ap).take (n - 1)
  terminator : (vsnprintf validsize string s n fmt ap).1
    (min (printed string fmt ap).length (n - 1)) = 0
  retval : (vsnprintf validsize string s n fmt ap).2 = (printed string fmt ap).length

/-- The output is cut to its size, and nothing else is stored, exactly if no directive makes too
many characters for `temp`. -/
theorem vsnprintf_truncates_iff (validsize : Nat) (string : UInt32 → List UInt8)
    (s : Nat → UInt8) (n : Nat) (fmt : List UInt8) (ap : VaList) (hn : 0 < n)
    (_hmax : (n : Int) ≤ INT_MAX) (hlength : ((printed string fmt ap).length : Int) ≤ INT_MAX) :
    Truncates validsize string s n fmt ap ↔ FitsTemp string fmt ap := by
  rw [← fields_inside_iff]
  constructor
  · exact Truncates.temp
  · intro htemp
    have hfilled := (formattedPrintf_filled validsize string s n fmt ap hlength).1
    have hrest : ∀ i, n ≤ i →
        (formattedPrintf string none (memoryStream validsize s n) fmt true ap).1.stream.cells i =
          s i := by
      intro i hi
      rw [formattedPrintf_eq]
      exact @Stream.Filled.putAll_rest n i [] ⟨memoryStream validsize s n, 0, []⟩ none
        (memoryStream_filled validsize s n) _ hi
    have hbufptr := hfilled.bufptr
    have heq := vsnprintf_eq validsize string s fmt ap hn hlength
    refine ⟨htemp, hfilled.inside, ?_, ?_, ?_, ?_⟩
    · intro i hi
      rw [heq]
      exact (Function.update_of_ne (by omega) _ _).trans (hrest i hi)
    · rw [heq, map_update_of_le le_rfl, hfilled.cells (by omega),
        List.take_eq_take_iff]
      omega
    · rw [heq]
      exact Function.update_self _ _ _
    · rw [heq]

/-- `"%d\n"` with 42, into two bytes. -/
theorem vsnprintf_truncates_number :
    Truncates 0 (fun _ => []) (fun _ => 0) 2 [percent, 'd'.toUInt8, newline] (fun _ => 42) ↔
      FitsTemp (fun _ => []) [percent, 'd'.toUInt8, newline] fun _ => 42 :=
  vsnprintf_truncates_iff 0 (fun _ => []) (fun _ => 0) 2 [percent, 'd'.toUInt8, newline]
    (fun _ => 42) (by decide) (by decide) (by decide)

/-- `"%30.25u"` -/
def wideFormat : List UInt8 := "%30.25u".toList.map Char.toUInt8

/-- The digits of `"%30.25u"` are filled up with 24 blanks, in front of `temp`. -/
theorem vsnprintf_wide :
    ¬∀ (validsize : Nat) (string : UInt32 → List UInt8) (s : Nat → UInt8) (n : Nat)
      (fmt : List UInt8) (ap : VaList), 0 < n → (n : Int) ≤ INT_MAX →
      ((printed string fmt ap).length : Int) ≤ INT_MAX →
      Truncates validsize string s n fmt ap := by
  intro h
  have htemp := (h 0 (fun _ => []) (fun _ => 0) 40 wideFormat (fun _ => 5) (by decide) (by decide)
    (by decide)).temp
  exact absurd htemp (by decide)

end DiegOS.Libc
