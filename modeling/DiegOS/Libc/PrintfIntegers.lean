import DiegOS.Lib.Numerals
import DiegOS.Libc.Printf

/-!
# Printed integers

A directive for an integer as it is written in a format, what it asks for and what
`int2ascii` and `string_print` make of it.

Main results:

- Theorem `readDirective_text`: the directive is read back from its text.
- Theorem `putDigits_all`, Theorem `putDigits_cut`: when the digits are all there.
- Theorem `integers_faithful_iff`: when the number is printed as the directive asks.
-/

namespace DiegOS.Libc

open Lib (numeral)

/-! ## The text of a directive -/

/-- The flags as they are written. -/
inductive Flag where
  | minus
  | plus
  | blank
  | hash
  | zero
deriving DecidableEq, Repr

/-- The character of a flag. -/
def Flag.char : Flag → UInt8
  | .minus => Libc.minus
  | .plus => Libc.plus
  | .blank => Libc.blank
  | .hash => '#'.toUInt8
  | .zero => Libc.zero

/-- One more decimal digit. -/
def addDigit (n : Int) (c : UInt8) : Int := n * 10 + (c.toNat - 48)

/-- The number that digits stand for. -/
def digitsValue (digits : List UInt8) : Int := digits.foldl addDigit 0

/-- A number written in a format. -/
structure FormatNumber where
  digits : List UInt8
  isdigit : ∀ c ∈ digits, Libc.isdigit c = true
  value_le : digitsValue digits ≤ INT_MAX

/-- A width: none, an argument, or a number that does not start like a flag. -/
inductive FormatWidth where
  | none
  | star
  | number (n : FormatNumber) (h : n.digits ≠ [] ∧ n.digits.head? ≠ some Libc.zero)

/-- A precision: none, an argument, or a number after the dot, which may have no digit. -/
inductive FormatPrecision where
  | none
  | star
  | number (n : FormatNumber)

/-- A length modifier. -/
inductive FormatSize where
  | none
  | hh
  | h
  | l
  | ll
  | L
deriving DecidableEq, Repr

/-- The conversions of integers. -/
inductive Conversion where
  | d
  | i
  | o
  | p
  | X
  | x
  | u
deriving DecidableEq, Repr

/-- A directive for an integer. -/
structure IntDirective where
  flags : List Flag
  width : FormatWidth
  precision : FormatPrecision
  size : FormatSize
  conversion : Conversion

def FormatWidth.text : FormatWidth → List UInt8
  | .none => []
  | .star => ['*'.toUInt8]
  | .number n _ => n.digits

def FormatPrecision.text : FormatPrecision → List UInt8
  | .none => []
  | .star => ['.'.toUInt8, '*'.toUInt8]
  | .number n => '.'.toUInt8 :: n.digits

def FormatSize.text : FormatSize → List UInt8
  | .none => []
  | .hh => ['h'.toUInt8, 'h'.toUInt8]
  | .h => ['h'.toUInt8]
  | .l => ['l'.toUInt8]
  | .ll => ['l'.toUInt8, 'l'.toUInt8]
  | .L => ['L'.toUInt8]

def Conversion.char : Conversion → UInt8
  | .d => 'd'.toUInt8
  | .i => 'i'.toUInt8
  | .o => 'o'.toUInt8
  | .p => 'p'.toUInt8
  | .X => 'X'.toUInt8
  | .x => 'x'.toUInt8
  | .u => 'u'.toUInt8

/-- The directive behind its `%`. -/
def IntDirective.body (d : IntDirective) : List UInt8 :=
  d.flags.map Flag.char ++ (d.width.text ++ (d.precision.text ++ (d.size.text ++
    [d.conversion.char])))

/-- The directive as it is written in a format. -/
def IntDirective.text (d : IntDirective) : List UInt8 := percent :: d.body

/-! ## What a directive asks for -/

/-- The value of a width. -/
def FormatWidth.value (ap : VaList) : FormatWidth → Int
  | .none => 0
  | .star => toInt (ap 0)
  | .number n _ => digitsValue n.digits

/-- The arguments a width takes. -/
def FormatWidth.words : FormatWidth → Nat
  | .star => 1
  | _ => 0

/-- The value of a precision; a dot without digits is none. -/
def FormatPrecision.value (ap : VaList) : FormatPrecision → Int
  | .none => INT_MAX
  | .star => toInt (ap 0)
  | .number n => if n.digits = [] then INT_MAX else digitsValue n.digits

/-- The arguments a precision takes. -/
def FormatPrecision.words : FormatPrecision → Nat
  | .star => 1
  | _ => 0

/-- The type of the argument. -/
def FormatSize.argSize : FormatSize → ArgSize
  | .none => .int
  | .hh => .char
  | .h => .short
  | .l => .long
  | .ll => .longlong
  | .L => .long

namespace IntDirective

variable (d : IntDirective) (ap : VaList)

/-- The width that is asked for. -/
def minWidth : Int := d.width.value ap

/-- The arguments behind the width. -/
def behindWidth : VaList := ap.skip d.width.words

/-- The precision. -/
def maxChars : Int := d.precision.value (d.behindWidth ap)

/-- The arguments from the integer on. -/
def integer : VaList := (d.behindWidth ap).skip d.precision.words

end IntDirective

/-! ### The directive is read back -/

/-- What the text of a part starts with. -/
def Starts (P : UInt8 → Prop) (fmt : List UInt8) : Prop := ∀ c, fmt.head? = some c → P c

lemma Starts.cons {P : UInt8 → Prop} {c : UInt8} {fmt : List UInt8} (h : P c) :
    Starts P (c :: fmt) := by
  intro d hd
  rw [← Option.some.inj hd]
  exact h

lemma Starts.mono {P Q : UInt8 → Prop} {fmt : List UInt8} (h : Starts P fmt)
    (himp : ∀ c, P c → Q c) : Starts Q fmt := fun c hc => himp c (h c hc)

/-- The characters a length modifier or a specifier starts with. -/
def letters : List UInt8 :=
  ['h'.toUInt8, 'l'.toUInt8, 'L'.toUInt8, 'd'.toUInt8, 'i'.toUInt8, 'o'.toUInt8, 'p'.toUInt8,
    'X'.toUInt8, 'x'.toUInt8, 'u'.toUInt8]

/-- The characters of flags. -/
def flagChars : List UInt8 := [minus, plus, blank, '#'.toUInt8, zero]

lemma letters_apart : ∀ c ∈ letters, isdigit c = false ∧ c ≠ '.'.toUInt8 ∧ c ≠ '*'.toUInt8 ∧
    c ∉ flagChars := by
  have hall : (letters.all fun c => !isdigit c && (c != '.'.toUInt8 && (c != '*'.toUInt8 &&
      !flagChars.elem c))) = true := by decide
  intro c hc
  have h := List.all_eq_true.mp hall c hc
  simp only [Bool.and_eq_true, Bool.not_eq_true', bne_iff_ne, List.elem_eq_mem,
    decide_eq_false_iff_not] at h
  exact h

lemma isdigit_apart {c : UInt8} (h : isdigit c = true) :
    c ≠ '.'.toUInt8 ∧ c ≠ '*'.toUInt8 ∧ (c ≠ zero → c ∉ flagChars) := by
  have hother : (['.'.toUInt8, '*'.toUInt8, minus, plus, blank, '#'.toUInt8].all
      fun x => !isdigit x) = true := by decide
  have hne : ∀ x ∈ ['.'.toUInt8, '*'.toUInt8, minus, plus, blank, '#'.toUInt8], c ≠ x := by
    rintro x hx rfl
    have hnot := List.all_eq_true.mp hother c hx
    rw [h] at hnot
    contradiction
  simp only [List.mem_cons, List.not_mem_nil, or_false, forall_eq_or_imp, forall_eq] at hne
  rcases hne with ⟨hdot, hstar, hminus, hplus, hblank, hhash⟩
  refine ⟨hdot, hstar, fun hzero => ?_⟩
  simp [flagChars, hminus, hplus, hblank, hhash, hzero]

lemma readNumber_append (n : Int) {digits rest : List UInt8}
    (hdigits : ∀ c ∈ digits, isdigit c = true) (hrest : Starts (isdigit · = false) rest) :
    readNumber n (digits ++ rest) = (digits.foldl addDigit n, rest) := by
  induction digits generalizing n with
  | nil =>
    cases rest with
    | nil => rfl
    | cons c rest =>
      rw [List.nil_append, readNumber, hrest c rfl]
      rfl
  | cons c digits ih =>
    have hc := hdigits c (.head _)
    rw [List.cons_append, readNumber, if_pos hc,
      ih _ fun c h => hdigits c (.tail _ h)]
    rfl

lemma readSize_text (s : FormatSize) (c : Conversion) (rest : List UInt8) :
    readSize (s.text ++ c.char :: rest) = (s.argSize, c.char :: rest) := by
  cases s <;> cases c <;> rfl

lemma starts_size (s : FormatSize) (c : Conversion) (rest : List UInt8) :
    Starts (· ∈ letters) (s.text ++ c.char :: rest) := by
  cases s <;> cases c <;> exact .cons (by decide)

lemma readPrecision_text (p : FormatPrecision) (ap : VaList) {rest : List UInt8}
    (hrest : Starts (· ∈ letters) rest) :
    readPrecision ap (p.text ++ rest) = (p.value ap, ap.skip p.words, rest) := by
  have hdigit : Starts (isdigit · = false) rest := hrest.mono fun c hc => (letters_apart c hc).1
  cases p with
  | none =>
    cases rest with
    | nil => rfl
    | cons c rest =>
      have hc := (letters_apart c (hrest c rfl)).2.1
      exact if_neg hc
  | star => rfl
  | number n =>
    change readMax ap (n.digits ++ rest) = (if n.digits = [] then _ else _, _, _)
    cases hn : n.digits with
    | nil =>
      cases rest with
      | nil => rfl
      | cons c rest =>
        have hc := letters_apart c (hrest c rfl)
        rw [List.nil_append, readMax, if_neg hc.2.2.1, hc.1]
        rfl
    | cons c digits =>
      have hall := n.isdigit
      rw [hn] at hall
      have hc := hall c (.head _)
      rw [List.cons_append, readMax, if_neg (isdigit_apart hc).2.1, if_pos hc,
        ← List.cons_append, readNumber_append 0 hall hdigit]
      rfl

lemma starts_precision (p : FormatPrecision) {rest : List UInt8}
    (hrest : Starts (· ∈ letters) rest) :
    Starts (fun c => isdigit c = false ∧ c ≠ '*'.toUInt8 ∧ c ∉ flagChars) (p.text ++ rest) := by
  cases p with
  | none => exact hrest.mono fun c hc => ⟨(letters_apart c hc).1, (letters_apart c hc).2.2⟩
  | star | number n => exact .cons (by decide)

lemma readWidth_text (w : FormatWidth) (ap : VaList) {rest : List UInt8}
    (hrest : Starts (fun c => isdigit c = false ∧ c ≠ '*'.toUInt8 ∧ c ∉ flagChars) rest) :
    readWidth ap (w.text ++ rest) = (w.value ap, ap.skip w.words, rest) := by
  have hdigit : Starts (isdigit · = false) rest := hrest.mono fun c hc => hc.1
  cases w with
  | none =>
    cases rest with
    | nil => rfl
    | cons c rest =>
      have hc := hrest c rfl
      change readWidth ap (c :: rest) = _
      rw [readWidth, if_neg hc.2.1]
      have hread := @readNumber_append 0 [] _ (by simp) hdigit
      rw [List.nil_append] at hread
      rw [hread]
      rfl
  | star => rfl
  | number n h =>
    change readWidth ap (n.digits ++ rest) = _
    have hread := readNumber_append 0 n.isdigit hdigit
    cases hn : n.digits with
    | nil => exact absurd hn h.1
    | cons c digits =>
      have hc := n.isdigit c (by rw [hn]; exact .head _)
      rw [List.cons_append, readWidth, if_neg (isdigit_apart hc).2.1, ← List.cons_append,
        ← hn, hread]
      rfl

lemma starts_width (w : FormatWidth) {rest : List UInt8}
    (hrest : Starts (fun c => isdigit c = false ∧ c ≠ '*'.toUInt8 ∧ c ∉ flagChars) rest) :
    Starts (· ∉ flagChars) (w.text ++ rest) := by
  cases w with
  | none => exact hrest.mono fun c hc => hc.2.2
  | star => exact .cons (by decide)
  | number n h =>
    change Starts _ (n.digits ++ rest)
    cases hn : n.digits with
    | nil => exact absurd hn h.1
    | cons c digits =>
      have hc := n.isdigit c (by rw [hn]; exact .head _)
      refine .cons ((isdigit_apart hc).2.2 fun hzero => h.2 ?_)
      rw [hn, hzero]
      rfl

/-- What a flag does to the flags before it. -/
def applyFlag (flags : FormatFlags) : Flag → FormatFlags
  | .minus => .LEFT
  | .plus => { flags with forceSign := true, forceNosign := false }
  | .blank => { flags with forceSign := false, forceNosign := true }
  | .hash => { flags with prepend := true }
  | .zero => { flags with fillzero := true }

lemma readFlags_text (l : List Flag) (flags : FormatFlags) (fill : UInt8) {rest : List UInt8}
    (hrest : Starts (· ∉ flagChars) rest) :
    readFlags flags fill (l.map Flag.char ++ rest) =
      (l.foldl applyFlag flags, if .zero ∈ l then zero else fill, rest) := by
  induction l generalizing flags fill with
  | nil =>
    cases rest with
    | nil => rfl
    | cons c rest =>
      have hc := hrest c rfl
      simp only [flagChars, List.mem_cons, List.not_mem_nil, or_false, not_or] at hc
      rw [List.map_nil, List.nil_append, readFlags, if_neg hc.1, if_neg hc.2.1,
        if_neg hc.2.2.1, if_neg hc.2.2.2.1, if_neg hc.2.2.2.2]
      rfl
  | cons f l ih =>
    rw [List.map_cons, List.cons_append, List.foldl_cons]
    cases f
    all_goals first | exact (ih _ _).trans (by simp [applyFlag])

/-- The directive is read back from its text. -/
theorem readDirective_text (d : IntDirective) (ap : VaList) (rest : List UInt8) :
    readDirective ap (d.body ++ rest) =
      (⟨d.flags.foldl applyFlag .RIGHT, if .zero ∈ d.flags then zero else blank,
        d.minWidth ap, d.maxChars ap, d.size.argSize⟩,
        d.integer ap, d.conversion.char :: rest) := by
  have hsize := starts_size d.size d.conversion rest
  have hprecision := starts_precision d.precision hsize
  have hwidth := starts_width d.width hprecision
  have hbody : d.body ++ rest = d.flags.map Flag.char ++ (d.width.text ++ (d.precision.text ++
      (d.size.text ++ d.conversion.char :: rest))) := by
    simp [IntDirective.body]
  unfold readDirective
  rw [hbody, readFlags_text d.flags .RIGHT blank hwidth]
  dsimp only
  rw [readWidth_text d.width ap hprecision]
  rw [readPrecision_text d.precision _ hsize]
  rw [readSize_text]
  rfl

/-! ## The conversion -/

/-- The digits of a number as characters. -/
def digitChars (base : Nat) (x2c : List UInt8) (n : Nat) : List UInt8 :=
  (numeral base n).map (x2c.getD · 0)

@[simp]
lemma length_digitChars (base : Nat) (x2c : List UInt8) (n : Nat) :
    (digitChars base x2c n).length = (numeral base n).length := List.length_map _

@[simp]
lemma Temp.length_push (c : UInt8) (t : Temp) :
    (t.push c).chars.length = t.chars.length + 1 := rfl

section Digits

variable {base : Nat} {x2c : List UInt8} {width : Int}

/-- All digits are there where the width leaves room for them or there is one. -/
theorem putDigits_all (hbase : 1 < base) {rounds u : Nat} {t : Temp} (hrounds : u < rounds)
    (h : width = 0 ∨ (t.chars.length : Int) + (numeral base u).length ≤ width ∨
      (numeral base u).length ≤ 1) :
    (putDigits base x2c width rounds u t).chars = digitChars base x2c u ++ t.chars := by
  induction rounds generalizing u t with
  | zero => omega
  | succ rounds ih =>
    rcases Nat.lt_or_ge u base with hlt | hge
    · -- one digit
      have hmod : u % base = u := Nat.mod_eq_of_lt hlt
      have hstop : ¬0 < (if width ≠ 0 ∧ ¬((t.push (x2c.getD u 0)).chars.length : Int) < width
          then 0 else u) / base := by
        split_ifs
        all_goals simp [Nat.div_eq_of_lt hlt]
      rw [putDigits, hmod]
      rw [if_neg hstop, digitChars, Lib.numeral_of_lt hlt]
      rfl
    · have hlength := congrArg List.length (Lib.numeral_of_le hbase hge)
      rw [List.length_append, List.length_singleton] at hlength
      have hpos := Lib.numeral_length_pos base (u / base)
      have hroom : ¬(width ≠ 0 ∧
          ¬((t.push (x2c.getD (u % base) 0)).chars.length : Int) < width) := by
        rw [Temp.length_push]
        omega
      have hquotient : 0 < u / base := Nat.div_pos hge (by omega)
      have hsmaller : u / base < u := Nat.div_lt_self (by omega) hbase
      rw [putDigits, if_neg hroom, if_pos hquotient, ih (by omega)]
      · rw [digitChars, digitChars, Lib.numeral_of_le hbase hge, List.map_append,
          List.append_assoc]
        rfl
      · rw [Temp.length_push]
        omega

/-- Digits are missing where the width leaves room for some of them only. -/
theorem putDigits_cut (hbase : 1 < base) {rounds u : Nat} {t : Temp} (hrounds : u < rounds)
    (hwidth : width ≠ 0) (hlt : width < (t.chars.length : Int) + (numeral base u).length)
    (hcount : 1 < (numeral base u).length) :
    ((putDigits base x2c width rounds u t).chars.length : Int) =
      max ((t.chars.length : Int) + 1) width := by
  induction rounds generalizing u t with
  | zero => omega
  | succ rounds ih =>
    have hge : base ≤ u := by
      by_contra hlt'
      rw [Lib.numeral_of_lt (Nat.lt_of_not_le hlt')] at hcount
      exact Nat.lt_irrefl 1 hcount
    have hlength := congrArg List.length (Lib.numeral_of_le hbase hge)
    rw [List.length_append, List.length_singleton] at hlength
    have hquotient : 0 < u / base := Nat.div_pos hge (by omega)
    have hsmaller : u / base < u := Nat.div_lt_self (by omega) hbase
    rw [putDigits]
    by_cases hfull : width ≠ 0 ∧ ¬((t.push (x2c.getD (u % base) 0)).chars.length : Int) < width
    · rw [if_pos hfull, Nat.zero_div, if_neg (Nat.lt_irrefl 0)]
      rw [Temp.length_push] at hfull ⊢
      omega
    · rw [if_neg hfull, if_pos hquotient]
      rw [Temp.length_push] at hfull
      rw [ih (by omega) (by rw [Temp.length_push]; omega) (by omega), Temp.length_push]
      omega

end Digits

/-- A store went outside exactly if there are too many characters. -/
def Temp.Counts (t : Temp) : Prop := t.inside = decide (t.chars.length < TEMP_SIZE)

lemma Temp.Counts.push {t : Temp} (h : t.Counts) (c : UInt8) : (t.push c).Counts := by
  unfold Counts Temp.push at *
  rw [h]
  grind

lemma Temp.Counts.pushMany {t : Temp} (h : t.Counts) (c : UInt8) (n : Nat) :
    (t.pushMany c n).Counts := by
  induction n generalizing t with
  | zero => exact h
  | succ n ih => exact ih (h.push c)

lemma Temp.Counts.putDigits {base : Nat} {x2c : List UInt8} {width : Int} {t : Temp}
    (h : t.Counts) (rounds u : Nat) : (putDigits base x2c width rounds u t).Counts := by
  induction rounds generalizing u t with
  | zero => exact h
  | succ rounds ih =>
    rw [Libc.putDigits]
    split_ifs
    all_goals first | exact ih (h.push _) _ | exact h.push _

lemma Temp.pushMany_chars (c : UInt8) (n : Nat) (t : Temp) :
    (t.pushMany c n).chars = List.replicate n c ++ t.chars := by
  induction n generalizing t with
  | zero => rfl
  | succ n ih =>
    rw [pushMany, ih, List.replicate_succ', List.append_assoc]
    rfl

/-- How often the loop `while (len < max)` runs. -/
def Directive.fillCount (d : Directive) (len : Nat) : Nat :=
  if d.max ≠ INT_MAX then ((if d.max < d.width then d.max else d.width) - len).toNat else 0

/-- What stands before the digits of a number in a base. -/
def radixMark (base : Nat) : List UInt8 :=
  if base = 8 then [zero] else if base = 16 then [zero, 'x'.toUInt8] else []

lemma Temp.Counts.fillUp {t : Temp} (h : t.Counts) (d : Directive) : (t.fillUp d).Counts := by
  unfold Temp.fillUp
  by_cases hmax : d.max ≠ INT_MAX
  · rw [if_pos hmax]
    exact h.pushMany d.fill _
  · rw [if_neg hmax]
    exact h

lemma Temp.Counts.prepend {t : Temp} (h : t.Counts) (d : Directive) (base : Nat) :
    (t.prepend d base).Counts := by
  unfold Temp.prepend
  split_ifs
  · exact h.push zero
  · exact (h.push _).push zero
  · exact h
  · exact h

lemma Temp.fillUp_chars (d : Directive) (t : Temp) :
    (t.fillUp d).chars = List.replicate (d.fillCount t.chars.length) d.fill ++ t.chars := by
  unfold fillUp Directive.fillCount
  split_ifs
  all_goals first | exact pushMany_chars d.fill _ t | rfl

lemma Temp.prepend_chars (d : Directive) (base : Nat) (t : Temp) :
    (t.prepend d base).chars = (if d.flags.prepend then radixMark base else []) ++ t.chars := by
  unfold prepend radixMark
  split_ifs <;> rfl

lemma int2ascii_chars (d : Directive) (base : Nat) (x2c : List UInt8) (i : Int) (u : Nat) :
    (int2ascii d base x2c i u).chars =
      (if d.flags.prepend then radixMark base else []) ++
        (List.replicate
          (d.fillCount (putDigits base x2c d.width (u + 1) u ⟨[], true⟩).chars.length) d.fill ++
        (putDigits base x2c d.width (u + 1) u ⟨[], true⟩).chars) := by
  unfold int2ascii
  dsimp only
  rw [Temp.prepend_chars, Temp.fillUp_chars]

/-- A store went outside `temp` exactly if there are too many characters. -/
lemma int2ascii_inside (d : Directive) (base : Nat) (x2c : List UInt8) (i : Int) (u : Nat) :
    (int2ascii d base x2c i u).inside =
      decide ((int2ascii d base x2c i u).chars.length < TEMP_SIZE) := by
  have hempty : Temp.Counts ⟨[], true⟩ := rfl
  exact ((hempty.putDigits (u + 1) u).fillUp d).prepend d base

/-! ## What is asked for and what is printed -/

/-- The base of a conversion. -/
def Conversion.base : Conversion → Nat
  | .d | .i | .u => 10
  | .o => 8
  | .p | .X | .x => 16

/-- The characters of its digits. -/
def Conversion.table : Conversion → List UInt8
  | .p | .X => X2CTab
  | _ => x2cTab

/-- The argument is signed. -/
def Conversion.signed : Conversion → Bool
  | .d | .i => true
  | _ => false

/-- The adjustment of the precision. -/
def Conversion.clip (d : Directive) : Conversion → Directive
  | .d | .i => d.clip decimalMax
  | .o => d.clip octalMax
  | .p | .X | .x => d.clip hexMax
  | .u => d

/-- Whether a plus sign is asked for after one more flag. -/
def plusAfter (asked : Bool) : Flag → Bool
  | .plus => true
  | .blank => false
  | _ => asked

/-- A plus sign is asked for, and not called off by a blank behind it. -/
def asksPlus (flags : List Flag) : Bool := flags.foldl plusAfter false

/-- The flags behind the last minus. -/
def behindMinus : List Flag → List Flag
  | [] => []
  | f :: flags =>
    if .minus ∈ flags then behindMinus flags else if f = .minus then flags else f :: flags

lemma minus_not_mem_behindMinus (flags : List Flag) : .minus ∉ behindMinus flags := by
  induction flags with
  | nil => exact List.not_mem_nil
  | cons f flags ih =>
    rw [behindMinus]
    split_ifs with hmem hf
    · exact ih
    · exact hmem
    · simp [hmem, Ne.symm hf]

lemma behindMinus_eq {flags : List Flag} (h : .minus ∉ flags) : behindMinus flags = flags := by
  cases flags with
  | nil => rfl
  | cons f flags =>
    rw [List.mem_cons, not_or] at h
    rw [behindMinus, if_neg h.2, if_neg (Ne.symm h.1)]

lemma mem_of_mem_behindMinus {f : Flag} {flags : List Flag} (h : f ∈ behindMinus flags) :
    f ∈ flags := by
  induction flags with
  | nil => exact h
  | cons g flags ih =>
    rw [behindMinus] at h
    split_ifs at h
    · exact List.mem_cons_of_mem g (ih h)
    · exact List.mem_cons_of_mem g h
    · exact h

/-- A minus drops the flags before it. -/
lemma foldl_applyFlag (flags : List Flag) (start : FormatFlags) (h : .minus ∈ flags) :
    flags.foldl applyFlag start = (behindMinus flags).foldl applyFlag .LEFT := by
  induction flags generalizing start with
  | nil => contradiction
  | cons f flags ih =>
    rw [List.foldl_cons, behindMinus]
    by_cases hmem : .minus ∈ flags
    · rw [if_pos hmem, ih _ hmem]
    · have hf : f = .minus := by
        rcases List.mem_cons.mp h with hf | hf
        · exact hf.symm
        · contradiction
      rw [if_neg hmem, if_pos hf, hf]
      rfl

lemma foldl_applyFlag_of_not_mem (flags : List Flag) (start : FormatFlags)
    (h : .minus ∉ flags) :
    (flags.foldl applyFlag start).right = start.right ∧
      (flags.foldl applyFlag start).prepend = (start.prepend || decide (.hash ∈ flags)) ∧
      (flags.foldl applyFlag start).forceSign = flags.foldl plusAfter start.forceSign := by
  induction flags generalizing start with
  | nil => simp
  | cons f flags ih =>
    rw [List.mem_cons, not_or] at h
    rw [List.foldl_cons, List.foldl_cons]
    rcases ih (applyFlag start f) h.2 with ⟨hright, hprepend, hsign⟩
    rw [hright, hprepend, hsign]
    cases f <;> simp_all [applyFlag, plusAfter]

/-- The flags as the loop leaves them. -/
lemma foldl_applyFlag_RIGHT (flags : List Flag) :
    (flags.foldl applyFlag .RIGHT).right = decide (.minus ∉ flags) ∧
      (flags.foldl applyFlag .RIGHT).prepend = decide (.hash ∈ behindMinus flags) ∧
      (flags.foldl applyFlag .RIGHT).forceSign = asksPlus (behindMinus flags) := by
  by_cases hmem : .minus ∈ flags
  · rw [foldl_applyFlag flags .RIGHT hmem]
    rcases foldl_applyFlag_of_not_mem (behindMinus flags) .LEFT
      (minus_not_mem_behindMinus flags) with ⟨hright, hprepend, hsign⟩
    rw [hright, hprepend, hsign]
    simp [hmem, FormatFlags.LEFT, asksPlus]
  · rw [behindMinus_eq hmem]
    rcases foldl_applyFlag_of_not_mem flags .RIGHT hmem with ⟨hright, hprepend, hsign⟩
    rw [hright, hprepend, hsign]
    simp [hmem, FormatFlags.RIGHT, asksPlus]

namespace IntDirective

variable (d : IntDirective) (ap : VaList)

/-- The integer. -/
def value : Int :=
  if d.conversion.signed then (d.integer ap).signed d.size.argSize
  else (d.integer ap).unsigned d.size.argSize

/-- The sign that is asked for. -/
def sign : List UInt8 :=
  if d.value ap < 0 then [minus]
  else if d.conversion.signed && asksPlus d.flags then [plus] else []

/-- What is asked for before the digits. -/
def mark : List UInt8 :=
  if .hash ∈ d.flags ∨ d.conversion = .p then radixMark d.conversion.base else []

/-- The digits of the integer. -/
def digits : List UInt8 :=
  digitChars d.conversion.base d.conversion.table (d.value ap).natAbs

/-- The directive as it is converted. -/
def converted : Directive :=
  d.conversion.clip
    ⟨{ d.flags.foldl applyFlag .RIGHT with
        prepend := decide (d.conversion = .p) || (d.flags.foldl applyFlag .RIGHT).prepend },
      if .zero ∈ d.flags then zero else blank, d.minWidth ap, d.maxChars ap, d.size.argSize⟩

/-- The field that is printed. -/
def field : Field :=
  int2ascii (d.converted ap) d.conversion.base d.conversion.table
    (if d.conversion.signed then d.value ap else 0) (d.value ap).natAbs

end IntDirective

lemma convert_integer (string : UInt32 → List UInt8) (d : IntDirective) (ap : VaList) :
    convert string ⟨d.flags.foldl applyFlag .RIGHT, if .zero ∈ d.flags then zero else blank,
        d.minWidth ap, d.maxChars ap, d.size.argSize⟩ (d.integer ap) d.conversion.char =
      (d.field ap, (d.integer ap).skip d.size.argSize.words) := by
  unfold IntDirective.field IntDirective.converted IntDirective.value
  cases d.conversion <;> rfl

/-- A directive prints its field, wherever it stands. -/
lemma nextField_text (string : UInt32 → List UInt8) (d : IntDirective) (ap : VaList)
    (rest : List UInt8) :
    nextField string ap (d.text ++ rest) =
      some (d.field ap, (d.integer ap).skip d.size.argSize.words, rest) := by
  change nextField string ap (percent :: (d.body ++ rest)) = _
  rw [nextField, if_pos rfl, readDirective_text]
  dsimp only
  rw [convert_integer]

lemma fields_text (string : UInt32 → List UInt8) (d : IntDirective) (ap : VaList) :
    fields string d.text ap = [d.field ap] := by
  have hnext := nextField_text string d ap []
  rw [List.append_nil] at hnext
  rw [fields_of_some hnext]
  rfl

/-! ## Text and padding -/

/-- The number `digits` is printed behind its sign and its mark, with only zeros before the digits
and blanks around it all, to the width that is asked for. -/
structure Faithful (sign mark digits : List UInt8) (width : Int) (out : List UInt8) : Prop where
  layout : ∃ before behind : List UInt8, ∃ n : Nat, (∀ c ∈ before ++ behind, c = blank) ∧
    out = before ++ ((sign ++ (mark ++ (List.replicate n zero ++ digits))) ++ behind)
  width_le : width ≤ out.length

/-- A text without its blanks. -/
def ink (text : List UInt8) : List UInt8 := text.filter (· ≠ blank)

lemma ink_append (l l' : List UInt8) : ink (l ++ l') = ink l ++ ink l' := List.filter_append l l'

lemma ink_of_blank {l : List UInt8} (h : ∀ c ∈ l, c = blank) : ink l = [] := by
  rw [ink, List.filter_eq_nil_iff]
  intro c hc
  simp [h c hc]

lemma ink_of_not_mem {l : List UInt8} (h : blank ∉ l) : ink l = l := by
  rw [ink, List.filter_eq_self]
  intro c hc
  have hne : c ≠ blank := fun heq => h (heq ▸ hc)
  simp [hne]

lemma ink_replicate {fill : UInt8} (h : fill = blank ∨ fill = zero) (n : Nat) :
    ink (List.replicate n fill) = List.replicate (if fill = zero then n else 0) zero := by
  rcases h with rfl | rfl
  · rw [if_neg (by decide)]
    exact ink_of_blank fun c hc => List.eq_of_mem_replicate hc
  · rw [if_pos rfl]
    refine ink_of_not_mem fun hmem => ?_
    have heq := List.eq_of_mem_replicate hmem
    revert heq
    decide

section Layout

variable {sign mark digits out : List UInt8} {width : Int}

lemma Faithful.ink_eq (h : Faithful sign mark digits width out) (hsign : blank ∉ sign)
    (hmark : blank ∉ mark) (hdigits : blank ∉ digits) :
    ∃ n, ink out = sign ++ (mark ++ (List.replicate n zero ++ digits)) := by
  rcases h.layout with ⟨before, behind, n, hblank, rfl⟩
  have hzeros : blank ∉ List.replicate n zero := fun hmem =>
    absurd (List.eq_of_mem_replicate hmem) (by decide)
  refine ⟨n, ?_⟩
  simp only [ink_append, ink_of_not_mem hsign, ink_of_not_mem hmark, ink_of_not_mem hdigits,
    ink_of_not_mem hzeros, ink_of_blank fun c hc => hblank c (List.mem_append_left behind hc),
    ink_of_blank fun c hc => hblank c (List.mem_append_right before hc), List.nil_append,
    List.append_nil]

/-- Blanks stand around the number only. -/
lemma Faithful.apart {a b : List UInt8} (h : Faithful sign mark digits width out)
    (hsign : blank ∉ sign) (hmark : blank ∉ mark) (hdigits : blank ∉ digits)
    (hout : out = a ++ blank :: b) : ink a = [] ∨ ink b = [] := by
  rcases h.layout with ⟨before, behind, n, hblank, rfl⟩
  have hbehind : ∀ l, blank :: b = l ++ behind ∨ behind = l ++ blank :: b → l = [] ∨
      behind = l ++ blank :: b → ink b = [] := by
    intro l hl hcase
    apply ink_of_blank
    intro c hc
    apply hblank c
    rcases hcase with rfl | heq
    · have heq : behind = blank :: b := hl.elim Eq.symm id
      simp [heq, hc]
    · simp [heq, hc]
  rcases List.append_eq_append_iff.mp hout with ⟨l, -, hrest⟩ | ⟨l, hbefore, -⟩
  · right
    rcases List.append_eq_append_iff.mp hrest with ⟨l', -, hl⟩ | ⟨l', hnumber, hl⟩
    · exact hbehind l' (.inr hl) (.inr hl)
    · refine hbehind l' (.inl hl) (.inl ?_)
      by_contra hne
      rcases List.exists_cons_of_ne_nil hne with ⟨c, l'', rfl⟩
      have hc : blank = c := (List.cons.inj hl).1
      have hmem : blank ∈ sign ++ (mark ++ (List.replicate n zero ++ digits)) := by
        rw [hnumber, hc]
        simp
      have hzero : blank ≠ zero := by decide
      simp [hsign, hmark, hdigits, hzero] at hmem
  · left
    apply ink_of_blank
    intro c hc
    apply hblank c
    simp [hbefore, hc]

end Layout

/-! ### The characters of a number -/

lemma table_apart (c : Conversion) : ∀ i < 16,
    c.table.getD i 0 ∉ [blank, plus, minus, 'x'.toUInt8] ∧
      (c.table.getD i 0 = zero → i = 0) := by
  cases c <;> decide

lemma Conversion.table_cases (c : Conversion) : c.table = x2cTab ∨ c.table = X2CTab := by
  cases c <;> simp [table]

lemma Conversion.base_bounds (c : Conversion) : 1 < c.base ∧ c.base ≤ 16 := by
  cases c <;> decide

namespace IntDirective

variable (d : IntDirective) (ap : VaList)

/-- The number of digits. -/
def count : Nat := (numeral d.conversion.base (d.value ap).natAbs).length

lemma count_pos : 0 < d.count ap := Lib.numeral_length_pos _ _

lemma length_digits : (d.digits ap).length = d.count ap := length_digitChars _ _ _

lemma digits_apart {c : UInt8} (h : c ∈ d.digits ap) :
    c ∉ [blank, plus, minus, 'x'.toUInt8] := by
  rcases List.mem_map.mp h with ⟨i, hi, rfl⟩
  have hbase := d.conversion.base_bounds
  exact (table_apart d.conversion i
    (Nat.lt_of_lt_of_le (Lib.numeral_lt hbase.1 hi) hbase.2)).1

/-- A number that starts with a zero is zero. -/
lemma value_of_head (h : (d.digits ap).head? = some zero) : d.value ap = 0 := by
  rw [digits, digitChars, List.head?_map] at h
  rcases Option.map_eq_some_iff.mp h with ⟨i, hi, hzero⟩
  have hbase := d.conversion.base_bounds
  have hlt := Lib.numeral_lt hbase.1 (List.mem_of_head? hi)
  rw [(table_apart d.conversion i (Nat.lt_of_lt_of_le hlt hbase.2)).2 hzero] at hi
  exact Int.natAbs_eq_zero.mp (Lib.numeral_head hi)

lemma digits_of_zero (h : d.value ap = 0) : d.digits ap = [zero] := by
  rw [digits, h]
  cases d.conversion <;> decide

/-! ### What is printed -/

/-- The flags that count. -/
def kept : List Flag := behindMinus d.flags

/-- The sign that is put. -/
def keptSign : List UInt8 :=
  if d.value ap < 0 then [minus] else if asksPlus d.kept then [plus] else []

/-- What is put before the digits. -/
def keptMark : List UInt8 :=
  if .hash ∈ d.kept ∨ d.conversion = .p then radixMark d.conversion.base else []

/-- The padding between the mark and the digits. -/
def precisionFill : Nat := (d.converted ap).fillCount (d.count ap)

/-- The padding in front of the mark or behind the digits. -/
def padding : Nat :=
  (d.minWidth ap - ((d.keptMark.length + d.precisionFill ap + d.count ap : Nat) : Int) -
    (d.keptSign ap).length).toNat

/-- The character for padding. -/
def fill : UInt8 := if .zero ∈ d.flags then zero else blank

lemma fill_eq : d.fill = blank ∨ d.fill = zero := by
  unfold fill
  split_ifs
  · exact .inr rfl
  · exact .inl rfl

end IntDirective

@[simp]
lemma clip_width (d : Directive) (bound : ArgSize → Int) : (d.clip bound).width = d.width := by
  unfold Directive.clip
  split_ifs <;> rfl

@[simp]
lemma clip_flags (d : Directive) (bound : ArgSize → Int) : (d.clip bound).flags = d.flags := by
  unfold Directive.clip
  split_ifs <;> rfl

lemma Conversion.clip_same (d : Directive) (c : Conversion) :
    (c.clip d).width = d.width ∧ (c.clip d).flags = d.flags ∧ (c.clip d).fill = d.fill := by
  cases c <;> simp [clip]

namespace IntDirective

variable (d : IntDirective) (ap : VaList)

lemma converted_width : (d.converted ap).width = d.minWidth ap := (Conversion.clip_same _ _).1

lemma converted_fill : (d.converted ap).fill = d.fill := (Conversion.clip_same _ _).2.2

lemma converted_right : (d.converted ap).flags.right = decide (.minus ∉ d.flags) := by
  rw [converted, (Conversion.clip_same _ _).2.1]
  exact (foldl_applyFlag_RIGHT d.flags).1

lemma converted_forceSign : (d.converted ap).flags.forceSign = asksPlus d.kept := by
  rw [converted, (Conversion.clip_same _ _).2.1]
  exact (foldl_applyFlag_RIGHT d.flags).2.2

lemma converted_mark :
    (if (d.converted ap).flags.prepend then radixMark d.conversion.base else []) =
      d.keptMark := by
  rw [converted, (Conversion.clip_same _ _).2.1]
  rw [(foldl_applyFlag_RIGHT d.flags).2.1, keptMark, kept]
  simp [or_comm]

lemma value_nonneg (h : d.conversion.signed = false) : 0 ≤ d.value ap := by
  rw [value, h]
  exact Int.natCast_nonneg _

lemma field_sign : (d.field ap).sign = d.keptSign ap := by
  have hi : (d.field ap).i = if d.conversion.signed then d.value ap else 0 := rfl
  have hneg : (d.field ap).i < 0 ↔ d.value ap < 0 := by
    rw [hi]
    cases hsigned : d.conversion.signed with
    | true => exact Iff.rfl
    | false =>
      have hnonneg := d.value_nonneg ap hsigned
      exact iff_of_false (Int.lt_irrefl 0) (Int.not_lt.mpr hnonneg)
  have hforce : (d.field ap).directive.flags.forceSign = asksPlus d.kept :=
    d.converted_forceSign ap
  unfold Field.sign Field.signed keptSign
  rw [hforce]
  by_cases hlt : d.value ap < 0
  · simp [hneg.mpr hlt, hlt]
  · have hi' : ¬(d.field ap).i < 0 := fun h => hlt (hneg.mp h)
    simp [hi', hlt]

/-- The characters of the digits, all or not. -/
def digitsPut : List UInt8 :=
  (putDigits d.conversion.base d.conversion.table (d.minWidth ap) ((d.value ap).natAbs + 1)
    (d.value ap).natAbs ⟨[], true⟩).chars

lemma field_chars : (d.field ap).chars = d.keptMark ++
    (List.replicate ((d.converted ap).fillCount (d.digitsPut ap).length) d.fill ++
      d.digitsPut ap) := by
  rw [field, int2ascii_chars, converted_mark, converted_width, converted_fill]
  rfl

/-- The width leaves room for all digits. -/
def Roomy : Prop := d.minWidth ap = 0 ∨ (d.count ap : Int) ≤ d.minWidth ap ∨ d.count ap ≤ 1

lemma digitsPut_of_roomy (h : d.Roomy ap) : d.digitsPut ap = d.digits ap := by
  have hall := @putDigits_all _ d.conversion.table (d.minWidth ap) d.conversion.base_bounds.1
    _ _ ⟨[], true⟩ (Nat.lt_succ_self (d.value ap).natAbs) (by simpa [Roomy, count] using h)
  rw [List.append_nil] at hall
  exact hall

lemma length_digitsPut (h : ¬d.Roomy ap) :
    ((d.digitsPut ap).length : Int) = max 1 (d.minWidth ap) := by
  have hpos := d.count_pos ap
  unfold Roomy at h
  rw [not_or, not_or] at h
  have hcut := @putDigits_cut _ d.conversion.table (d.minWidth ap) d.conversion.base_bounds.1
    _ _ ⟨[], true⟩ (Nat.lt_succ_self (d.value ap).natAbs) h.1
    (by
      change _ < ((0 : Nat) : Int) + (d.count ap : Int)
      omega)
    (by
      change 1 < d.count ap
      omega)
  rw [digitsPut, hcut]
  rfl

lemma text_of_roomy (h : d.Roomy ap) : (d.field ap).text = d.keptSign ap ++
    ((if .minus ∈ d.flags then [] else List.replicate (d.padding ap) d.fill) ++
      (d.keptMark ++ (List.replicate (d.precisionFill ap) d.fill ++ (d.digits ap ++
        if .minus ∈ d.flags then List.replicate (d.padding ap) d.fill else [])))) := by
  have hchars := d.field_chars ap
  rw [d.digitsPut_of_roomy ap h, length_digits] at hchars
  have hroom : (d.field ap).room = d.padding ap := by
    have hwidth : (d.field ap).directive.width = d.minWidth ap := d.converted_width ap
    unfold Field.room padding
    rw [hwidth, field_sign, hchars]
    simp [length_digits, precisionFill, Nat.add_assoc]
  have hfill : (d.field ap).directive.fill = d.fill := d.converted_fill ap
  have hright : (d.field ap).directive.flags.right = decide (.minus ∉ d.flags) :=
    d.converted_right ap
  unfold Field.text
  rw [field_sign, hroom, hfill, hright, hchars]
  by_cases hminus : Flag.minus ∈ d.flags
  · simp [hminus, precisionFill]
  · simp [hminus, precisionFill]

/-- Where digits are missing there is no padding. -/
lemma text_of_not_roomy (h : ¬d.Roomy ap) :
    (d.field ap).text = d.keptSign ap ++ (d.keptMark ++ d.digitsPut ap) ∧
      (d.digitsPut ap).length < d.count ap := by
  have hlength := d.length_digitsPut ap h
  have hchars := d.field_chars ap
  unfold Roomy at h
  rw [not_or, not_or] at h
  have hnone : (d.converted ap).fillCount (d.digitsPut ap).length = 0 := by
    unfold Directive.fillCount
    rw [converted_width]
    split_ifs <;> omega
  rw [hnone, List.replicate_zero, List.nil_append] at hchars
  have hroom : (d.field ap).room = 0 := by
    have hwidth : (d.field ap).directive.width = d.minWidth ap := d.converted_width ap
    unfold Field.room
    rw [hwidth, hchars, List.length_append]
    omega
  unfold Field.text
  rw [field_sign, hroom, hchars]
  constructor
  · split_ifs <;> simp
  · omega

/-! ### The condition -/

/-- The directive prints the integer as it asks. -/
structure Printable : Prop where
  roomy : d.Roomy ap
  /-- no minus drops the plus that is asked for, and only a signed conversion asks for one -/
  sign : d.value ap < 0 ∨ asksPlus d.kept = (d.conversion.signed && asksPlus d.flags)
  /-- no minus drops the mark, unless a zero of the padding stands for that of an octal number -/
  mark : d.keptMark = d.mark ∨
    (d.conversion = .o ∧ .zero ∈ d.flags ∧ 0 < d.padding ap + d.precisionFill ap)
  /-- no zeros are put behind the digits, unless they are those of zero -/
  behind : .minus ∈ d.flags → .zero ∈ d.flags → 0 < d.padding ap → d.value ap = 0
  /-- no blanks stand between sign or mark and the digits -/
  apart : .zero ∉ d.flags → (0 < d.precisionFill ap → d.sign ap = [] ∧ d.mark = []) ∧
    (.minus ∉ d.flags → 0 < d.padding ap → d.sign ap = [])
  /-- no zeros stand before a hexadecimal mark -/
  front : .zero ∈ d.flags → .minus ∉ d.flags → 0 < d.padding ap → 'x'.toUInt8 ∉ d.mark
  fits : d.keptMark.length + d.precisionFill ap + d.count ap < TEMP_SIZE

lemma keptSign_eq (h : d.value ap < 0 ∨
    asksPlus d.kept = (d.conversion.signed && asksPlus d.flags)) :
    d.keptSign ap = d.sign ap := by
  unfold keptSign sign
  split_ifs <;> simp_all

lemma keptMark_cases : d.keptMark = d.mark ∨ d.keptMark = [] := by
  unfold keptMark mark
  by_cases hkept : Flag.hash ∈ d.kept ∨ d.conversion = .p
  · left
    rw [if_pos hkept, if_pos (hkept.imp_left mem_of_mem_behindMinus)]
  · right
    rw [if_neg hkept]

lemma keptMark_of_not_mem (h : Flag.minus ∉ d.flags) : d.keptMark = d.mark := by
  rw [keptMark, kept, behindMinus_eq h, mark]

lemma mark_cases : d.mark = [] ∨ (d.conversion = .o ∧ d.mark = [zero]) ∨
    'x'.toUInt8 ∈ d.mark := by
  unfold mark
  split_ifs
  · cases d.conversion <;> decide
  · exact .inl rfl

/-- The characters of a mark are none of a sign and no blanks. -/
lemma mark_apart : blank ∉ d.mark ∧ plus ∉ d.mark := by
  unfold mark
  split_ifs
  · cases d.conversion <;> decide
  · exact ⟨List.not_mem_nil, List.not_mem_nil⟩

lemma keptMark_apart : blank ∉ d.keptMark ∧ plus ∉ d.keptMark := by
  rcases d.keptMark_cases with h | h
  · rw [h]
    exact d.mark_apart
  · rw [h]
    exact ⟨List.not_mem_nil, List.not_mem_nil⟩

lemma blank_not_mem_sign : blank ∉ d.sign ap := by
  unfold sign
  split_ifs <;> decide

lemma blank_not_mem_keptSign : blank ∉ d.keptSign ap := by
  unfold keptSign
  split_ifs <;> decide

lemma not_mem_digits {c : UInt8} (h : c ∈ [blank, plus, minus, 'x'.toUInt8]) :
    c ∉ d.digits ap := fun hmem => d.digits_apart ap hmem h

/-! ### What a faithful text shows -/

section Shown

variable {d : IntDirective} {ap : VaList} {j : Nat} {l : List UInt8}

lemma not_mem_zeros {c : UInt8} (h : c ≠ zero) (n : Nat) : c ∉ List.replicate n zero :=
  fun hmem => h (List.eq_of_mem_replicate hmem)

/-- A plus that is put has been asked for. -/
lemma plus_mem_sign (hink : d.keptSign ap ++ l = d.sign ap ++
    (d.mark ++ (List.replicate j zero ++ d.digits ap))) (h : plus ∈ d.keptSign ap) :
    plus ∈ d.sign ap := by
  have hmem : plus ∈ d.keptSign ap ++ l := List.mem_append_left l h
  rw [hink] at hmem
  have hzeros := not_mem_zeros (show plus ≠ zero by decide)
  have hdigits := d.not_mem_digits ap (show plus ∈ _ by decide)
  simpa [hzeros, d.mark_apart.2, hdigits] using hmem

lemma keptSign_length_le (h : plus ∈ d.keptSign ap → plus ∈ d.sign ap) :
    (d.keptSign ap).length ≤ (d.sign ap).length := by
  unfold keptSign sign at *
  split_ifs at * <;> simp_all

/-- A text in which digits are missing is not faithful. -/
lemma roomy_of_ink (hink : ink (d.field ap).text = d.sign ap ++
    (d.mark ++ (List.replicate j zero ++ d.digits ap))) : d.Roomy ap := by
  by_contra hnot
  rcases d.text_of_not_roomy ap hnot with ⟨htext, hlt⟩
  rw [htext, ink_append, ink_of_not_mem (d.blank_not_mem_keptSign ap)] at hink
  have hsign := keptSign_length_le (plus_mem_sign hink)
  have hlength := congrArg List.length hink
  rw [ink_append, ink_of_not_mem d.keptMark_apart.1] at hlength
  have hput : (ink (d.digitsPut ap)).length ≤ (d.digitsPut ap).length :=
    List.length_filter_le _ _
  have hmark : d.keptMark.length ≤ d.mark.length := by
    rcases d.keptMark_cases with h | h <;> simp [h]
  simp only [List.length_append, List.length_replicate, length_digits] at hlength
  omega

/-- The characters of a text with all digits, without blanks. -/
lemma ink_text (h : d.Roomy ap) : ∃ r m n, ink (d.field ap).text = d.keptSign ap ++
      (List.replicate r zero ++ (d.keptMark ++ (List.replicate m zero ++ (d.digits ap ++
        List.replicate n zero)))) ∧
    (0 < r + m + n → .zero ∈ d.flags ∧ 0 < d.padding ap + d.precisionFill ap) ∧
    (0 < n ↔ .minus ∈ d.flags ∧ .zero ∈ d.flags ∧ 0 < d.padding ap) ∧
    (.zero ∈ d.flags → .minus ∉ d.flags → r = d.padding ap) := by
  have hfill : d.fill = zero ↔ .zero ∈ d.flags := by
    unfold fill
    split_ifs with hmem
    · exact iff_of_true rfl hmem
    · exact iff_of_false (by decide) hmem
  have hdigits := d.not_mem_digits ap (show blank ∈ _ by decide)
  refine ⟨if .minus ∈ d.flags then 0 else if d.fill = zero then d.padding ap else 0,
    if d.fill = zero then d.precisionFill ap else 0,
    if .minus ∈ d.flags then if d.fill = zero then d.padding ap else 0 else 0, ?_, ?_, ?_, ?_⟩
  · rw [d.text_of_roomy ap h]
    by_cases hminus : Flag.minus ∈ d.flags
    · simp only [if_pos hminus, ink_append, ink_of_not_mem (d.blank_not_mem_keptSign ap),
        ink_of_not_mem d.keptMark_apart.1, ink_of_not_mem hdigits, ink_replicate d.fill_eq]
      rfl
    · simp only [if_neg hminus, ink_append, ink_of_not_mem (d.blank_not_mem_keptSign ap),
        ink_of_not_mem d.keptMark_apart.1, ink_of_not_mem hdigits, ink_replicate d.fill_eq]
      rfl
  · rw [← hfill]
    split_ifs with hminus heq heq
    all_goals intro hpos
    all_goals first | exact ⟨heq, by omega⟩ | omega
  · rw [← hfill]
    split_ifs with hminus heq
    · simp [hminus, heq]
    · simp [heq]
    · simp [hminus]
  · intro hzero hminus
    rw [if_neg hminus, if_pos (hfill.mpr hzero)]

/-- The sign that is put is the one that is asked for. -/
lemma sign_of_ink (hink : d.keptSign ap ++ l = d.sign ap ++
      (d.mark ++ (List.replicate j zero ++ d.digits ap))) (hl : plus ∉ l) :
    d.value ap < 0 ∨ asksPlus d.kept = (d.conversion.signed && asksPlus d.flags) := by
  by_contra hnot
  rw [not_or] at hnot
  rcases hnot with ⟨hvalue, hplus⟩
  have hmem := plus_mem_sign hink
  have hback : plus ∈ d.sign ap → plus ∈ d.keptSign ap := by
    intro hsign
    have hall : plus ∈ d.keptSign ap ++ l := by
      rw [hink]
      exact List.mem_append_left _ hsign
    exact (List.mem_append.mp hall).resolve_right hl
  unfold keptSign sign at hmem hback
  rw [if_neg hvalue, if_neg hvalue] at hmem hback
  cases hkept : asksPlus d.kept <;>
    cases hasked : d.conversion.signed && asksPlus d.flags <;> simp_all

/-- The mark that is put is the one that is asked for, or a zero stands for it. -/
lemma mark_of_ink {r m n : Nat} (hink : List.replicate r zero ++ (d.keptMark ++
      (List.replicate m zero ++ (d.digits ap ++ List.replicate n zero))) =
    d.mark ++ (List.replicate j zero ++ d.digits ap)) :
    d.keptMark = d.mark ∨ (d.conversion = .o ∧ 0 < r + m + n) := by
  rcases d.keptMark_cases with h | h
  · exact .inl h
  rcases d.mark_cases with hmark | ⟨hoctal, hmark⟩ | hx
  · exact .inl (h.trans hmark.symm)
  · right
    rw [h, hmark] at hink
    have hlength := congrArg List.length hink
    simp only [List.length_append, List.length_replicate, List.length_nil,
      List.length_singleton] at hlength
    exact ⟨hoctal, by omega⟩
  · have hmem : 'x'.toUInt8 ∈ List.replicate r zero ++ (d.keptMark ++
        (List.replicate m zero ++ (d.digits ap ++ List.replicate n zero))) := by
      rw [hink]
      simp [hx]
    have hzeros := not_mem_zeros (show 'x'.toUInt8 ≠ zero by decide)
    have hdigits := d.not_mem_digits ap (show 'x'.toUInt8 ∈ _ by decide)
    rw [h] at hmem
    simp only [List.mem_append, hzeros, hdigits, List.not_mem_nil, or_false] at hmem

/-- Zeros stand behind the digits only where the integer is zero. -/
lemma value_of_ink {n : Nat} {l l' : List UInt8}
    (hink : l ++ (d.digits ap ++ List.replicate (n + 1) zero) = l' ++ d.digits ap) :
    d.value ap = 0 := by
  have hreverse := congrArg List.reverse hink
  simp only [List.reverse_append, List.reverse_replicate] at hreverse
  have hall := Lib.eq_of_shift n hreverse
  apply d.value_of_head ap
  have hpos := d.count_pos ap
  rw [← length_digits] at hpos
  rw [List.head?_eq_some_head (List.length_pos_iff.mp hpos)]
  exact congrArg some (hall _ (List.mem_reverse.mpr (List.head_mem _)))

/-- The hexadecimal mark starts with a zero, and only one. -/
lemma front_of_ink {r : Nat} {l' : List UInt8} (hkept : d.keptMark = d.mark)
    (hink : List.replicate (r + 1) zero ++ (d.keptMark ++ l) = d.mark ++ l') :
    'x'.toUInt8 ∉ d.mark := by
  intro hx
  have hmark : d.mark = [zero, 'x'.toUInt8] := by
    unfold mark at hx ⊢
    split_ifs at hx ⊢
    · revert hx
      cases d.conversion <;> decide
    · cases hx
  rw [hkept, hmark] at hink
  cases r with
  | zero => exact absurd (List.cons.inj (List.cons.inj hink).2).1 (by decide)
  | succ r => exact absurd (List.cons.inj (List.cons.inj hink).2).1 (by decide)

section Blanks

variable (h : Faithful (d.sign ap) d.mark (d.digits ap) (d.minWidth ap) (d.field ap).text)
include h

/-- Before a blank in front of the digits there is nothing but blanks. -/
lemma ink_before {a b l' : List UInt8}
    (htext : (d.field ap).text = a ++ blank :: (b ++ (d.digits ap ++ l'))) : ink a = [] := by
  have hdigits := d.not_mem_digits ap (show blank ∈ _ by decide)
  have hpos := d.count_pos ap
  refine (h.apart (d.blank_not_mem_sign ap) d.mark_apart.1 hdigits htext).resolve_right ?_
  intro hnone
  have hlength := congrArg List.length hnone
  rw [ink_append, ink_append, ink_of_not_mem hdigits] at hlength
  simp only [List.length_append, length_digits, List.length_nil] at hlength
  omega

/-- Blanks are put between neither sign nor mark and the digits. -/
lemma blanks_apart (hroomy : d.Roomy ap) (hsign : d.keptSign ap = d.sign ap)
    (hmark : d.keptMark = d.mark) (hzero : .zero ∉ d.flags) :
    (0 < d.precisionFill ap → d.sign ap = [] ∧ d.mark = []) ∧
      (.minus ∉ d.flags → 0 < d.padding ap → d.sign ap = []) := by
  have htext := d.text_of_roomy ap hroomy
  have hfill : d.fill = blank := if_neg hzero
  rw [hfill, hsign, hmark] at htext
  have hink := ink_of_not_mem (d.blank_not_mem_sign ap)
  constructor
  · intro hpos
    rcases Nat.exists_eq_add_of_lt hpos with ⟨k, hk⟩
    rw [hk, List.replicate_succ, List.cons_append, ← List.append_assoc _ d.mark,
      ← List.append_assoc (d.sign ap)] at htext
    have hnone := ink_before h htext
    rw [ink_append, ink_append, List.append_eq_nil_iff, List.append_eq_nil_iff, hink,
      ink_of_not_mem d.mark_apart.1] at hnone
    exact ⟨hnone.1, hnone.2.2⟩
  · intro hminus hpos
    rcases Nat.exists_eq_add_of_lt hpos with ⟨k, hk⟩
    rw [if_neg hminus, if_neg hminus, hk, List.replicate_succ, List.cons_append,
      ← List.append_assoc d.mark, ← List.append_assoc (List.replicate _ _)] at htext
    exact hink.symm.trans (ink_before h htext)

end Blanks

lemma printable_of_faithful
    (h : Faithful (d.sign ap) d.mark (d.digits ap) (d.minWidth ap) (d.field ap).text)
    (hinside : (d.field ap).inside = true) : d.Printable ap := by
  have hdigits := d.not_mem_digits ap (show blank ∈ _ by decide)
  rcases h.ink_eq (d.blank_not_mem_sign ap) d.mark_apart.1 hdigits with ⟨j, hink⟩
  have hroomy := roomy_of_ink hink
  rcases ink_text hroomy with ⟨r, m, n, hink', hzeros, hbehind, hfront⟩
  rw [hink'] at hink
  have hsign := sign_of_ink hink (by
    have hplus := d.not_mem_digits ap (show plus ∈ _ by decide)
    have hzero := not_mem_zeros (show plus ≠ zero by decide)
    simp [hzero, hplus, d.keptMark_apart.2])
  rw [d.keptSign_eq ap hsign] at hink
  have hrest := List.append_cancel_left hink
  have hmark : d.keptMark = d.mark ∨
      (d.conversion = .o ∧ .zero ∈ d.flags ∧ 0 < d.padding ap + d.precisionFill ap) :=
    (mark_of_ink hrest).imp_right fun hoctal => ⟨hoctal.1, hzeros hoctal.2⟩
  constructor
  · exact hroomy
  · exact hsign
  · exact hmark
  · intro hminus hzero hpad
    rcases Nat.exists_eq_add_of_lt (hbehind.mpr ⟨hminus, hzero, hpad⟩) with ⟨k, hk⟩
    rw [hk, Nat.zero_add] at hrest
    have hshift : (List.replicate r zero ++ (d.keptMark ++ List.replicate m zero)) ++
        (d.digits ap ++ List.replicate (k + 1) zero) =
          (d.mark ++ List.replicate j zero) ++ d.digits ap := by
      simpa using hrest
    exact value_of_ink hshift
  · intro hzero
    exact blanks_apart h hroomy (d.keptSign_eq ap hsign)
      (hmark.resolve_right fun hoctal => hzero hoctal.2.1) hzero
  · intro hzero hminus hpos
    rw [hfront hzero hminus] at hrest
    rcases Nat.exists_eq_add_of_lt hpos with ⟨k, hk⟩
    rw [hk, Nat.zero_add] at hrest
    exact front_of_ink (d.keptMark_of_not_mem hminus) hrest
  · have hlength := congrArg List.length (d.field_chars ap)
    rw [d.digitsPut_of_roomy ap hroomy] at hlength
    simp only [List.length_append, List.length_replicate, length_digits] at hlength
    rw [field, int2ascii_inside, decide_eq_true_eq] at hinside
    change (d.field ap).chars.length < TEMP_SIZE at hinside
    unfold precisionFill
    omega

end Shown

/-! ### A text that is faithful -/

/-- Zeros behind the digits of zero may as well stand before them. -/
lemma digits_append_zeros (h : 0 < d.padding ap → d.value ap = 0) (m : Nat) :
    List.replicate m zero ++ (d.digits ap ++ List.replicate (d.padding ap) zero) =
      List.replicate (m + d.padding ap) zero ++ d.digits ap := by
  rcases Nat.eq_zero_or_pos (d.padding ap) with hnone | hpos
  · rw [hnone, List.replicate_zero, List.append_nil, Nat.add_zero]
  · rw [d.digits_of_zero ap (h hpos), ← List.replicate_succ', ← List.replicate_one,
      List.replicate_append_replicate, List.replicate_append_replicate, ← Nat.add_assoc,
      Nat.add_right_comm]

/-- A zero of the padding may stand for the mark of an octal number. -/
lemma keptMark_append_zeros {m : Nat}
    (h : d.keptMark = d.mark ∨ (d.conversion = .o ∧ 0 < m)) :
    ∃ k, d.keptMark ++ (List.replicate m zero ++ d.digits ap) =
      d.mark ++ (List.replicate k zero ++ d.digits ap) := by
  by_cases hsame : d.keptMark = d.mark
  · exact ⟨m, by rw [hsame]⟩
  · rcases h.resolve_left hsame with ⟨hoctal, hpos⟩
    have hnone : d.keptMark = [] := d.keptMark_cases.resolve_left hsame
    have hmark : d.mark = [zero] := by
      unfold mark at hsame ⊢
      split_ifs at hsame ⊢
      · rw [hoctal]
        rfl
      · exact absurd hnone hsame
    rcases Nat.exists_eq_add_of_lt hpos with ⟨k, hk⟩
    refine ⟨k, ?_⟩
    rw [hnone, hmark, hk, Nat.zero_add, List.replicate_succ]
    rfl

/-- Zeros before the mark of an octal number may as well stand behind it. -/
lemma zeros_append_mark (hx : 'x'.toUInt8 ∉ d.mark) (m : Nat) (l : List UInt8) :
    List.replicate m zero ++ (d.mark ++ l) = d.mark ++ (List.replicate m zero ++ l) := by
  rcases d.mark_cases with hnone | ⟨-, hone⟩ | hmem
  · rw [hnone, List.nil_append, List.nil_append]
  · rw [hone, ← List.append_assoc, ← List.append_assoc, ← List.replicate_succ',
      List.replicate_succ]
    rfl
  · exact absurd hmem hx

lemma faithful_of_printable (h : d.Printable ap) :
    Faithful (d.sign ap) d.mark (d.digits ap) (d.minWidth ap) (d.field ap).text := by
  constructor
  · rw [d.text_of_roomy ap h.roomy, d.keptSign_eq ap h.sign]
    by_cases hminus : Flag.minus ∈ d.flags
    · rw [if_pos hminus, if_pos hminus, List.nil_append]
      by_cases hzero : Flag.zero ∈ d.flags
      · -- all padding is zeros
        have hfill : d.fill = zero := if_pos hzero
        have hmark : d.keptMark = d.mark ∨
            (d.conversion = .o ∧ 0 < d.precisionFill ap + d.padding ap) :=
          h.mark.imp_right fun hoctal => ⟨hoctal.1, by omega⟩
        rcases d.keptMark_append_zeros ap hmark with ⟨k, hk⟩
        rw [hfill, d.digits_append_zeros ap (h.behind hminus hzero), hk]
        exact ⟨[], [], k, by simp, by simp⟩
      · -- blanks stand behind the digits
        have hfill : d.fill = blank := if_neg hzero
        have hmark : d.keptMark = d.mark := h.mark.resolve_right fun hoctal => hzero hoctal.2.1
        rw [hmark, hfill]
        rcases Nat.eq_zero_or_pos (d.precisionFill ap) with hnone | hpos
        · exact ⟨[], List.replicate (d.padding ap) blank, 0, by simp, by simp [hnone]⟩
        · have hapart := (h.apart hzero).1 hpos
          exact ⟨List.replicate (d.precisionFill ap) blank, List.replicate (d.padding ap) blank, 0,
            by simp, by simp [hapart]⟩
    · rw [if_neg hminus, if_neg hminus, d.keptMark_of_not_mem hminus]
      by_cases hzero : Flag.zero ∈ d.flags
      · -- zeros go behind the mark
        have hfill : d.fill = zero := if_pos hzero
        rw [hfill]
        rcases Nat.eq_zero_or_pos (d.padding ap) with hnone | hpos
        · exact ⟨[], [], d.precisionFill ap, by simp, by simp [hnone]⟩
        · rw [d.zeros_append_mark (h.front hzero hminus hpos)]
          refine ⟨[], [], d.padding ap + d.precisionFill ap, by simp, ?_⟩
          simp only [List.replicate_add, List.nil_append, List.append_nil, List.append_assoc]
      · -- blanks go before a number without a sign
        have hfill : d.fill = blank := if_neg hzero
        have hapart := h.apart hzero
        rw [hfill]
        rcases Nat.eq_zero_or_pos (d.precisionFill ap) with hnone | hpos
        · rcases Nat.eq_zero_or_pos (d.padding ap) with hflush | hpad
          · exact ⟨[], [], 0, by simp, by simp [hnone, hflush]⟩
          · exact ⟨List.replicate (d.padding ap) blank, [], 0, by simp,
              by simp [hnone, hapart.2 hminus hpad]⟩
        · have hbare := hapart.1 hpos
          refine ⟨List.replicate (d.padding ap + d.precisionFill ap) blank, [], 0, by simp, ?_⟩
          simp only [hbare, List.replicate_add, List.replicate_zero, List.nil_append,
            List.append_nil, List.append_assoc]
  · have hwidth : (d.field ap).directive.width = d.minWidth ap := d.converted_width ap
    rw [Field.text_size, Field.size, hwidth]
    omega

lemma inside_of_printable (h : d.Printable ap) : (d.field ap).inside = true := by
  have hlength := congrArg List.length (d.field_chars ap)
  rw [d.digitsPut_of_roomy ap h.roomy] at hlength
  simp only [List.length_append, List.length_replicate, length_digits] at hlength
  have hfits := h.fits
  unfold precisionFill at hfits
  rw [field, int2ascii_inside, decide_eq_true_eq]
  change (d.field ap).chars.length < TEMP_SIZE
  omega

end IntDirective

/-! ## Both engines -/

/-- Both engines print the integer as the directive asks, and no write falls outside
`temp`. -/
structure BothFaithful (string : UInt32 → List UInt8) (malloc : Memory) (stream : Stream)
    (d : IntDirective) (skipeof : Bool) (ap : VaList) : Prop where
  formattedPrintf : Faithful (d.sign ap) d.mark (d.digits ap) (d.minWidth ap)
    (Libc.formattedPrintf string malloc stream d.text skipeof ap).1.emitted
  kvprintf : Faithful (d.sign ap) d.mark (d.digits ap) (d.minWidth ap)
    (Libc.kvprintf string d.text ap).1.passed
  inside : ∀ f ∈ fields string d.text ap, f.inside = true

lemma printed_text (string : UInt32 → List UInt8) (d : IntDirective) (ap : VaList) :
    printed string d.text ap = (d.field ap).text := by
  rw [printed, fields_text]
  exact List.append_nil _

lemma eofChar_not_mem_copied (string : UInt32 → List UInt8) (d : IntDirective) (ap : VaList) :
    eofChar ∉ copied string d.text ap := by
  have hmem : eofChar ∈ printed string d.text ap ↔ eofChar ∈ copied string d.text ap :=
    copiedIn_mem string d.text.length ap d.text
  have hfilled : (d.converted ap).Filled := by
    rw [Directive.Filled, d.converted_fill ap]
    exact d.fill_eq
  have htable : ∀ i, eofChar ≠ d.conversion.table.getD i 0 := by
    rcases d.conversion.table_cases with h | h
    · rw [h]
      exact eofChar_ne_x2cTab
    · rw [h]
      exact eofChar_ne_X2CTab
  have hfield : (d.field ap).directive.Filled := hfilled
  rw [← hmem, printed_text, Field.text_mem hfield]
  exact int2ascii_mem hfilled htable

/-- An integer is printed as its directive asks exactly under the condition. -/
theorem integers_faithful_iff (string : UInt32 → List UInt8) (malloc : Memory) (stream : Stream)
    (h : stream.Takes) (d : IntDirective) (skipeof : Bool) (ap : VaList) :
    BothFaithful string malloc stream d skipeof ap ↔ d.Printable ap := by
  have hemitted := ((formattedPrintf_emitted string malloc h d.text skipeof ap).1
    (.inr (eofChar_not_mem_copied string d ap))).1
  have hpassed := (kvprintf_passed string d.text ap).1
  rw [printed_text] at hemitted hpassed
  have hfield : d.field ap ∈ fields string d.text ap := by
    rw [fields_text]
    exact List.mem_singleton_self _
  constructor
  · intro hboth
    have hfaithful := hboth.kvprintf
    rw [hpassed] at hfaithful
    exact IntDirective.printable_of_faithful hfaithful (hboth.inside _ hfield)
  · intro hprintable
    have hfaithful := d.faithful_of_printable ap hprintable
    constructor
    · rwa [hemitted]
    · rwa [hpassed]
    · intro f hf
      rw [fields_text, List.mem_singleton] at hf
      rw [hf]
      exact d.inside_of_printable ap hprintable

/-- `"%#8llx"` -/
def hexDirective : IntDirective :=
  ⟨[.hash], .number ⟨['8'.toUInt8], List.forall_mem_singleton.mpr rfl, by decide⟩ (by decide),
    .none, .ll, .x⟩

/-- `"%#8llx"` prints 48879 as `"  0xbeef"`. -/
theorem integers_faithful_hex :
    BothFaithful (fun _ => []) none (.opened 1 (writeFlags false) 0 fun _ => 0) hexDirective false
      fun i => if i = 0 then 48879 else 0 :=
  (integers_faithful_iff (fun _ => []) none (.opened 1 (writeFlags false) 0 fun _ => 0)
    ⟨Int.zero_le_ofNat 1, rfl⟩ hexDirective false fun i => if i = 0 then 48879 else 0).mpr
    ⟨.inr (.inl (by decide)), .inr (by decide), .inl (by decide), by decide, by decide, by decide,
      by decide⟩

/-- `"%1d"` -/
def narrowDirective : IntDirective :=
  ⟨[], .number ⟨['1'.toUInt8], List.forall_mem_singleton.mpr rfl, by decide⟩ (by decide), .none,
    .none, .d⟩

/-- `"%1d"` prints 42 as `"2"`. -/
theorem integers_cut_narrow :
    ¬BothFaithful (fun _ => []) none (.opened 1 (writeFlags false) 0 fun _ => 0) narrowDirective
      false fun _ => 42 := by
  intro hboth
  have hfaithful := hboth.kvprintf
  rw [(kvprintf_passed _ _ _).1, printed_text] at hfaithful
  have hinside := hboth.inside (narrowDirective.field fun _ => 42)
    (by rw [fields_text]; exact List.mem_singleton_self _)
  have hroomy := (IntDirective.printable_of_faithful hfaithful hinside).roomy
  unfold IntDirective.Roomy at hroomy
  revert hroomy
  decide

end DiegOS.Libc
