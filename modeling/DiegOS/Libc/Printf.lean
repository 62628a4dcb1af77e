import DiegOS.Libc.BufferedOutput
import Mathlib.Algebra.GroupWithZero.Nat
import Mathlib.Tactic.SplitIfs
import Mathlib.Tactic.Tauto

/-!
# Formatted output

`formatted_printf` and `kvprintf` read a format with the same statements and differ in
where a character goes: one passes it to `fputc`, the other collects eighty of them for
`kputb`.  Both are one engine here, over the function that puts a character.

A format is given by its characters without the zero behind them, the arguments by the words
that `va_arg` takes from the stack, and the memory behind the arguments of `%s` by the
string at every address.  A signed sum that overflows is undefined; it is computed in the
integers here, and a counter wraps.

Main results:

- Theorem `engine_eq`: the engine puts the texts of the fields of the format in order, until
  one character cannot be put.
- Theorem `Kputb.Holds.putAll`: nothing is lost between two flushes.
- Theorem `engines_agree_iff`: when both engines put the same characters and return their
  number.
-/

namespace DiegOS.Libc

/-! ## Arguments -/

def INT_MAX : Int := 2147483647

/-- A word as an `int`. -/
def toInt (word : UInt32) : Int :=
  if word < 0x80000000 then word.toNat else word.toNat - 4294967296

/-- The words behind the last named argument. -/
abbrev VaList := Nat → UInt32

/-- The arguments left after some words. -/
def VaList.skip (ap : VaList) (n : Nat) : VaList := fun i => ap (i + n)

/-- The type of an integer argument, as `CHAR` to `LONGLONG` say. -/
inductive ArgSize where
  | char
  | short
  | int
  | long
  | longlong
deriving DecidableEq, Repr

/-- How many words an argument takes. -/
def ArgSize.words : ArgSize → Nat
  | .longlong => 2
  | _ => 1

/-- `va_arg` of an unsigned type. -/
def VaList.unsigned (ap : VaList) : ArgSize → Nat
  | .longlong => (ap 0).toNat + (ap 1).toNat * 4294967296
  | _ => (ap 0).toNat

/-- `va_arg` of a signed type. -/
def VaList.signed (ap : VaList) : ArgSize → Int
  | .longlong => (ap 0).toNat + toInt (ap 1) * 4294967296
  | _ => toInt (ap 0)

/-! ## The directive -/

/-- The flags of a directive. -/
structure FormatFlags where
  left : Bool
  right : Bool
  prepend : Bool
  forceSign : Bool
  forceNosign : Bool
  fillzero : Bool
deriving DecidableEq, Repr

/-- What stands between `%` and the specifier. -/
structure Directive where
  flags : FormatFlags
  fill : UInt8
  width : Int
  max : Int
  size : ArgSize
deriving DecidableEq, Repr

/-- `flags = LEFT` -/
def FormatFlags.LEFT : FormatFlags := ⟨true, false, false, false, false, false⟩

/-- `flags = RIGHT` -/
def FormatFlags.RIGHT : FormatFlags := ⟨false, true, false, false, false, false⟩

/-- `' '` -/
def blank : UInt8 := ' '.toUInt8

/-- `'0'` -/
def zero : UInt8 := '0'.toUInt8

/-- `'-'` -/
def minus : UInt8 := '-'.toUInt8

/-- `'+'` -/
def plus : UInt8 := '+'.toUInt8

/-- `'%'` -/
def percent : UInt8 := '%'.toUInt8

def isdigit (c : UInt8) : Bool := decide ('0'.toUInt8 ≤ c) && decide (c ≤ '9'.toUInt8)

/-- The loop over the flags, with the rest of the format behind them. -/
def readFlags (flags : FormatFlags) (fill : UInt8) :
    List UInt8 → FormatFlags × UInt8 × List UInt8
  | [] => (flags, fill, [])
  | c :: fmt =>
    if c = minus then readFlags .LEFT fill fmt
    else if c = plus then readFlags { flags with forceSign := true, forceNosign := false } fill fmt
    else if c = blank then
      readFlags { flags with forceSign := false, forceNosign := true } fill fmt
    else if c = '#'.toUInt8 then readFlags { flags with prepend := true } fill fmt
    else if c = zero then readFlags { flags with fillzero := true } zero fmt
    else (flags, fill, c :: fmt)

/-- `n = n * 10 + (c - '0')` for every digit that follows. -/
def readNumber (n : Int) : List UInt8 → Int × List UInt8
  | [] => (n, [])
  | c :: fmt => if isdigit c then readNumber (n * 10 + (c.toNat - 48)) fmt else (n, c :: fmt)

/-- The width. -/
def readWidth (ap : VaList) : List UInt8 → Int × VaList × List UInt8
  | [] => (0, ap, [])
  | c :: fmt =>
    if c = '*'.toUInt8 then (toInt (ap 0), ap.skip 1, fmt)
    else ((readNumber 0 (c :: fmt)).1, ap, (readNumber 0 (c :: fmt)).2)

/-- The precision, behind its dot. -/
def readMax (ap : VaList) : List UInt8 → Int × VaList × List UInt8
  | [] => (INT_MAX, ap, [])
  | c :: fmt =>
    if c = '*'.toUInt8 then (toInt (ap 0), ap.skip 1, fmt)
    else if isdigit c then ((readNumber 0 (c :: fmt)).1, ap, (readNumber 0 (c :: fmt)).2)
    else (INT_MAX, ap, c :: fmt)

/-- The precision. -/
def readPrecision (ap : VaList) : List UInt8 → Int × VaList × List UInt8
  | [] => (INT_MAX, ap, [])
  | c :: fmt => if c = '.'.toUInt8 then readMax ap fmt else (INT_MAX, ap, c :: fmt)

/-- The length. -/
def readSize : List UInt8 → ArgSize × List UInt8
  | [] => (.int, [])
  | c :: fmt =>
    if c = 'l'.toUInt8 then
      if fmt.head? = some 'l'.toUInt8 then (.longlong, fmt.tail) else (.long, fmt)
    else if c = 'h'.toUInt8 then
      if fmt.head? = some 'h'.toUInt8 then (.char, fmt.tail) else (.short, fmt)
    else if c = 'L'.toUInt8 then (.long, fmt)
    else (.int, c :: fmt)

/-- The statements from `%` to the specifier. -/
def readDirective (ap : VaList) (fmt : List UInt8) : Directive × VaList × List UInt8 :=
  let (flags, fill, fmt) := readFlags .RIGHT blank fmt
  let (width, ap, fmt) := readWidth ap fmt
  let (max, ap, fmt) := readPrecision ap fmt
  let (size, fmt) := readSize fmt
  (⟨flags, fill, width, max, size⟩, ap, fmt)

/-! ## Conversions -/

def TEMP_SIZE : Nat := 8 * 8 / 3 + 2

def x2cTab : List UInt8 := "0123456789abcdef".toList.map Char.toUInt8

def X2CTab : List UInt8 := "0123456789ABCDEF".toList.map Char.toUInt8

/-- `temp` from `p` on, without the zero at its end, and whether every store so far went
inside it. -/
structure Temp where
  chars : List UInt8
  inside : Bool
deriving DecidableEq, Repr

/-- `*--p = c; ++len;` -/
def Temp.push (c : UInt8) (t : Temp) : Temp :=
  ⟨c :: t.chars, t.inside && decide (t.chars.length + 1 < TEMP_SIZE)⟩

/-- The same character some times. -/
def Temp.pushMany (c : UInt8) : Nat → Temp → Temp
  | 0, t => t
  | n + 1, t => pushMany c n (t.push c)

/-- The loop over the digits, in at most so many rounds. -/
def putDigits (base : Nat) (x2c : List UInt8) (width : Int) : Nat → Nat → Temp → Temp
  | 0, _, t => t
  | rounds + 1, u, t =>
    let t := t.push (x2c.getD (u % base) 0)
    let u := if width ≠ 0 ∧ ¬(t.chars.length : Int) < width then 0 else u
    if 0 < u / base then putDigits base x2c width rounds (u / base) t else t

/-- What `string_print` finds. -/
structure Field where
  directive : Directive
  i : Int
  /-- the characters from `p`, `len` of them -/
  chars : List UInt8
  /-- every store in `temp` went inside it -/
  inside : Bool
deriving DecidableEq, Repr

/-- `while (len < max)`, for the smaller of `max` and `width`. -/
def Temp.fillUp (d : Directive) (t : Temp) : Temp :=
  if d.max ≠ INT_MAX then
    t.pushMany d.fill ((if d.max < d.width then d.max else d.width) - t.chars.length).toNat
  else t

/-- `if (flags & PREPEND)` -/
def Temp.prepend (d : Directive) (base : Nat) (t : Temp) : Temp :=
  if d.flags.prepend then
    if base = 8 then t.push zero
    else if base = 16 then (t.push 'x'.toUInt8).push zero
    else t
  else t

def int2ascii (d : Directive) (base : Nat) (x2c : List UInt8) (i : Int) (u : Nat) : Field :=
  let t := putDigits base x2c d.width (u + 1) u ⟨[], true⟩
  let t := (t.fillUp d).prepend d base
  ⟨d, i, t.chars, t.inside⟩

/-- The adjustment of `max` to a bound for every length. -/
def Directive.clip (d : Directive) (bound : ArgSize → Int) : Directive :=
  if d.max ≠ INT_MAX then
    { d with max := if bound d.size < d.max then bound d.size else d.max }
  else d

/-- The bounds of `max` at `%d`. -/
def decimalMax : ArgSize → Int
  | .char => 3
  | .short => 5
  | .int => 10
  | .long => 10
  | .longlong => TEMP_SIZE - 1

/-- The bounds of `max` at `%o`. -/
def octalMax : ArgSize → Int
  | .char => 3
  | .short => 6
  | .int => 11
  | .long => 11
  | .longlong => 22

/-- The bounds of `max` at `%x`. -/
def hexMax : ArgSize → Int
  | .char => 2
  | .short => 4
  | .int => 8
  | .long => 8
  | .longlong => 16

/-- `"(null)"` -/
def nullText : List UInt8 := "(null)".toList.map Char.toUInt8

/-- `if (!p) p = "(null)";` -/
def stringArg (string : UInt32 → List UInt8) (p : UInt32) : List UInt8 :=
  if p = 0 then nullText else string p

/-- The loop that finds `len` of a string. -/
def stringLen (max : Int) : Nat → List UInt8 → Nat
  | len, [] => len
  | len, _ :: p => if (len : Int) < max then stringLen max (len + 1) p else len

/-- Characters put without a width. -/
def plainField (chars : List UInt8) : Field :=
  ⟨⟨.RIGHT, blank, 0, INT_MAX, .int⟩, 0, chars, true⟩

/-- The specifiers, with the arguments left. -/
def convert (string : UInt32 → List UInt8) (d : Directive) (ap : VaList) (c : UInt8) :
    Field × VaList :=
  if c = 'd'.toUInt8 ∨ c = 'i'.toUInt8 then
    let i := ap.signed d.size
    (int2ascii (d.clip decimalMax) 10 x2cTab i i.natAbs, ap.skip d.size.words)
  else if c = 'o'.toUInt8 then
    (int2ascii (d.clip octalMax) 8 x2cTab 0 (ap.unsigned d.size), ap.skip d.size.words)
  else if c = 'p'.toUInt8 then
    let d := { d with flags := { d.flags with prepend := true } }
    (int2ascii (d.clip hexMax) 16 X2CTab 0 (ap.unsigned d.size), ap.skip d.size.words)
  else if c = 'X'.toUInt8 then
    (int2ascii (d.clip hexMax) 16 X2CTab 0 (ap.unsigned d.size), ap.skip d.size.words)
  else if c = 'x'.toUInt8 then
    (int2ascii (d.clip hexMax) 16 x2cTab 0 (ap.unsigned d.size), ap.skip d.size.words)
  else if c = 'u'.toUInt8 then
    (int2ascii d 10 x2cTab 0 (ap.unsigned d.size), ap.skip d.size.words)
  else if c = 'c'.toUInt8 then (⟨d, 0, [(ap 0).toUInt8], true⟩, ap.skip 1)
  else if c = percent then (⟨d, 0, [percent], true⟩, ap)
  else if c = 's'.toUInt8 then
    let p := stringArg string (ap 0)
    (⟨d, 0, p.take (stringLen d.max 0 p), true⟩, ap.skip 1)
  else (plainField [percent, c], ap)

/-- One round of the loop over the format: what is put, the arguments and the format left.  The
loop ends at the end of the format, also in the middle of a directive. -/
def nextField (string : UInt32 → List UInt8) (ap : VaList) :
    List UInt8 → Option (Field × VaList × List UInt8)
  | [] => none
  | c :: fmt =>
    if c = percent then
      match readDirective ap fmt with
      | (_, _, []) => none
      | (d, ap, c :: fmt) => some ((convert string d ap c).1, (convert string d ap c).2, fmt)
    else some (plainField [c], ap, fmt)

/-! ## Printing -/

/-- `(i < 0) || (flags & FORCE_SIGN)` -/
def Field.signed (f : Field) : Bool := decide (f.i < 0) || f.directive.flags.forceSign

/-- The sign that is put. -/
def Field.sign (f : Field) : List UInt8 :=
  if f.signed then [if f.i < 0 then minus else plus] else []

/-- `width` when the filling starts. -/
def Field.room (f : Field) : Nat := (f.directive.width - f.chars.length - f.sign.length).toNat

/-- The characters that `string_print` puts. -/
def Field.text (f : Field) : List UInt8 :=
  f.sign ++ (if f.directive.flags.right then List.replicate f.room f.directive.fill else []) ++
    f.chars ++ (if f.directive.flags.right then [] else List.replicate f.room f.directive.fill)

variable {σ : Type}

/-- Put characters one after the other until one cannot be put. -/
def putAll (put : UInt8 → σ → σ × Bool) : List UInt8 → σ → σ × Bool
  | [], s => (s, true)
  | c :: text, s => if (put c s).2 then putAll put text (put c s).1 else ((put c s).1, false)

/-- The loop over the format, in at most so many rounds. -/
def engine (put : UInt8 → σ → σ × Bool) (string : UInt32 → List UInt8) :
    Nat → VaList → List UInt8 → σ → σ × Bool
  | 0, _, _, s => (s, true)
  | rounds + 1, ap, fmt, s =>
    match nextField string ap fmt with
    | none => (s, true)
    | some (f, ap, fmt) =>
      let (s, ok) := putAll put f.text s
      if ok then engine put string rounds ap fmt s else (s, false)

/-! ## The two engines -/

/-- A stream that is printed to, with the characters passed to `fputc` so far. -/
structure Printing where
  stream : Stream
  bcount : UInt32
  emitted : List UInt8

def fputcInternal (malloc : Memory) (skipeof : Bool) (c : UInt8) (s : Printing) :
    Printing × Bool :=
  let (stream, result) := s.stream.fputc (ofChar c) malloc
  let emitted := s.emitted ++ [c]
  if result = EOF ∧ skipeof = false then (⟨stream, s.bcount, emitted⟩, false)
  else (⟨stream, s.bcount + 1, emitted⟩, true)

/-- `formatted_printf`, with the stream afterwards. -/
def formattedPrintf (string : UInt32 → List UInt8) (malloc : Memory) (stream : Stream)
    (fmt : List UInt8) (skipeof : Bool) (ap : VaList) : Printing × Int :=
  let (s, ok) :=
    engine (fputcInternal malloc skipeof) string fmt.length ap fmt ⟨stream, 0, []⟩
  (s, if ok then toInt s.bcount else -1)

def VPRINTF_BUFSIZE : Nat := 80

/-- The variables `charcount`, `buffer` and `bcount`, the characters passed to
`kputb` so far, and whether every store so far went inside the buffer. -/
structure Kputb where
  charcount : UInt32
  buffer : Nat → UInt8
  bcount : Nat
  passed : List UInt8
  inside : Bool

/-- `kputb(buffer, n)` -/
def Kputb.kputb (s : Kputb) (n : Nat) : Kputb :=
  { s with passed := s.passed ++ (List.range n).map s.buffer }

/-- A full buffer is passed on. -/
def Kputb.flush (s : Kputb) : Kputb :=
  if s.bcount = VPRINTF_BUFSIZE then { s.kputb VPRINTF_BUFSIZE with bcount := 0 } else s

/-- `buffer[(*bcount)++] = (char)c;` -/
def Kputb.store (c : UInt8) (s : Kputb) : Kputb :=
  { s with
    buffer := Function.update s.buffer s.bcount c
    bcount := s.bcount + 1
    inside := s.inside && decide (s.bcount < VPRINTF_BUFSIZE) }

def countKputc (c : UInt8) (s : Kputb) : Kputb × Bool :=
  ({ s with charcount := s.charcount + 1 }.flush.store c, true)

/-- `kvprintf`, with the characters it passes to `kputb`. -/
def kvprintf (string : UInt32 → List UInt8) (fmt : List UInt8) (ap : VaList) : Kputb × Int :=
  let (s, _) := engine countKputc string fmt.length ap fmt ⟨0, fun _ => 0, 0, [], true⟩
  (s.kputb s.bcount, toInt s.charcount)

/-! ## The fields of a format -/

/-- What the rounds print, in at most so many of them. -/
def fieldsIn (string : UInt32 → List UInt8) : Nat → VaList → List UInt8 → List Field
  | 0, _, _ => []
  | rounds + 1, ap, fmt =>
    match nextField string ap fmt with
    | none => []
    | some (f, ap, fmt) => f :: fieldsIn string rounds ap fmt

/-- What a format prints. -/
def fields (string : UInt32 → List UInt8) (fmt : List UInt8) (ap : VaList) : List Field :=
  fieldsIn string fmt.length ap fmt

section Engine

variable {put : UInt8 → σ → σ × Bool} {string : UInt32 → List UInt8}

/-- Two texts one after the other. -/
lemma putAll_append (text text' : List UInt8) (s : σ) :
    putAll put (text ++ text') s =
      if (putAll put text s).2 then putAll put text' (putAll put text s).1
      else ((putAll put text s).1, false) := by
  induction text generalizing s with
  | nil => rfl
  | cons c text ih =>
    by_cases hput : (put c s).2 = true
    · simp only [List.cons_append, putAll, if_pos hput, ih]
    · simp only [List.cons_append, putAll, if_neg hput, Bool.false_eq_true, if_false]

/-- The engine puts the texts of the fields in order, until one character cannot be put. -/
theorem engine_eq (rounds : Nat) (ap : VaList) (fmt : List UInt8) (s : σ) :
    engine put string rounds ap fmt s =
      putAll put ((fieldsIn string rounds ap fmt).flatMap Field.text) s := by
  induction rounds generalizing ap fmt s with
  | zero => rfl
  | succ rounds ih =>
    rw [engine, fieldsIn]
    cases nextField string ap fmt with
    | none => rfl
    | some next =>
      dsimp only
      rw [List.flatMap_cons, putAll_append]
      by_cases hput : (putAll put next.1.text s).2 = true
      · rw [if_pos hput, if_pos hput, ih]
      · rw [if_neg hput, if_neg hput]

end Engine

/-! ### Every round reads on -/

/-- Reading the flags, the format does not grow; likewise the lemmas below. -/
lemma readFlags_length (flags : FormatFlags) (fill : UInt8) (fmt : List UInt8) :
    (readFlags flags fill fmt).2.2.length ≤ fmt.length := by
  induction fmt generalizing flags fill with
  | nil => exact Nat.le_refl 0
  | cons c fmt ih =>
    rw [readFlags]
    split_ifs
    all_goals first | exact Nat.le_succ_of_le (ih _ _) | exact Nat.le_refl _

lemma readNumber_length (n : Int) (fmt : List UInt8) :
    (readNumber n fmt).2.length ≤ fmt.length := by
  induction fmt generalizing n with
  | nil => exact Nat.le_refl 0
  | cons c fmt ih =>
    rw [readNumber]
    split_ifs
    · exact Nat.le_succ_of_le (ih _)
    · exact Nat.le_refl _

lemma readWidth_length (ap : VaList) (fmt : List UInt8) :
    (readWidth ap fmt).2.2.length ≤ fmt.length := by
  cases fmt with
  | nil => exact Nat.le_refl 0
  | cons c fmt =>
    rw [readWidth]
    split_ifs
    · exact Nat.le_succ _
    · exact readNumber_length 0 (c :: fmt)

lemma readMax_length (ap : VaList) (fmt : List UInt8) :
    (readMax ap fmt).2.2.length ≤ fmt.length := by
  cases fmt with
  | nil => exact Nat.le_refl 0
  | cons c fmt =>
    rw [readMax]
    split_ifs
    · exact Nat.le_succ _
    · exact readNumber_length 0 (c :: fmt)
    · exact Nat.le_refl _

lemma readPrecision_length (ap : VaList) (fmt : List UInt8) :
    (readPrecision ap fmt).2.2.length ≤ fmt.length := by
  cases fmt with
  | nil => exact Nat.le_refl 0
  | cons c fmt =>
    rw [readPrecision]
    split_ifs
    · exact Nat.le_succ_of_le (readMax_length ap fmt)
    · exact Nat.le_refl _

lemma readSize_length (fmt : List UInt8) : (readSize fmt).2.length ≤ fmt.length := by
  cases fmt with
  | nil => exact Nat.le_refl 0
  | cons c fmt =>
    rw [readSize]
    split_ifs
    all_goals simp only [List.length_tail, List.length_cons]
    all_goals omega

/-- A directive does not make the format longer. -/
lemma readDirective_length (ap : VaList) (fmt : List UInt8) :
    (readDirective ap fmt).2.2.length ≤ fmt.length := by
  refine Nat.le_trans (readSize_length _) ?_
  refine Nat.le_trans (readPrecision_length _ _) ?_
  refine Nat.le_trans (readWidth_length _ _) ?_
  exact readFlags_length _ _ fmt

/-- Every round reads a character. -/
lemma nextField_length {string : UInt32 → List UInt8} {ap ap' : VaList} {f : Field}
    {fmt fmt' : List UInt8} (h : nextField string ap fmt = some (f, ap', fmt')) :
    fmt'.length < fmt.length := by
  cases fmt with
  | nil => contradiction
  | cons c fmt =>
    rw [nextField] at h
    split at h
    · have hlength := readDirective_length ap fmt
      split at h
      · contradiction
      · next d ap₁ c₁ fmt₁ hread =>
          rw [hread] at hlength
          cases h
          exact Nat.lt_succ_of_le (Nat.le_of_succ_le hlength)
    · cases h
      exact Nat.lt_succ_self _

/-- More rounds than characters change nothing. -/
lemma fieldsIn_of_le (string : UInt32 → List UInt8) (rounds rounds' : Nat) (ap : VaList)
    (fmt : List UInt8) (h : fmt.length ≤ rounds) (h' : fmt.length ≤ rounds') :
    fieldsIn string rounds ap fmt = fieldsIn string rounds' ap fmt := by
  induction rounds generalizing rounds' ap fmt with
  | zero =>
    obtain rfl := List.length_eq_zero_iff.mp (Nat.le_zero.mp h)
    cases rounds' <;> rfl
  | succ rounds ih =>
    cases rounds' with
    | zero =>
      obtain rfl := List.length_eq_zero_iff.mp (Nat.le_zero.mp h')
      rfl
    | succ rounds' =>
      rw [fieldsIn, fieldsIn]
      cases hnext : nextField string ap fmt with
      | none => rfl
      | some next =>
        rcases next with ⟨f, ap', fmt'⟩
        have hlt := nextField_length hnext
        dsimp only
        rw [ih rounds' ap' fmt' (by omega) (by omega)]

/-- No fields at the end of the format. -/
lemma fields_of_none {string : UInt32 → List UInt8} {ap : VaList} {fmt : List UInt8}
    (h : nextField string ap fmt = none) : fields string fmt ap = [] := by
  unfold fields
  cases fmt with
  | nil => rfl
  | cons c fmt => rw [List.length_cons, fieldsIn, h]

/-- The field of a round comes before those of the rest. -/
lemma fields_of_some {string : UInt32 → List UInt8} {ap ap' : VaList} {f : Field}
    {fmt fmt' : List UInt8} (h : nextField string ap fmt = some (f, ap', fmt')) :
    fields string fmt ap = f :: fields string fmt' ap' := by
  have hlt := nextField_length h
  unfold fields
  rw [fieldsIn_of_le string fmt.length (fmt.length + 1) ap fmt (by omega) (by omega), fieldsIn, h]
  exact congrArg (f :: ·) (fieldsIn_of_le string _ _ ap' fmt' (by omega) (by omega))

/-! ### The characters of a field -/

/-- The flags fill with blanks or with zeros. -/
lemma readFlags_fill {flags : FormatFlags} {fill : UInt8} (fmt : List UInt8)
    (h : fill = blank ∨ fill = zero) :
    (readFlags flags fill fmt).2.1 = blank ∨ (readFlags flags fill fmt).2.1 = zero := by
  induction fmt generalizing flags fill with
  | nil => exact h
  | cons c fmt ih =>
    rw [readFlags]
    split_ifs
    all_goals first | exact ih h | exact ih (.inr rfl) | exact h

/-- A field is filled with blanks or with zeros. -/
def Directive.Filled (d : Directive) : Prop := d.fill = blank ∨ d.fill = zero

/-- Clipping keeps the fill character. -/
@[simp]
lemma clip_fill (d : Directive) (bound : ArgSize → Int) : (d.clip bound).fill = d.fill := by
  unfold Directive.clip
  split_ifs <;> rfl

/-- The specifiers whose output is not copied. -/
def converted : List UInt8 :=
  ['d'.toUInt8, 'i'.toUInt8, 'o'.toUInt8, 'p'.toUInt8, 'X'.toUInt8, 'x'.toUInt8, 'u'.toUInt8,
    percent]

/-- The characters that a directive copies from the format or from its argument. -/
def Directive.copied (string : UInt32 → List UInt8) (d : Directive) (ap : VaList) (c : UInt8) :
    List UInt8 :=
  if c ∈ converted then []
  else if c = 'c'.toUInt8 then [(ap 0).toUInt8]
  else if c = 's'.toUInt8 then
    (stringArg string (ap 0)).take (stringLen d.max 0 (stringArg string (ap 0)))
  else [c]

/-- The characters that a round copies. -/
def nextCopied (string : UInt32 → List UInt8) (ap : VaList) : List UInt8 → List UInt8
  | [] => []
  | c :: fmt =>
    if c = percent then
      match readDirective ap fmt with
      | (_, _, []) => []
      | (d, ap, c :: _) => d.copied string ap c
    else [c]

/-- The character that `fputc` takes for `EOF`. -/
def eofChar : UInt8 := 0xFF

/-- A character that is not pushed is not in `temp`. -/
lemma Temp.push_mem {t : Temp} {c x : UInt8} (hc : x ≠ c) (h : x ∉ t.chars) :
    x ∉ (t.push c).chars := by
  simp [Temp.push, hc, h]

lemma Temp.pushMany_mem {t : Temp} {c x : UInt8} (n : Nat) (hc : x ≠ c) (h : x ∉ t.chars) :
    x ∉ (t.pushMany c n).chars := by
  induction n generalizing t with
  | zero => exact h
  | succ n ih => exact ih (push_mem hc h)

/-- Only digits are put. -/
lemma putDigits_mem {base : Nat} {x2c : List UInt8} {width : Int} {x : UInt8} {t : Temp}
    (rounds u : Nat) (hx : ∀ i, x ≠ x2c.getD i 0) (h : x ∉ t.chars) :
    x ∉ (putDigits base x2c width rounds u t).chars := by
  induction rounds generalizing u t with
  | zero => exact h
  | succ rounds ih =>
    have hpush := Temp.push_mem (hx (u % base)) h
    rw [putDigits]
    split_ifs
    all_goals first | exact ih _ hpush | exact hpush

/-- A character outside a table is none of its digits. -/
lemma ne_getD {x : UInt8} {l : List UInt8} (hl : x ∉ l) (hx : x ≠ 0) (i : Nat) :
    x ≠ l.getD i 0 := by
  rcases Nat.lt_or_ge i l.length with hlt | hge
  · rw [List.getD_eq_getElem?_getD, List.getElem?_eq_getElem hlt, Option.getD_some]
    intro heq
    apply hl
    rw [heq]
    exact List.getElem_mem hlt
  · rw [List.getD_eq_getElem?_getD, List.getElem?_eq_none hge]
    exact hx

lemma eofChar_ne_x2cTab (i : Nat) : eofChar ≠ x2cTab.getD i 0 :=
  ne_getD (by decide) (by decide) i

lemma eofChar_ne_X2CTab (i : Nat) : eofChar ≠ X2CTab.getD i 0 :=
  ne_getD (by decide) (by decide) i

/-- The fill character is not taken for `EOF`. -/
lemma Directive.Filled.ne_eofChar {d : Directive} (h : d.Filled) : eofChar ≠ d.fill := by
  rcases h with h | h <;> rw [h] <;> decide

lemma Directive.Filled.clip {d : Directive} (h : d.Filled) (bound : ArgSize → Int) :
    (d.clip bound).Filled := by
  simpa [Filled] using h

/-- The characters of an integer are none that `fputc` takes for `EOF`. -/
lemma int2ascii_mem {d : Directive} {base u : Nat} {x2c : List UInt8} {i : Int}
    (hd : d.Filled) (hx : ∀ i, eofChar ≠ x2c.getD i 0) :
    eofChar ∉ (int2ascii d base x2c i u).chars := by
  have hdigits : eofChar ∉ (putDigits base x2c d.width (u + 1) u ⟨[], true⟩).chars :=
    putDigits_mem _ _ hx List.not_mem_nil
  have hfilled : eofChar ∉
      ((putDigits base x2c d.width (u + 1) u ⟨[], true⟩).fillUp d).chars := by
    unfold Temp.fillUp
    split_ifs
    all_goals first | exact Temp.pushMany_mem _ hd.ne_eofChar hdigits | exact hdigits
  unfold int2ascii Temp.prepend
  split_ifs
  · exact Temp.push_mem (by decide) hfilled
  · exact Temp.push_mem (by decide) (Temp.push_mem (by decide) hfilled)
  · exact hfilled
  · exact hfilled

/-- Every conversion fills with blanks or with zeros. -/
lemma convert_filled (string : UInt32 → List UInt8) {d : Directive} (ap : VaList) (c : UInt8)
    (hd : d.Filled) : (convert string d ap c).1.directive.Filled := by
  unfold convert
  split_ifs
  all_goals first
    | exact hd
    | exact .inl rfl
    | exact Directive.Filled.clip hd _
    | exact Directive.Filled.clip (by exact hd) _

/-- A conversion gives a character that `fputc` takes for `EOF` only if it copies one. -/
lemma convert_mem (string : UInt32 → List UInt8) {d : Directive} (ap : VaList) (c : UInt8)
    (hd : d.Filled) :
    eofChar ∈ (convert string d ap c).1.chars ↔ eofChar ∈ d.copied string ap c := by
  have hnumber : ∀ {e : Directive} {base u : Nat} {x2c : List UInt8} {i : Int}, e.Filled →
      (∀ i, eofChar ≠ x2c.getD i 0) → c ∈ converted →
      (eofChar ∈ (int2ascii e base x2c i u).chars ↔ eofChar ∈ d.copied string ap c) := by
    intro e base u x2c i he hx hc
    rw [Directive.copied, if_pos hc]
    exact iff_of_false (int2ascii_mem he hx) List.not_mem_nil
  unfold convert
  split_ifs with hdi ho hp hX hx hu hc hpercent hs
  · refine hnumber (hd.clip _) eofChar_ne_x2cTab ?_
    rcases hdi with rfl | rfl <;> decide
  · exact hnumber (hd.clip _) eofChar_ne_x2cTab (ho ▸ by decide)
  · exact hnumber (Directive.Filled.clip (by exact hd) _) eofChar_ne_X2CTab (hp ▸ by decide)
  · exact hnumber (hd.clip _) eofChar_ne_X2CTab (hX ▸ by decide)
  · exact hnumber (hd.clip _) eofChar_ne_x2cTab (hx ▸ by decide)
  · exact hnumber hd eofChar_ne_x2cTab (hu ▸ by decide)
  · subst hc
    rw [Directive.copied, if_neg (by decide), if_pos rfl]
  · subst hpercent
    rw [Directive.copied, if_pos (by decide)]
    exact iff_of_false (by dsimp only; decide) List.not_mem_nil
  · subst hs
    rw [Directive.copied, if_neg (by decide), if_neg (by decide), if_pos rfl]
  · have hnot : c ∉ converted := by
      simp only [converted, List.mem_cons, List.not_mem_nil, or_false]
      tauto
    have hne : eofChar ≠ percent := by decide
    rw [Directive.copied, if_neg hnot, if_neg hc, if_neg hs, plainField]
    simp only [List.mem_cons, hne, false_or]

/-- Sign and filling add no such character. -/
lemma Field.text_mem {f : Field} (h : f.directive.Filled) :
    eofChar ∈ f.text ↔ eofChar ∈ f.chars := by
  have hsign : eofChar ∉ f.sign := by
    unfold Field.sign
    split_ifs <;> decide
  have hfill : ∀ n, eofChar ∉ List.replicate n f.directive.fill := by
    intro n hmem
    exact h.ne_eofChar (List.eq_of_mem_replicate hmem)
  unfold Field.text
  split_ifs <;> simp [hsign, hfill]

/-- A text is its sign, its filling and its characters. -/
lemma Field.text_length (f : Field) :
    f.text.length = f.sign.length + f.room + f.chars.length := by
  unfold Field.text
  split_ifs
  all_goals simp only [List.length_append, List.length_replicate, List.length_nil]
  all_goals omega

/-- A round puts a character that `fputc` takes for `EOF` only if it copies one. -/
lemma nextField_mem {string : UInt32 → List UInt8} {ap ap' : VaList} {f : Field}
    {fmt fmt' : List UInt8} (h : nextField string ap fmt = some (f, ap', fmt')) :
    eofChar ∈ f.text ↔ eofChar ∈ nextCopied string ap fmt := by
  cases fmt with
  | nil => contradiction
  | cons c fmt =>
    rw [nextField] at h
    rw [nextCopied]
    split at h
    · next hc =>
        have hfilled : (readDirective ap fmt).1.Filled := readFlags_fill fmt (.inl rfl)
        rw [if_pos hc]
        split at h
        · contradiction
        · next d ap₁ c₁ fmt₁ hread =>
            rw [hread] at hfilled
            cases h
            rw [Field.text_mem (convert_filled string ap₁ c₁ hfilled)]
            exact convert_mem string ap₁ c₁ hfilled
    · next hc =>
        cases h
        rw [if_neg hc]
        exact Field.text_mem (.inl rfl)

/-- The characters that the rounds copy from the format and the arguments. -/
def copiedIn (string : UInt32 → List UInt8) : Nat → VaList → List UInt8 → List UInt8
  | 0, _, _ => []
  | rounds + 1, ap, fmt =>
    match nextField string ap fmt with
    | none => []
    | some (_, ap', fmt') => nextCopied string ap fmt ++ copiedIn string rounds ap' fmt'

/-- The characters that a format copies: its own outside directives, unknown specifiers, the
arguments of `%c` and what is printed of those of `%s`. -/
def copied (string : UInt32 → List UInt8) (fmt : List UInt8) (ap : VaList) : List UInt8 :=
  copiedIn string fmt.length ap fmt

/-- The rounds together put such a character only if they copy one. -/
lemma copiedIn_mem (string : UInt32 → List UInt8) (rounds : Nat) (ap : VaList)
    (fmt : List UInt8) :
    eofChar ∈ (fieldsIn string rounds ap fmt).flatMap Field.text ↔
      eofChar ∈ copiedIn string rounds ap fmt := by
  induction rounds generalizing ap fmt with
  | zero => exact Iff.rfl
  | succ rounds ih =>
    rw [fieldsIn, copiedIn]
    cases hnext : nextField string ap fmt with
    | none => exact Iff.rfl
    | some next =>
      rcases next with ⟨f, ap', fmt'⟩
      rw [List.flatMap_cons, List.mem_append, List.mem_append, nextField_mem hnext, ih]

/-! ## Where the characters go -/

/-- A stream that takes every character. -/
structure Stream.Takes (s : Stream) : Prop where
  fd : 0 ≤ s.fd
  refuses : s.refuses = false

/-- A write path changes neither the descriptor nor the flags and returns the character. -/
structure Stream.Wrote (s : Stream) (c : Int) (r : Stream × Int) : Prop where
  fd : r.1.fd = s.fd
  flags : r.1.flags = s.flags
  result : r.2 = c

/-- `writebuffern` as a write path. -/
lemma Stream.writebuffern_wrote {s : Stream} (h : 0 ≤ s.fd) (c : Int) :
    s.Wrote c (s.writebuffern c) := by
  unfold writebuffern
  rw [if_neg (Int.not_lt.mpr h)]
  exact ⟨rfl, rfl, rfl⟩

@[simp]
lemma Stream.store_fd (s : Stream) (c : UInt8) : (s.store c).fd = s.fd := rfl

@[simp]
lemma Stream.store_flags (s : Stream) (c : UInt8) : (s.store c).flags = s.flags := rfl

@[simp]
lemma Stream.writeFront_fd (s : Stream) (n : Nat) : (s.writeFront n).fd = s.fd := rfl

@[simp]
lemma Stream.writeFront_flags (s : Stream) (n : Nat) : (s.writeFront n).flags = s.flags := rfl

/-- `writebufferl` as a write path. -/
lemma Stream.writebufferl_wrote {s : Stream} (h : 0 ≤ s.fd) (c : Int) :
    s.Wrote c (s.writebufferl c) := by
  have hstored : ∀ t : Stream, t = (if s.count ≠ 0 then
      { s with count := s.count - 1 }.store (toChar c) else s) → t.fd = s.fd ∧
        t.flags = s.flags := by
    rintro t rfl
    split_ifs <;> exact ⟨rfl, rfl⟩
  unfold writebufferl
  generalize (if s.count ≠ 0 then _ else s) = t at hstored
  rcases hstored t rfl with ⟨hfd, hflags⟩
  have hnot : ¬t.fd < 0 := by omega
  dsimp only
  rw [if_neg hnot]
  split_ifs
  all_goals exact ⟨hfd, hflags, rfl⟩

/-- `writebuffer` as a write path. -/
lemma Stream.writebuffer_wrote {s : Stream} (h : 0 ≤ s.fd) (c : Int) :
    s.Wrote c (s.writebuffer c) := by
  unfold writebuffer
  rw [if_neg (Int.not_lt.mpr h)]
  split_ifs
  · exact ⟨by rw [store_fd], by rw [store_flags], rfl⟩
  · exact ⟨by rw [store_fd, writeFront_fd], by rw [store_flags, writeFront_flags], rfl⟩

/-- Both buffered write paths. -/
lemma Stream.putBuffered_wrote {s : Stream} (h : 0 ≤ s.fd) (c : Int) :
    s.Wrote c (s.putBuffered c) := by
  unfold putBuffered
  split_ifs
  · exact writebufferl_wrote h c
  · exact writebuffer_wrote h c

/-- A stream that takes every character goes on doing so, and `fputc` returns its
argument. -/
theorem Stream.Takes.fputc {s : Stream} (h : s.Takes) (c : Int) (malloc : Memory) :
    (s.fputc c malloc).1.Takes ∧ (s.fputc c malloc).2 = c := by
  have hwrite : s.flags.write = true := by
    have hrefuses := h.refuses
    cases hw : s.flags.write with
    | true => rfl
    | false => simp [Stream.refuses, hw] at hrefuses
  -- whichever way it goes, the stream is writing afterwards
  have hwrote : ∀ {t : Stream} {r : Stream × Int}, t.Wrote c r → t.fd = s.fd →
      t.flags.write = true → t.flags.reading = false → r.1.Takes ∧ r.2 = c := by
    intro t r hr hfd hw hreading
    refine ⟨⟨?_, ?_⟩, hr.result⟩
    · rw [hr.fd, hfd]
      exact h.fd
    · unfold Stream.refuses
      rw [hr.flags, hw, hreading, Bool.not_true, Bool.false_and, Bool.false_or]
  cases hnbuf : s.flags.nbuf with
  | true =>
    rw [fputc_unbuffered h.refuses hnbuf]
    exact hwrote (writebuffern_wrote (by exact h.fd) c) rfl hwrite rfl
  | false =>
    cases hbuffer : s.buffer with
    | true =>
      rw [fputc_buffered h.refuses hnbuf hbuffer]
      exact hwrote (putBuffered_wrote (by exact h.fd) c) rfl hwrite rfl
    | false =>
      cases malloc with
      | none =>
        rw [fputc_noMemory h.refuses hnbuf hbuffer]
        exact hwrote (writebuffern_wrote (by exact h.fd) c) rfl hwrite rfl
      | some content =>
        rw [fputc_allocated h.refuses hnbuf hbuffer]
        exact hwrote (putBuffered_wrote (by exact h.fd) c) rfl hwrite rfl

/-- The one character that `fputc` returns as `EOF`. -/
lemma ofChar_eq_EOF {c : UInt8} : ofChar c = EOF ↔ c = eofChar := by
  have hc : c.toNat < 256 := UInt8.toNat_lt_size c
  have hall : eofChar.toNat = 255 := rfl
  rw [← UInt8.toNat_inj, hall]
  unfold ofChar EOF
  by_cases hlt : c < 0x80
  · have hlt' : c.toNat < 128 := UInt8.lt_iff_toNat_lt.mp hlt
    rw [if_pos hlt]
    omega
  · rw [if_neg hlt]
    omega

section Sent

variable {malloc : Memory} {skipeof : Bool}

/-- A character is emitted; it counts unless `fputc` seems to fail. -/
lemma fputcInternal_of_takes {s : Printing} (h : s.stream.Takes) (c : UInt8) :
    (fputcInternal malloc skipeof c s).1.stream.Takes ∧
      (fputcInternal malloc skipeof c s).1.emitted = s.emitted ++ [c] ∧
      ((fputcInternal malloc skipeof c s).2 = true ↔ skipeof = true ∨ c ≠ eofChar) ∧
      ((fputcInternal malloc skipeof c s).2 = true →
        (fputcInternal malloc skipeof c s).1.bcount = s.bcount + 1) := by
  have hput := h.fputc (ofChar c) malloc
  unfold fputcInternal
  dsimp only
  rw [hput.2]
  by_cases heof : ofChar c = EOF ∧ skipeof = false
  · rw [if_pos heof]
    have hc := ofChar_eq_EOF.mp heof.1
    exact ⟨hput.1, rfl, by simp [heof.2, hc], by simp⟩
  · rw [if_neg heof]
    refine ⟨hput.1, rfl, ?_, fun _ => rfl⟩
    rw [ofChar_eq_EOF] at heof
    cases skipeof <;> simp_all

/-- All characters are emitted and counted, unless `fputc` seems to fail at one. -/
lemma putAll_fputcInternal {s : Printing} (h : s.stream.Takes) (text : List UInt8) :
    ((putAll (fputcInternal malloc skipeof) text s).2 = true ↔
        skipeof = true ∨ eofChar ∉ text) ∧
      ((putAll (fputcInternal malloc skipeof) text s).2 = true →
        (putAll (fputcInternal malloc skipeof) text s).1.emitted = s.emitted ++ text ∧
        (putAll (fputcInternal malloc skipeof) text s).1.bcount =
          s.bcount + UInt32.ofNat text.length) := by
  induction text generalizing s with
  | nil => simp [putAll]
  | cons c text ih =>
    rcases @fputcInternal_of_takes malloc skipeof s h c with
      ⟨htakes, hemitted, hok, hcount⟩
    rw [putAll]
    by_cases hput : (fputcInternal malloc skipeof c s).2 = true
    · rw [if_pos hput]
      rcases ih htakes with ⟨hall, hsent⟩
      have hc := hok.mp hput
      constructor
      · rw [hall, List.mem_cons]
        tauto
      · intro hrest
        rcases hsent hrest with ⟨hemit, hbcount⟩
        rw [hemit, hemitted, hbcount, hcount hput]
        constructor
        · rw [List.append_assoc, List.singleton_append]
        · rw [List.length_cons, UInt32.ofNat_add]
          grind
    · rw [if_neg hput]
      have hc : ¬(skipeof = true ∨ c ≠ eofChar) := fun hc => hput (hok.mpr hc)
      constructor
      · rw [List.mem_cons]
        tauto
      · intro htrue
        contradiction

end Sent

/-- What has been passed to `kputb` and what is in the buffer are the characters put so
far. -/
structure Kputb.Holds (s : Kputb) (put : List UInt8) : Prop where
  bcount : s.bcount ≤ VPRINTF_BUFSIZE
  inside : s.inside = true
  passed : (s.kputb s.bcount).passed = put
  charcount : s.charcount = UInt32.ofNat put.length

/-- After a flush there is room. -/
lemma Kputb.flush_bcount {s : Kputb} (h : s.bcount ≤ VPRINTF_BUFSIZE) :
    s.flush.bcount < VPRINTF_BUFSIZE := by
  unfold flush
  split_ifs with hfull
  · exact Nat.zero_lt_succ 79
  · exact Nat.lt_of_le_of_ne h hfull

/-- A flush loses nothing. -/
lemma Kputb.flush_passed (s : Kputb) :
    (s.flush.kputb s.flush.bcount).passed = (s.kputb s.bcount).passed := by
  unfold flush
  split_ifs with hfull
  · rw [hfull]
    exact List.append_nil _
  · rfl

/-- A flush stores nothing. -/
lemma Kputb.flush_inside (s : Kputb) : s.flush.inside = s.inside := by
  unfold flush
  split_ifs <;> rfl

/-- A flush counts nothing. -/
lemma Kputb.flush_charcount (s : Kputb) : s.flush.charcount = s.charcount := by
  unfold flush
  split_ifs <;> rfl

/-- A store adds its character. -/
lemma Kputb.store_passed (c : UInt8) (s : Kputb) :
    ((s.store c).kputb (s.store c).bcount).passed = (s.kputb s.bcount).passed ++ [c] := by
  change s.passed ++ (List.range (s.bcount + 1)).map (Function.update s.buffer s.bcount c) = _
  rw [map_update_range, ← List.append_assoc]
  rfl

/-- One character keeps the account. -/
lemma Kputb.Holds.countKputc {s : Kputb} {put : List UInt8} (h : s.Holds put) (c : UInt8) :
    (countKputc c s).1.Holds (put ++ [c]) := by
  unfold Libc.countKputc
  have hlt := @flush_bcount { s with charcount := s.charcount + 1 } h.bcount
  have hinside := flush_inside { s with charcount := s.charcount + 1 }
  have hpassed := flush_passed { s with charcount := s.charcount + 1 }
  have hcount := flush_charcount { s with charcount := s.charcount + 1 }
  generalize flush { s with charcount := s.charcount + 1 } = t at hlt hinside hpassed hcount ⊢
  constructor
  · exact hlt
  · simp [store, hinside, h.inside, hlt]
  · rw [store_passed, hpassed]
    exact congrArg (· ++ [c]) h.passed
  · rw [List.length_append, UInt32.ofNat_add, ← h.charcount]
    exact hcount

/-- Nothing is lost between two flushes. -/
theorem Kputb.Holds.putAll {s : Kputb} {put : List UInt8} (h : s.Holds put)
    (text : List UInt8) : (putAll Libc.countKputc text s).1.Holds (put ++ text) := by
  induction text generalizing s put with
  | nil => rwa [List.append_nil]
  | cons c text ih =>
    have hrest := ih (h.countKputc c)
    rwa [List.append_assoc, List.singleton_append] at hrest

/-! ## The two engines agree -/

/-- The number of characters of a field. -/
def Field.size (f : Field) : Nat :=
  max f.directive.width.toNat (f.chars.length + f.sign.length)

/-- A text is as long as its field says. -/
lemma Field.text_size (f : Field) : f.text.length = f.size := by
  have hsign : f.sign.length ≤ 1 := by
    unfold Field.sign
    split_ifs <;> simp
  rw [text_length]
  unfold Field.room Field.size
  omega

/-- The number of characters that a format prints. -/
def printedLength (string : UInt32 → List UInt8) (fmt : List UInt8) (ap : VaList) : Nat :=
  ((fields string fmt ap).map Field.size).sum

/-- A length survives the conversion to `int` up to `INT_MAX`. -/
lemma toInt_ofNat_iff (n : Nat) : toInt (UInt32.ofNat n) = n ↔ (n : Int) ≤ INT_MAX := by
  have hn : (UInt32.ofNat n).toNat = n % 4294967296 := UInt32.toNat_ofNat'
  have hmax : INT_MAX = 2147483647 := rfl
  unfold toInt
  by_cases hlt : UInt32.ofNat n < 0x80000000
  · have hlt' : (UInt32.ofNat n).toNat < 2147483648 := UInt32.lt_iff_toNat_lt.mp hlt
    rw [if_pos hlt]
    omega
  · have hge : 2147483648 ≤ (UInt32.ofNat n).toNat :=
      Nat.le_of_not_lt fun hlt' => hlt (UInt32.lt_iff_toNat_lt.mpr hlt')
    rw [if_neg hlt]
    omega

/-- The characters a format prints. -/
def printed (string : UInt32 → List UInt8) (fmt : List UInt8) (ap : VaList) : List UInt8 :=
  (fields string fmt ap).flatMap Field.text

/-- The characters printed are as many as the fields say. -/
lemma length_printed (string : UInt32 → List UInt8) (fmt : List UInt8) (ap : VaList) :
    (printed string fmt ap).length = printedLength string fmt ap := by
  unfold printed printedLength
  rw [List.length_flatMap]
  congr 1
  exact List.map_congr_left fun f _ => f.text_size

/-- `kvprintf` passes on the characters of the format. -/
lemma kvprintf_passed (string : UInt32 → List UInt8) (fmt : List UInt8) (ap : VaList) :
    (kvprintf string fmt ap).1.passed = printed string fmt ap ∧
      (kvprintf string fmt ap).1.inside = true ∧
      (kvprintf string fmt ap).2 = toInt (UInt32.ofNat (printed string fmt ap).length) := by
  have hstart : Kputb.Holds ⟨0, fun _ => 0, 0, [], true⟩ [] :=
    ⟨Nat.zero_le _, rfl, rfl, rfl⟩
  have hall := hstart.putAll (printed string fmt ap)
  unfold kvprintf
  rw [engine_eq]
  exact ⟨hall.passed, hall.inside, congrArg toInt hall.charcount⟩

/-- `formatted_printf` over the characters of the format. -/
lemma formattedPrintf_eq (string : UInt32 → List UInt8) (malloc : Memory) (stream : Stream)
    (fmt : List UInt8) (skipeof : Bool) (ap : VaList) :
    formattedPrintf string malloc stream fmt skipeof ap =
      ((putAll (fputcInternal malloc skipeof) (printed string fmt ap) ⟨stream, 0, []⟩).1,
        if (putAll (fputcInternal malloc skipeof) (printed string fmt ap) ⟨stream, 0, []⟩).2
        then toInt
          (putAll (fputcInternal malloc skipeof) (printed string fmt ap) ⟨stream, 0, []⟩).1.bcount
        else -1) := by
  unfold formattedPrintf
  rw [engine_eq]
  rfl

/-- `formatted_printf` emits them all, or fails at one taken for `EOF`. -/
lemma formattedPrintf_emitted (string : UInt32 → List UInt8) (malloc : Memory) {stream : Stream}
    (h : stream.Takes) (fmt : List UInt8) (skipeof : Bool) (ap : VaList) :
    (skipeof = true ∨ eofChar ∉ copied string fmt ap →
      (formattedPrintf string malloc stream fmt skipeof ap).1.emitted = printed string fmt ap ∧
      (formattedPrintf string malloc stream fmt skipeof ap).2 =
        toInt (UInt32.ofNat (printed string fmt ap).length)) ∧
      (¬(skipeof = true ∨ eofChar ∉ copied string fmt ap) →
        (formattedPrintf string malloc stream fmt skipeof ap).2 = -1) := by
  have hmem : eofChar ∈ printed string fmt ap ↔ eofChar ∈ copied string fmt ap :=
    copiedIn_mem string fmt.length ap fmt
  rcases @putAll_fputcInternal malloc skipeof ⟨stream, 0, []⟩ h
    (printed string fmt ap) with ⟨hok, hsent⟩
  rw [hmem] at hok
  rw [formattedPrintf_eq]
  constructor
  · intro hall
    have htrue := hok.mpr hall
    rcases hsent htrue with ⟨hemitted, hbcount⟩
    rw [if_pos htrue]
    refine ⟨hemitted, congrArg toInt (hbcount.trans ?_)⟩
    exact UInt32.zero_add _
  · intro hnot
    rw [if_neg fun htrue => hnot (hok.mp htrue)]

/-- Both engines put the same characters and return their number. -/
structure EnginesAgree (k : Kputb × Int) (f : Printing × Int) : Prop where
  characters : f.1.emitted = k.1.passed
  charcount : k.2 = k.1.passed.length
  bcount : f.2 = f.1.emitted.length

/-- The engines agree unless `fputc` seems to fail at a character or the number of
characters is none of an `int`. -/
theorem engines_agree_iff (string : UInt32 → List UInt8) (malloc : Memory) (stream : Stream)
    (h : stream.Takes) (fmt : List UInt8) (skipeof : Bool) (ap : VaList) :
    EnginesAgree (kvprintf string fmt ap) (formattedPrintf string malloc stream fmt skipeof ap) ↔
      (skipeof = true ∨ eofChar ∉ copied string fmt ap) ∧
        (printedLength string fmt ap : Int) ≤ INT_MAX := by
  rcases kvprintf_passed string fmt ap with ⟨hpassed, -, hcharcount⟩
  rcases formattedPrintf_emitted string malloc h fmt skipeof ap with ⟨hsent, hfailed⟩
  rw [← length_printed, ← toInt_ofNat_iff]
  constructor
  · intro hagree
    by_cases hall : skipeof = true ∨ eofChar ∉ copied string fmt ap
    · refine ⟨hall, ?_⟩
      rw [← hcharcount, hagree.charcount, hpassed]
    · have hlength := hagree.bcount
      rw [hfailed hall] at hlength
      omega
  · rintro ⟨hall, hcount⟩
    rcases hsent hall with ⟨hemitted, hbcount⟩
    constructor
    · rw [hemitted, hpassed]
    · rw [hcharcount, hpassed, hcount]
    · rw [hbcount, hemitted, hcount]

/-- `"%d\n"` with 42. -/
theorem engines_agree_number :
    EnginesAgree (kvprintf (fun _ => []) [percent, 'd'.toUInt8, newline] fun _ => 42)
      (formattedPrintf (fun _ => []) none (.opened 1 (writeFlags false) 0 fun _ => 0)
        [percent, 'd'.toUInt8, newline] false fun _ => 42) :=
  (engines_agree_iff (fun _ => []) none (.opened 1 (writeFlags false) 0 fun _ => 0)
    ⟨Int.zero_le_ofNat 1, rfl⟩ [percent, 'd'.toUInt8, newline] false fun _ => 42).mpr (by decide)

/-- The format `"\xFF"` is one character for `kvprintf` and a failure for
`formatted_printf`. -/
theorem engines_disagree_eofChar :
    ¬EnginesAgree (kvprintf (fun _ => []) [eofChar] fun _ => 0)
      (formattedPrintf (fun _ => []) none (.opened 1 (writeFlags false) 0 fun _ => 0)
        [eofChar] false fun _ => 0) := by
  intro hagree
  have hlength := hagree.bcount
  revert hlength
  decide

end DiegOS.Libc
