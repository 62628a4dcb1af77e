import DiegOS.Lib.Gregorian
import Mathlib.Tactic.IntervalCases

/-!
# From seconds to dates

`gmtime` counts the years and the months up to the given second, and asks Gauss's rule for
the day of the week.  Signed arithmetic that leaves its type is undefined; `int` and
`long` have 32 bits.

Main results:

- Theorem `IsCivil.unique`: a second is denoted by one date in normal form.
- Theorem `wday_eq`: Gauss's rule gives the day of the week.
- Theorem `gmtime_isCivil`: up to the end of 2067 the result is that date.
- Theorem `gmtime_undefined`: from 2068 on the count of the seconds leaves its type.
-/

namespace DiegOS.Libc

open Lib

abbrev YEAR0 : Int := 2000

abbrev EPOCH_YR : Int := 2015

abbrev EPOCH_SECS : Int := 473385600

abbrev SECS_HOUR : Int := 60 * 60

abbrev SECS_DAY : Int := 24 * SECS_HOUR

abbrev LONG_MAX : Int := 2147483647

/-- The values of `int`, which are those of `long`. -/
def InInt (x : Int) : Prop := -2147483648 ≤ x ∧ x ≤ LONG_MAX

instance (x : Int) : Decidable (InInt x) := inferInstanceAs (Decidable (_ ∧ _))

/-- The result of a signed operation, if it is defined. -/
def signed (x : Int) : Option Int := if InInt x then some x else none

/-- `struct tm`; the years count from `YEAR0`. -/
@[ext]
structure Tm where
  sec : Int
  min : Int
  hour : Int
  mday : Int
  mon : Int
  year : Int
  wday : Int
  yday : Int
  isdst : Int
deriving DecidableEq, Repr

/-- The codes that are stored in `errno`. -/
inductive TimeError
  | EINVAL | EOVERFLOW
deriving DecidableEq, Repr

def leapyear (year : Int) : Bool :=
  year.tmod 4 = 0 ∧ (year.tmod 100 ≠ 0 ∨ year.tmod 400 = 0)

def yearsize (year : Int) : Int := if leapyear year then 366 else 365

/-- `days_per_month`, by leap year. -/
def daysPerMonth : Bool → List Int
  | false => [31, 28, 31, 30, 31, 30, 31, 31, 30, 31, 30, 31]
  | true => [31, 29, 31, 30, 31, 30, 31, 31, 30, 31, 30, 31]

/-- `month_offset`, by leap year. -/
def monthOffset : Bool → List Int
  | false => [0, 3, 3, 6, 1, 4, 6, 2, 5, 0, 3, 5]
  | true => [0, 3, 4, 0, 2, 5, 0, 3, 6, 1, 4, 6]

/-- An access to an array, which is undefined outside of it. -/
def element {α : Type} (table : List α) (i : Int) : Option α :=
  if 0 ≤ i then table[i.toNat]? else none

def wday (year month day : Int) : Option Int := do
  let ofs ← element (monthOffset (leapyear year)) month
  let year := year - 1
  some ((day + ofs + 5 * year.tmod 4 + 4 * year.tmod 100 + 6 * year.tmod 400).tmod 7)

/-- What a counting loop of `convtime` leaves behind. -/
structure Count where
  counter : Int
  myvar : Int
  secy : Int

/-- `while (counter <= tmp)` over the years or the months, for at most so many rounds;
`size` is the length of one in days. -/
def countLoop (size : Int → Option Int) (tmp : Int) : Nat → Count → Option Count
  | 0, _ => none
  | n + 1, c =>
    if c.counter ≤ tmp then do
      let days ← size c.myvar
      let secy := days * SECS_DAY
      let counter ← signed (c.counter + secy)
      countLoop size tmp n ⟨counter, c.myvar + 1, secy⟩
    else some c

/-- `convtime`; the seconds are not negative. -/
def convtime (epoch : Int) : Option Tm := do
  let tmp := epoch
  let sec := tmp.tmod 60
  let min := (tmp.tmod SECS_HOUR).tdiv 60
  let hour := (tmp.tmod SECS_DAY).tdiv (60 * 60)
  let c ← countLoop (fun myvar => some (yearsize (YEAR0 + myvar))) tmp (tmp.toNat + 2) ⟨0, 0, 0⟩
  let year := if c.myvar ≠ 0 then c.myvar - 1 else c.myvar
  let counter := if c.counter ≠ tmp then c.counter - c.secy else c.counter
  let tmp := tmp - counter
  let yday := tmp.tdiv SECS_DAY
  let c ← countLoop (element (daysPerMonth (leapyear (YEAR0 + year)))) tmp (tmp.toNat + 2)
    ⟨0, 0, c.secy⟩
  let mon := if c.counter ≠ tmp then c.myvar - 1 else c.myvar
  let counter := if c.counter ≠ tmp then c.counter - c.secy else c.counter
  let tmp := tmp - counter
  let mday := tmp.tdiv SECS_DAY + 1
  let wday ← wday (YEAR0 + year) mon mday
  some ⟨sec, min, hour, mday, mon, year, wday, yday, -1⟩

/-- `gmtime`; a null pointer is an error. -/
def gmtime (timer : Option Int) : Option (Except TimeError Tm) :=
  match timer with
  | none => some (.error .EINVAL)
  | some timer => do
    let tmp ← signed (timer + EPOCH_SECS)
    if tmp < 0 then some (.error .EOVERFLOW)
    else do
      let retval ← convtime tmp
      some (.ok { retval with isdst := 0 })

/-! ## Dates -/

namespace Tm

/-- The month, counted over all years; the fields need not be in their ranges. -/
def month (tm : Tm) : Int := (YEAR0 + tm.year) * 12 + tm.mon

/-- The day in the calendar. -/
def day (tm : Tm) : Int := Gregorian.monthFirst tm.month + (tm.mday - 1)

/-- The second that a date denotes, from the start of `EPOCH_YR` on; summer time is an hour
ahead. -/
def instant (tm : Tm) : Int :=
  (((tm.day - Gregorian.yearStart EPOCH_YR) * 24 + tm.hour) * 60 + tm.min) * 60 + tm.sec -
    if 0 < tm.isdst then SECS_HOUR else 0

/-- The date and the time are in their ranges. -/
structure Ranged (tm : Tm) : Prop where
  sec : 0 ≤ tm.sec ∧ tm.sec < 60
  min : 0 ≤ tm.min ∧ tm.min < 60
  hour : 0 ≤ tm.hour ∧ tm.hour < 24
  mon : 0 ≤ tm.mon ∧ tm.mon < 12
  mday : 1 ≤ tm.mday ∧ tm.mday ≤ Gregorian.monthDays (YEAR0 + tm.year) tm.mon

/-- The day of the week and the day of the year are those of the date. -/
structure Normal (tm : Tm) : Prop extends tm.Ranged where
  wday : tm.wday = Gregorian.weekday tm.day
  yday : tm.yday = tm.day - Gregorian.yearStart (YEAR0 + tm.year)

end Tm

/-- The normal form of a second. -/
structure IsCivil (t : Int) (tm : Tm) : Prop extends tm.Normal where
  isdst : tm.isdst = 0
  instant : tm.instant = t

open Gregorian

variable {a b tm : Tm} {s t : Int}

namespace Tm

/-- The day is in its month. -/
lemma Ranged.day_mem (h : tm.Ranged) :
    monthFirst tm.month ≤ tm.day ∧ tm.day < monthFirst (tm.month + 1) := by
  have hmon := h.mon
  have hmday := h.mday
  rw [month, monthFirst_next _ hmon, day, month]
  omega

/-- Two normal forms of one second are equal. -/
lemma Normal.eq_of_instant (ha : a.Normal) (hb : b.Normal) (hisdst : a.isdst = b.isdst)
    (h : a.instant = b.instant) : a = b := by
  have hsec := ha.sec
  have hmin := ha.min
  have hhour := ha.hour
  have hmon := ha.mon
  have hsec' := hb.sec
  have hmin' := hb.min
  have hhour' := hb.hour
  have hmon' := hb.mon
  unfold instant at h
  rw [hisdst] at h
  have hday : a.day = b.day := by omega
  have hmem := hb.day_mem
  rw [← hday] at hmem
  have hmonth : a.month = b.month :=
    month_unique ha.day_mem.1 ha.day_mem.2 hmem.1 hmem.2
  have hmday : a.mday = b.mday := by
    unfold day at hday
    rw [hmonth] at hday
    omega
  unfold month at hmonth
  have hyear : a.year = b.year := by omega
  ext
  · omega
  · omega
  · omega
  · exact hmday
  · omega
  · exact hyear
  · rw [ha.wday, hb.wday, hday]
  · rw [ha.yday, hb.yday, hday, hyear]
  · exact hisdst

end Tm

/-- A second is denoted by one date in normal form. -/
theorem IsCivil.unique (ha : IsCivil t a) (hb : IsCivil t b) : a = b :=
  ha.toNormal.eq_of_instant hb.toNormal (ha.isdst.trans hb.isdst.symm)
    (ha.instant.trans hb.instant.symm)

/-! ## Tables -/

lemma leapyear_iff (year : Int) : leapyear year = true ↔ Leap year := by
  have hzero : ∀ n : Int, year.tmod n = 0 ↔ year % n = 0 := fun n =>
    Int.dvd_iff_tmod_eq_zero.symm.trans Int.dvd_iff_emod_eq_zero
  simp only [leapyear, Leap, hzero, ne_eq, decide_eq_true_eq]

lemma yearsize_eq (year : Int) : yearsize year = yearDays year := by
  unfold yearsize yearDays
  simp only [leapyear_iff]

lemma element_daysPerMonth (year : Int) {m : Nat} (hm : m < 12) :
    element (daysPerMonth (leapyear year)) m = some (monthDays year m) := by
  by_cases hleap : Leap year
  · rw [(leapyear_iff year).mpr hleap]
    simp only [monthDays, hleap, if_true]
    interval_cases m <;> rfl
  · rw [Bool.eq_false_iff.mpr (mt (leapyear_iff year).mp hleap)]
    simp only [monthDays, hleap, if_false]
    interval_cases m <;> rfl

/-- Gauss's offsets are the days before the month, up to whole weeks. -/
lemma element_monthOffset (year : Int) {m : Nat} (hm : m < 12) :
    element (monthOffset (leapyear year)) m = some (monthStart year m % 7) := by
  by_cases hleap : Leap year
  · rw [(leapyear_iff year).mpr hleap]
    interval_cases m <;> simp [monthStart, monthDays, hleap, element, monthOffset]
  · rw [Bool.eq_false_iff.mpr (mt (leapyear_iff year).mp hleap)]
    interval_cases m <;> simp [monthStart, monthDays, hleap, element, monthOffset]

/-- Gauss's rule gives the day of the week. -/
theorem wday_eq {year day : Int} {m : Nat} (hyear : 1 ≤ year) (hm : m < 12) (hday : 0 ≤ day) :
    wday year m day = some (weekday (yearStart year + monthStart year m + (day - 1))) := by
  have hfour : (year - 1).tmod 4 = (year - 1) % 4 := Int.tmod_eq_emod_of_nonneg (by omega)
  have hcentury : (year - 1).tmod 100 = (year - 1) % 100 := Int.tmod_eq_emod_of_nonneg (by omega)
  have hcycle : (year - 1).tmod 400 = (year - 1) % 400 := Int.tmod_eq_emod_of_nonneg (by omega)
  simp only [wday, element_monthOffset year hm, Option.bind_eq_bind, Option.bind_some, hfour,
    hcentury, hcycle]
  rw [Int.tmod_eq_emod_of_nonneg (by omega), weekday, yearStart]
  congr 1
  omega

/-! ## Counting -/

lemma SECS_DAY_eq : SECS_DAY = 86400 := rfl

lemma inInt_iff {x : Int} : InInt x ↔ -2147483648 ≤ x ∧ x ≤ 2147483647 := Iff.rfl

lemma signed_of_inInt {x : Int} (h : InInt x) : signed x = some x := if_pos h

lemma signed_of_not_inInt {x : Int} (h : ¬InInt x) : signed x = none := if_neg h

section Loops

variable {size : Int → Option Int} {pos : Nat → Int} {tmp : Int} {k : Nat}
variable (hsize : ∀ i ≤ k, size i = some (pos (i + 1) - pos i)) (hpos : StrictMono pos)
variable (hle : pos k * SECS_DAY ≤ tmp)

include hsize hpos hle

/-- One round goes on to the next year or month. -/
lemma countLoop_round {i : Nat} (hi : i ≤ k) (n : Nat) (secy : Int) :
    countLoop size tmp (n + 1) ⟨pos i * SECS_DAY, i, secy⟩ =
      (signed (pos (i + 1) * SECS_DAY)).bind fun counter =>
        countLoop size tmp n ⟨counter, (i + 1 : Nat), (pos (i + 1) - pos i) * SECS_DAY⟩ := by
  have hmono : pos i ≤ pos k := hpos.monotone hi
  have hsum : pos i * SECS_DAY + (pos (i + 1) - pos i) * SECS_DAY = pos (i + 1) * SECS_DAY := by
    rw [SECS_DAY_eq]
    omega
  have hreach : pos i * SECS_DAY ≤ tmp := by
    rw [SECS_DAY_eq] at hle ⊢
    omega
  rw [countLoop, if_pos hreach, hsize i hi]
  simp only [Option.bind_eq_bind, Option.bind_some, hsum, Int.natCast_add, Int.natCast_one]

/-- The loop goes one past the year or month of the second. -/
lemma countLoop_eq (hlt : tmp < pos (k + 1) * SECS_DAY)
    (hfit : ∀ i ≤ k, InInt (pos (i + 1) * SECS_DAY)) {n i : Nat} (secy : Int) (hi : i ≤ k)
    (hn : k + 2 ≤ i + n) :
    countLoop size tmp n ⟨pos i * SECS_DAY, i, secy⟩ =
      some ⟨pos (k + 1) * SECS_DAY, (k + 1 : Nat), (pos (k + 1) - pos k) * SECS_DAY⟩ := by
  induction n generalizing i secy with
  | zero => omega
  | succ n ih =>
    rw [countLoop_round hsize hpos hle hi, signed_of_inInt (hfit i hi), Option.bind_some]
    rcases Nat.eq_or_lt_of_le hi with rfl | hbefore
    · obtain ⟨n, rfl⟩ : ∃ m, n = m + 1 := ⟨n - 1, by omega⟩
      rw [countLoop, if_neg (Int.not_le.mpr hlt)]
    · exact ih _ hbefore (by omega)

/-- The sum leaves its type before the second is reached. -/
lemma countLoop_undefined (hfit : ¬InInt (pos (k + 1) * SECS_DAY)) (n : Nat) {i : Nat}
    (secy : Int) (hi : i ≤ k) : countLoop size tmp n ⟨pos i * SECS_DAY, i, secy⟩ = none := by
  induction n generalizing i secy with
  | zero => rfl
  | succ n ih =>
    rw [countLoop_round hsize hpos hle hi]
    rcases Nat.eq_or_lt_of_le hi with rfl | hbefore
    · rw [signed_of_not_inInt hfit]
      rfl
    · by_cases hnext : InInt (pos (i + 1) * SECS_DAY)
      · rw [signed_of_inInt hnext, Option.bind_some]
        exact ih _ hbefore
      · rw [signed_of_not_inInt hnext]
        rfl

end Loops

/-- The days from `YEAR0` to the years after it. -/
def yearPos (i : Nat) : Int := yearStart (YEAR0 + i) - yearStart YEAR0

lemma yearPos_succ (i : Nat) : yearPos (i + 1) = yearPos i + yearDays (YEAR0 + i) := by
  have hnext := yearStart_succ (YEAR0 + i)
  unfold yearPos
  rw [Int.natCast_add, Int.natCast_one, ← Int.add_assoc]
  omega

lemma yearPos_strictMono : StrictMono yearPos := by
  apply strictMono_nat_of_lt_succ
  intro i
  have hdays := yearDays_ge (YEAR0 + i)
  rw [yearPos_succ]
  omega

lemma some_yearsize (i : Nat) :
    some (yearsize (YEAR0 + i)) = some (yearPos (i + 1) - yearPos i) := by
  rw [yearPos_succ, yearsize_eq]
  congr 1
  omega

/-- The years from 2068 on start after the largest number. -/
lemma yearPos_limit : yearPos 68 * SECS_DAY = 2145916800 := by decide

/-- The years up to a second before 2068. -/
lemma years_counted (hs : 0 ≤ s) (hlast : s < 2145916800) :
    ∃ k : Nat, yearPos k * SECS_DAY ≤ s ∧ s < yearPos (k + 1) * SECS_DAY ∧
      countLoop (fun myvar => some (yearsize (YEAR0 + myvar))) s (s.toNat + 2) ⟨0, 0, 0⟩ =
        some ⟨yearPos (k + 1) * SECS_DAY, (k + 1 : Nat),
          (yearPos (k + 1) - yearPos k) * SECS_DAY⟩ := by
  have hday : yearPos 0 ≤ s / 86400 := by
    change 0 ≤ s / 86400
    omega
  obtain ⟨k, hfirst, hnext⟩ := exists_position yearPos_strictMono hday
  have hlimit := yearPos_limit
  have hgrow := add_le_of_strictMono yearPos_strictMono k
  have hstart : yearPos 0 = 0 := rfl
  have hle : yearPos k * SECS_DAY ≤ s := by
    rw [SECS_DAY_eq]
    omega
  have hlt : s < yearPos (k + 1) * SECS_DAY := by
    rw [SECS_DAY_eq]
    omega
  rw [SECS_DAY_eq] at hlimit
  have hk : k < 68 := by
    by_contra hlate
    have hmono := yearPos_strictMono.monotone (Nat.le_of_not_lt hlate)
    omega
  have hfit : ∀ i ≤ k, InInt (yearPos (i + 1) * SECS_DAY) := by
    intro i hi
    have hmono : yearPos (i + 1) ≤ yearPos 68 := yearPos_strictMono.monotone (by omega)
    have hpos : yearPos 0 ≤ yearPos (i + 1) := yearPos_strictMono.monotone (Nat.zero_le _)
    rw [inInt_iff, SECS_DAY_eq]
    omega
  refine ⟨k, hle, hlt, ?_⟩
  exact countLoop_eq (fun i _ => some_yearsize i) yearPos_strictMono hle hlt hfit 0
    (Nat.zero_le k) (by omega)

/-- The months up to a second of a year. -/
lemma months_counted (year : Int) (hs : 0 ≤ s) (hlast : s < yearDays year * SECS_DAY)
    (secy : Int) :
    ∃ m : Nat, m < 12 ∧ monthStart year m * SECS_DAY ≤ s ∧
      s < monthStart year (m + 1) * SECS_DAY ∧
      countLoop (element (daysPerMonth (leapyear year))) s (s.toNat + 2) ⟨0, 0, secy⟩ =
        some ⟨monthStart year (m + 1) * SECS_DAY, (m + 1 : Nat),
          (monthStart year (m + 1) - monthStart year m) * SECS_DAY⟩ := by
  have hday : monthStart year 0 ≤ s / 86400 := by
    change 0 ≤ s / 86400
    omega
  obtain ⟨m, hfirst, hnext⟩ := exists_position (monthStart_strictMono year) hday
  have hgrow := monthStart_ge year m
  have hle : monthStart year m * SECS_DAY ≤ s := by
    rw [SECS_DAY_eq]
    omega
  have hlt : s < monthStart year (m + 1) * SECS_DAY := by
    rw [SECS_DAY_eq]
    omega
  rw [← monthStart_twelve, SECS_DAY_eq] at hlast
  have hm : m < 12 := by
    by_contra hlate
    have hmono := (monthStart_strictMono year).monotone (Nat.le_of_not_lt hlate)
    omega
  have hsize : ∀ i ≤ m, element (daysPerMonth (leapyear year)) i =
      some (monthStart year (i + 1) - monthStart year i) := by
    intro i hi
    rw [element_daysPerMonth year (by omega), monthStart]
    congr 1
    omega
  have hfit : ∀ i ≤ m, InInt (monthStart year (i + 1) * SECS_DAY) := by
    intro i hi
    have hmono : monthStart year (i + 1) ≤ monthStart year 12 :=
      (monthStart_strictMono year).monotone (by omega)
    have hpos := monthStart_ge year (i + 1)
    have hyear := yearDays_le year
    rw [monthStart_twelve] at hmono
    rw [inInt_iff, SECS_DAY_eq]
    omega
  refine ⟨m, hm, hle, hlt, ?_⟩
  exact countLoop_eq hsize (monthStart_strictMono year) hle hlt hfit secy (Nat.zero_le m)
    (by omega)

/-- The date of a day in a month, at a second. -/
def dateOf (year : Int) (m : Nat) (d s : Int) : Tm :=
  ⟨s % 60, s % 3600 / 60, s % 86400 / 3600, d + 1, m, year,
    weekday (yearStart (YEAR0 + year) + monthStart (YEAR0 + year) m + d),
    monthStart (YEAR0 + year) m + d, -1⟩

lemma dateOf_day (year d s : Int) {m : Nat} (hm : m < 12) :
    (dateOf year m d s).day = yearStart (YEAR0 + year) + monthStart (YEAR0 + year) m + d := by
  have hfirst := monthFirst_of_lt (YEAR0 + year) hm
  rw [Tm.day, Tm.month]
  change monthFirst ((YEAR0 + year) * 12 + m) + (d + 1 - 1) = _
  omega

lemma dateOf_normal {year d : Int} {m : Nat} (s : Int) (hm : m < 12) (hd : 0 ≤ d)
    (hd' : d < monthDays (YEAR0 + year) m) : (dateOf year m d s).Normal where
  sec := ⟨Int.emod_nonneg s (by decide), Int.emod_lt_of_pos s (by decide)⟩
  min := by
    change 0 ≤ s % 3600 / 60 ∧ s % 3600 / 60 < 60
    omega
  hour := by
    change 0 ≤ s % 86400 / 3600 ∧ s % 86400 / 3600 < 24
    omega
  mon := by
    change 0 ≤ (m : Int) ∧ (m : Int) < 12
    omega
  mday := ⟨Int.le_add_of_nonneg_left hd, hd'⟩
  wday := by
    rw [dateOf_day year d s hm]
    rfl
  yday := by
    rw [dateOf_day year d s hm]
    change monthStart (YEAR0 + year) m + d = _ - yearStart (YEAR0 + year)
    omega

lemma dateOf_instant (year d s : Int) {m : Nat} (hm : m < 12) :
    (dateOf year m d s).instant =
      (yearStart (YEAR0 + year) + monthStart (YEAR0 + year) m + d - yearStart EPOCH_YR) * 86400 +
        s % 86400 := by
  rw [Tm.instant, dateOf_day year d s hm]
  change ((_ * 24 + s % 86400 / 3600) * 60 + s % 3600 / 60) * 60 + s % 60 - 0 = _
  omega

/-- `convtime` yields the date of a second before 2068. -/
lemma convtime_normal (hs : 0 ≤ s) (hlast : s < 2145916800) :
    ∃ tm, convtime s = some tm ∧ tm.Normal ∧ tm.isdst = -1 ∧ tm.instant = s - EPOCH_SECS := by
  obtain ⟨k, hyear, hyear', hyears⟩ := years_counted hs hlast
  have hrest : s - yearPos k * SECS_DAY < yearDays (YEAR0 + k) * SECS_DAY := by
    rw [yearPos_succ] at hyear'
    rw [SECS_DAY_eq] at hyear hyear' ⊢
    omega
  obtain ⟨m, hm, hmonth, hmonth', hmonths⟩ := months_counted (YEAR0 + k) (by omega) hrest
    ((yearPos (k + 1) - yearPos k) * SECS_DAY)
  have hback : yearPos (k + 1) * SECS_DAY - (yearPos (k + 1) - yearPos k) * SECS_DAY =
      yearPos k * SECS_DAY := by
    rw [SECS_DAY_eq]
    omega
  have hback' : monthStart (YEAR0 + k) (m + 1) * SECS_DAY -
      (monthStart (YEAR0 + k) (m + 1) - monthStart (YEAR0 + k) m) * SECS_DAY =
        monthStart (YEAR0 + k) m * SECS_DAY := by
    rw [SECS_DAY_eq]
    omega
  have hk : ((k + 1 : Nat) : Int) - 1 = k := by omega
  have hm' : ((m + 1 : Nat) : Int) - 1 = m := by omega
  have hwday : ∀ d : Int, 0 ≤ d → wday (YEAR0 + k) m (d + 1) =
      some (weekday (yearStart (YEAR0 + k) + monthStart (YEAR0 + k) m + d)) := by
    intro d hd
    rw [wday_eq (Int.le_trans (by decide) (Int.le_add_of_nonneg_right (Int.natCast_nonneg k))) hm
      (by omega), Int.add_sub_cancel]
  -- what is left of the second in its month
  let rest := s - yearPos k * SECS_DAY - monthStart (YEAR0 + k) m * SECS_DAY
  have hnonneg : 0 ≤ rest := by omega
  have hd : rest < monthDays (YEAR0 + k) m * SECS_DAY := by
    rw [monthStart, SECS_DAY_eq] at hmonth'
    simp only [rest, SECS_DAY_eq] at hmonth' ⊢
    omega
  have hyday : (s - yearPos k * SECS_DAY) / SECS_DAY =
      monthStart (YEAR0 + k) m + rest / SECS_DAY := by
    simp only [rest, SECS_DAY_eq]
    omega
  have hrun : convtime s = some (dateOf k m (rest / SECS_DAY) s) := by
    simp only [convtime, hyears, Option.bind_eq_bind, Option.bind_some]
    rw [if_pos (by omega), if_pos (Int.ne_of_gt hyear'), hback, hk, hmonths, Option.bind_some,
      if_pos (Int.ne_of_gt hmonth'), if_pos (Int.ne_of_gt hmonth'), hback', hm',
      Int.tdiv_eq_ediv_of_nonneg hnonneg, hwday _ (Int.ediv_nonneg hnonneg (by decide)),
      Option.bind_some, Int.tmod_eq_emod_of_nonneg hs, Int.tmod_eq_emod_of_nonneg hs,
      Int.tmod_eq_emod_of_nonneg hs, Int.tdiv_eq_ediv_of_nonneg (Int.emod_nonneg s (by decide)),
      Int.tdiv_eq_ediv_of_nonneg (Int.emod_nonneg s (by decide)),
      Int.tdiv_eq_ediv_of_nonneg (by omega), hyday]
    rfl
  have hinMonth : rest / SECS_DAY < monthDays (YEAR0 + k) m := by
    rw [SECS_DAY_eq] at hd ⊢
    omega
  refine ⟨_, hrun, dateOf_normal s hm (Int.ediv_nonneg hnonneg (by decide)) hinMonth, rfl, ?_⟩
  rw [dateOf_instant k _ s hm]
  have hepoch : (yearStart EPOCH_YR - yearStart YEAR0) * 86400 = EPOCH_SECS := by decide
  simp only [rest, yearPos, SECS_DAY_eq]
  omega

/-- From 2068 on the seconds of the years are more than a `long` holds. -/
lemma convtime_undefined (hs : 2145916800 ≤ s) : convtime s = none := by
  have hlimit := yearPos_limit
  have hle : yearPos 68 * SECS_DAY ≤ s := by
    rw [hlimit]
    exact hs
  have hfit : ¬InInt (yearPos (68 + 1) * SECS_DAY) := by decide
  have hyears : countLoop (fun myvar => some (yearsize (YEAR0 + myvar))) s (s.toNat + 2)
      ⟨0, 0, 0⟩ = none :=
    countLoop_undefined (fun i _ => some_yearsize i) yearPos_strictMono hle hfit _ 0
      (Nat.zero_le 68)
  simp only [convtime, hyears, Option.bind_eq_bind, Option.bind_none]

/-! ## Dates of seconds -/

/-- Up to the end of 2067 the result is the date of the second. -/
theorem gmtime_isCivil (hfirst : 0 ≤ t + EPOCH_SECS) (hlast : t + EPOCH_SECS < 2145916800) :
    ∃ tm, gmtime (some t) = some (.ok tm) ∧ IsCivil t tm := by
  have hfit : InInt (t + EPOCH_SECS) := by
    rw [inInt_iff]
    omega
  obtain ⟨tm, hrun, hnormal, hisdst, hinstant⟩ := convtime_normal hfirst hlast
  refine ⟨{ tm with isdst := 0 }, ?_, ⟨⟨⟨hnormal.sec, hnormal.min, hnormal.hour, hnormal.mon,
    hnormal.mday⟩, hnormal.wday, hnormal.yday⟩, rfl, ?_⟩⟩
  · simp only [gmtime, signed_of_inInt hfit, hrun, Option.bind_eq_bind, Option.bind_some]
    rw [if_neg (Int.not_lt.mpr hfirst)]
  · have hsame : ({ tm with isdst := 0 } : Tm).instant = tm.instant := by
      rw [Tm.instant, Tm.instant, hisdst]
      rfl
    rw [hsame, hinstant]
    omega

/-- From 2068 on there is no result. -/
theorem gmtime_undefined (h : 2145916800 ≤ t + EPOCH_SECS) : gmtime (some t) = none := by
  by_cases hfit : InInt (t + EPOCH_SECS)
  · simp only [gmtime, signed_of_inInt hfit, convtime_undefined h, Option.bind_eq_bind,
      Option.bind_some, Option.bind_none]
    rw [if_neg (by omega)]
  · simp only [gmtime, signed_of_not_inInt hfit, Option.bind_eq_bind, Option.bind_none]

end DiegOS.Libc
