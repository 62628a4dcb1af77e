import DiegOS.Libc.Gmtime

/-!
# From dates to seconds

`mktime` brings the fields of a date into their ranges, counts the days by formulas for the
leap days and adds the time.  A failure before that leaves the date as it was.

Main results:

- Theorem `settle_eq`: the fields are brought into their ranges for the same second.
- Theorem `daysTo_eq`: the formulas count the days of the calendar.
- Theorem `mktime_eq`: the second and the normal form of an accepted date.
- Theorem `calendar_iff`: which seconds and which dates make the round trip.
-/

namespace DiegOS.Libc

open Lib Gregorian

/-- `struct timezones`, with the offsets in minutes. -/
structure Timezones where
  nt : String
  dst : String
  tz : Int
  dstofs : Int

def tzlist : List Timezones :=
  [⟨"UTC", "BST", 0, 60⟩, ⟨"CET", "CEST", -60, 60⟩, ⟨"EET", "EEST", -120, 60⟩,
    ⟨"WET", "WEST", 0, 60⟩]

/-- `timezone`, `dst_off` and `daylight`, with `tzname` if it is set. -/
structure Zone where
  timezone : Int
  dstOff : Int
  daylight : Int
  tzname : Option (String × String)

/-- The zone that the library starts in, before or after a call that sets the names. -/
def utc (tzname : Option (String × String)) : Zone := ⟨0, 60 * 60, 0, tzname⟩

/-- `tzset`; `timezone` is first a position in the list and then its offset. -/
def tzset (zone : Zone) : Option Zone := do
  let entry ← element tzlist zone.timezone
  let timezone := entry.tz * 60
  let next ← element tzlist timezone
  some ⟨timezone, next.dstofs * 60, zone.daylight, some (entry.nt, entry.dst)⟩

/-- A field and the one above it. -/
structure Carried where
  low : Int
  high : Int

/-- `high += low / n; low %= n; if (low < 0) ...` -/
def carry (n low high : Int) : Option Carried := do
  let high ← signed (high + low.tdiv n)
  let low := low.tmod n
  if low < 0 then do
    let high ← signed (high - 1)
    some ⟨low + n, high⟩
  else some ⟨low, high⟩

/-- The variables of the loops over the days: `day`, `copy.tm_mon` and
`copy.tm_year`. -/
structure DayCount where
  day : Int
  mon : Int
  year : Int

/-- `while (day < 0)`, for at most so many rounds. -/
def borrowLoop : Nat → DayCount → Option DayCount
  | 0, _ => none
  | n + 1, d =>
    if d.day < 0 then do
      let mon := if d.mon - 1 < 0 then 11 else d.mon - 1
      let year ← if d.mon - 1 < 0 then signed (d.year - 1) else some d.year
      let full ← signed (YEAR0 + year)
      let size ← element (daysPerMonth (leapyear full)) mon
      borrowLoop n ⟨d.day + size, mon, year⟩
    else some d

/-- `while (day >= days_per_month[...][...])`, for at most so many rounds. -/
def carryLoop : Nat → DayCount → Option DayCount
  | 0, _ => none
  | n + 1, d => do
    let full ← signed (YEAR0 + d.year)
    let size ← element (daysPerMonth (leapyear full)) d.mon
    if size ≤ d.day then do
      let mon := if d.mon + 1 = 12 then 0 else d.mon + 1
      let year ← if d.mon + 1 = 12 then signed (d.year + 1) else some d.year
      carryLoop n ⟨d.day - size, mon, year⟩
    else some d

/-- `mktime` up to `copy.tm_mday = day + 1`. -/
def settle (tm : Tm) : Option Tm := do
  let min ← carry 60 tm.sec tm.min
  let hour ← carry 60 min.high tm.hour
  let day ← carry 24 hour.high 0
  let mon ← carry 12 tm.mon tm.year
  let mday ← signed (tm.mday - 1)
  let first ← signed (day.high + mday)
  let d ← borrowLoop (first.natAbs + 1) ⟨first, mon.low, mon.high⟩
  let d ← carryLoop (d.day.natAbs + 1) d
  some { tm with sec := min.low, min := hour.low, hour := day.low, mday := d.day + 1,
                 mon := d.mon, year := d.year }

/-- One if `tm_year` is after a multiple of `n` but before `EPOCH_YR` is. -/
def part (tmYear n : Int) : Int :=
  if tmYear.tmod n ≠ 0 ∧ tmYear.tmod n < EPOCH_YR.tmod n then 1 else 0

/-- The days from the epoch to the start of `tm_year`; an error is `goto overflow`. -/
def daysTo (tmYear : Int) : Option (Except TimeError Int) := do
  let years ← signed (tmYear - EPOCH_YR)
  if LONG_MAX.tdiv 365 < years then some (.error .EOVERFLOW)
  else do
    let day ← signed (years * 365)
    let room ← signed (LONG_MAX - day)
    if room < years.tdiv 4 + 1 then some (.error .EOVERFLOW)
    else do
      let day ← signed (day + (years.tdiv 4 + part tmYear 4))
      let day ← signed (day - (years.tdiv 100 + part tmYear 100))
      let day ← signed (day + (years.tdiv 400 + part tmYear 400))
      some (.ok day)

/-- `yday` after so many rounds of `while (month < copy.tm_mon)`. -/
def ydayLoop (tmYear : Int) : Nat → Option Int
  | 0 => some 0
  | month + 1 => do
    let yday ← ydayLoop tmYear month
    let size ← element (daysPerMonth (leapyear tmYear)) month
    some (yday + size)

/-- `mktime` from the seconds since the epoch on, for the zone. -/
def adjust (zone : Zone) (copy : Tm) (seconds : Int) : Except TimeError (Int × Tm) :=
  if (0 < zone.timezone ∧ LONG_MAX - zone.timezone < seconds) ∨
      (zone.timezone < 0 ∧ seconds < -zone.timezone) then .error .EOVERFLOW
  else
    let seconds := seconds + zone.timezone
    let isdst := if copy.isdst < 0 then zone.daylight else copy.isdst
    let dst :=
      if 0 < copy.isdst then zone.dstOff
      else if copy.isdst = 0 then 0
      else if zone.daylight ≠ 0 then zone.dstOff
      else 0
    if seconds < dst then .error .EOVERFLOW
    else .ok (seconds - dst, { copy with isdst := isdst })

/-- `mktime` behind `tzset`. -/
def count (zone : Zone) (copy : Tm) : Option (Except TimeError (Int × Tm)) := do
  let tmYear ← signed (copy.year + YEAR0)
  match ← daysTo tmYear with
  | .error e => some (.error e)
  | .ok day => do
    let months ← ydayLoop tmYear copy.mon.toNat
    let yday := months + (copy.mday - 1)
    let day ← signed (day + yday)
    if day < 0 then some (.error .EOVERFLOW)
    else do
      let fourth ← signed (day + 4)
      let copy := { copy with yday := yday, wday := fourth.tmod 7 }
      let seconds := (copy.hour * 60 + copy.min) * 60 + copy.sec
      if (LONG_MAX - seconds).tdiv SECS_DAY < day then some (.error .EOVERFLOW)
      else some (adjust zone copy (seconds + day * SECS_DAY))

/-- What a call of `mktime` returns and leaves behind. -/
structure MktimeResult where
  time : Int
  timeptr : Option Tm
  zone : Zone
  errno : Option TimeError

/-- `mktime`; a null pointer is none. -/
def mktime (zone : Zone) (timeptr : Option Tm) : Option MktimeResult :=
  match timeptr with
  | none => some ⟨-1, none, zone, none⟩
  | some tm =>
    if tm.year < EPOCH_YR - YEAR0 then some ⟨-1, some tm, zone, none⟩
    else do
      let copy ← settle tm
      let zone ← tzset zone
      match ← count zone copy with
      | .error e => some ⟨-1, some tm, zone, some e⟩
      | .ok result => some ⟨result.1, some result.2, zone, none⟩

lemma YEAR0_eq : YEAR0 = 2000 := rfl

lemma EPOCH_YR_eq : EPOCH_YR = 2015 := rfl

/-! ## Carries -/

/-- Neither the rounded nor the exact carry leaves the type of the field above. -/
def CarryFits (n low high : Int) : Prop := InInt (high + low.tdiv n) ∧ InInt (high + low / n)

instance (n low high : Int) : Decidable (CarryFits n low high) :=
  inferInstanceAs (Decidable (_ ∧ _))

variable {n low high day : Int} {tm copy : Tm} {d : DayCount}

lemma tdiv_eq_of_neg (hn : 0 < n) (h : low.tmod n < 0) : low.tdiv n = low / n + 1 := by
  have hnot : ¬(0 ≤ low ∨ n ∣ low) := by
    intro hexact
    rw [Int.tmod_eq_emod, if_pos hexact] at h
    have hnonneg := Int.emod_nonneg low (Int.ne_of_gt hn)
    omega
  rw [Int.tdiv_eq_ediv, if_neg hnot, Int.sign_eq_one_of_pos hn]

lemma tdiv_eq_of_nonneg (hn : 0 < n) (h : 0 ≤ low.tmod n) : low.tdiv n = low / n := by
  have hexact : 0 ≤ low ∨ n ∣ low := by
    by_contra hnot
    rw [Int.tmod_eq_emod, if_neg hnot] at h
    have hlt := Int.emod_lt_of_pos low hn
    omega
  rw [Int.tdiv_eq_ediv, if_pos hexact, Int.add_zero]

/-- The remainder is brought above zero at the cost of the field above. -/
lemma carry_eq (hn : 0 < n) (h : CarryFits n low high) :
    carry n low high = some ⟨low % n, high + low / n⟩ := by
  have hsplit := Int.mul_tdiv_add_tmod low n
  have hexact := Int.mul_ediv_add_emod low n
  simp only [carry, signed_of_inInt h.1, Option.bind_eq_bind, Option.bind_some]
  by_cases hneg : low.tmod n < 0
  · have hquotient := tdiv_eq_of_neg hn hneg
    have hhigh : high + low.tdiv n - 1 = high + low / n := by omega
    have hlow : low.tmod n + n = low % n := by
      rw [hquotient, Int.mul_add, Int.mul_one] at hsplit
      omega
    rw [if_pos hneg, hhigh, signed_of_inInt h.2, hlow, Option.bind_some]
  · have hquotient := tdiv_eq_of_nonneg hn (Int.not_lt.mp hneg)
    have hlow : low.tmod n = low % n := by
      rw [hquotient] at hsplit
      omega
    rw [if_neg hneg, hquotient, hlow]

lemma carry_undefined (hn : 0 < n) (h : ¬CarryFits n low high) : carry n low high = none := by
  by_cases hfirst : InInt (high + low.tdiv n)
  · have hsecond : ¬InInt (high + low / n) := fun hexact => h ⟨hfirst, hexact⟩
    have hneg : low.tmod n < 0 := by
      by_contra hnonneg
      rw [tdiv_eq_of_nonneg hn (Int.not_lt.mp hnonneg)] at hfirst
      exact hsecond hfirst
    have hhigh : high + low.tdiv n - 1 = high + low / n := by
      rw [tdiv_eq_of_neg hn hneg]
      omega
    simp only [carry, signed_of_inInt hfirst, Option.bind_eq_bind, Option.bind_some]
    rw [if_pos hneg, hhigh, signed_of_not_inInt hsecond, Option.bind_none]
  · simp only [carry, signed_of_not_inInt hfirst, Option.bind_eq_bind, Option.bind_none]

/-! ## Days and months -/

/-- The loops over the days are at a day, in a year for which there is room. -/
structure DayCount.At (d : DayCount) (day : Int) : Prop where
  mon : 0 ≤ d.mon ∧ d.mon < 12
  year : -100000000 ≤ d.year ∧ d.year ≤ 100000000
  day : monthFirst ((YEAR0 + d.year) * 12 + d.mon) + d.day = day

lemma element_of_range {year mon : Int} (hmon : 0 ≤ mon ∧ mon < 12) :
    element (daysPerMonth (leapyear year)) mon = some (monthDays year mon) := by
  have hcast : ((mon.toNat : Nat) : Int) = mon := Int.toNat_of_nonneg hmon.1
  rw [← hcast]
  exact element_daysPerMonth year (by omega)

lemma exists_mon_year (k : Int) :
    ∃ mon year : Int, (0 ≤ mon ∧ mon < 12) ∧ (YEAR0 + year) * 12 + mon = k :=
  ⟨k % 12, k / 12 - YEAR0, by omega, by omega⟩

/-- A round backwards goes to the month before. -/
lemma borrowLoop_round {mon year : Int} (hneg : d.day < 0) (hmon : 0 ≤ d.mon ∧ d.mon < 12)
    (hmon' : 0 ≤ mon ∧ mon < 12)
    (hstep : (YEAR0 + d.year) * 12 + d.mon = (YEAR0 + year) * 12 + mon + 1)
    (hyear : InInt year) (hfull : InInt (YEAR0 + year)) (n : Nat) :
    borrowLoop (n + 1) d = borrowLoop n ⟨d.day + monthDays (YEAR0 + year) mon, mon, year⟩ := by
  rw [borrowLoop, if_pos hneg]
  by_cases hjanuary : d.mon - 1 < 0
  · have hyear' : d.year - 1 = year := by omega
    have hdecember : mon = 11 := by omega
    simp only [hyear', hjanuary, if_true, signed_of_inInt hyear, signed_of_inInt hfull,
      Option.bind_eq_bind, Option.bind_some]
    rw [← hdecember, element_of_range hmon', Option.bind_some]
  · have hyear' : d.year = year := by omega
    have hbefore : d.mon - 1 = mon := by omega
    simp only [hyear', hjanuary, if_false, signed_of_inInt hfull, Option.bind_eq_bind,
      Option.bind_some]
    rw [hbefore, element_of_range hmon', Option.bind_some]

/-- A round forwards goes to the month after. -/
lemma carryLoop_round {mon year : Int} (hmon : 0 ≤ d.mon ∧ d.mon < 12)
    (hlong : monthDays (YEAR0 + d.year) d.mon ≤ d.day) (hmon' : 0 ≤ mon ∧ mon < 12)
    (hstep : (YEAR0 + year) * 12 + mon = (YEAR0 + d.year) * 12 + d.mon + 1)
    (hyear : InInt year) (hfull : InInt (YEAR0 + d.year)) (n : Nat) :
    carryLoop (n + 1) d =
      carryLoop n ⟨d.day - monthDays (YEAR0 + d.year) d.mon, mon, year⟩ := by
  simp only [carryLoop, signed_of_inInt hfull, element_of_range hmon, Option.bind_eq_bind,
    Option.bind_some]
  rw [if_pos hlong]
  by_cases hdecember : d.mon + 1 = 12
  · have hyear' : d.year + 1 = year := by omega
    have hjanuary : mon = 0 := by omega
    simp only [hdecember, if_true, hyear', signed_of_inInt hyear, hjanuary, Option.bind_some]
  · have hyear' : d.year = year := by omega
    have hafter : d.mon + 1 = mon := by omega
    rw [hafter] at hdecember
    simp only [hafter, hdecember, if_false, hyear']

/-- The loop backwards ends at the day. -/
lemma borrowLoop_at (hday : yearStart EPOCH_YR ≤ day) {n : Nat} (h : d.At day)
    (hn : (-d.day).toNat < n) : ∃ d', borrowLoop n d = some d' ∧ d'.At day ∧ 0 ≤ d'.day := by
  induction n generalizing d with
  | zero => omega
  | succ n ih =>
    by_cases hneg : d.day < 0
    · have hmon := h.mon
      have hyear := h.year
      have hat := h.day
      have hyear0 := YEAR0_eq
      have hepoch := EPOCH_YR_eq
      -- a month that starts after the day is not the first one of the epoch
      have hlate : EPOCH_YR * 12 < (YEAR0 + d.year) * 12 + d.mon := by
        rw [← monthFirst_strictMono.lt_iff_lt, monthFirst_january]
        omega
      obtain ⟨mon, year, hmon', hmonth⟩ := exists_mon_year ((YEAR0 + d.year) * 12 + d.mon - 1)
      have hstep : (YEAR0 + d.year) * 12 + d.mon = (YEAR0 + year) * 12 + mon + 1 := by omega
      have hyear' : -100000000 ≤ year ∧ year ≤ 100000000 := by omega
      have hfit : InInt year ∧ InInt (YEAR0 + year) := by
        rw [inInt_iff, inInt_iff]
        omega
      have hnext := monthFirst_next (YEAR0 + year) hmon'
      rw [← hstep] at hnext
      have hsize := monthDays_ge (YEAR0 + year) mon
      have hat' : monthFirst ((YEAR0 + year) * 12 + mon) +
          (d.day + monthDays (YEAR0 + year) mon) = day := by omega
      rw [borrowLoop_round hneg hmon hmon' hstep hfit.1 hfit.2]
      have hnew : DayCount.At ⟨d.day + monthDays (YEAR0 + year) mon, mon, year⟩ day :=
        ⟨hmon', hyear', hat'⟩
      have hless : (-(d.day + monthDays (YEAR0 + year) mon)).toNat < n := by omega
      exact ih hnew hless
    · exact ⟨d, by rw [borrowLoop, if_neg hneg], h, Int.not_lt.mp hneg⟩

/-- The loop forwards ends at the day, in its month. -/
lemma carryLoop_at (hday : day < yearStart 2100) {n : Nat} (h : d.At day)
    (hnonneg : 0 ≤ d.day) (hn : d.day.toNat < n) :
    ∃ d', carryLoop n d = some d' ∧ d'.At day ∧ 0 ≤ d'.day ∧
      d'.day < monthDays (YEAR0 + d'.year) d'.mon := by
  induction n generalizing d with
  | zero => omega
  | succ n ih =>
    have hmon := h.mon
    have hyear := h.year
    have hat := h.day
    have hyear0 := YEAR0_eq
    have hfull : InInt (YEAR0 + d.year) := by
      rw [inInt_iff]
      omega
    by_cases hlong : monthDays (YEAR0 + d.year) d.mon ≤ d.day
    · have hnext := monthFirst_next (YEAR0 + d.year) hmon
      have hsize := monthDays_ge (YEAR0 + d.year) d.mon
      -- the next month does not start after the day
      have hearly : (YEAR0 + d.year) * 12 + d.mon + 1 < 2100 * 12 := by
        rw [← monthFirst_strictMono.lt_iff_lt, monthFirst_january]
        omega
      obtain ⟨mon, year, hmon', hstep⟩ := exists_mon_year ((YEAR0 + d.year) * 12 + d.mon + 1)
      have hyear' : -100000000 ≤ year ∧ year ≤ 100000000 := by omega
      have hfit : InInt year := by
        rw [inInt_iff]
        omega
      have hat' : monthFirst ((YEAR0 + year) * 12 + mon) +
          (d.day - monthDays (YEAR0 + d.year) d.mon) = day := by
        rw [hstep]
        omega
      rw [carryLoop_round hmon hlong hmon' hstep hfit hfull]
      have hnew : DayCount.At ⟨d.day - monthDays (YEAR0 + d.year) d.mon, mon, year⟩ day :=
        ⟨hmon', hyear', hat'⟩
      have hless : (d.day - monthDays (YEAR0 + d.year) d.mon).toNat < n := by omega
      exact ih hnew (Int.sub_nonneg.mpr hlong) hless
    · refine ⟨d, ?_, h, hnonneg, Int.not_le.mp hlong⟩
      simp only [carryLoop, signed_of_inInt hfull, element_of_range hmon, Option.bind_eq_bind,
        Option.bind_some]
      rw [if_neg hlong]

/-! ## Fields in their ranges -/

/-- The days that the time of a date makes up. -/
def Tm.timeDays (tm : Tm) : Int := (tm.hour + (tm.min + tm.sec / 60) / 60) / 24

/-- The year is not before the epoch when the call begins, and no sum of two fields leaves its
type. -/
structure Accepted (tm : Tm) : Prop where
  year : EPOCH_YR - YEAR0 ≤ tm.year
  min : CarryFits 60 tm.sec tm.min
  hour : CarryFits 60 (tm.min + tm.sec / 60) tm.hour
  mday : InInt (tm.mday - 1)
  day : InInt (tm.timeDays + (tm.mday - 1))

/-- A second for which `time_t` has room from `YEAR0` on. -/
def InTime (t : Int) : Prop := 0 ≤ t ∧ InInt (t + EPOCH_SECS)

instance (t : Int) : Decidable (InTime t) := inferInstanceAs (Decidable (_ ∧ _))

lemma tdiv_bounds (hn : 0 < n) : low / n ≤ low.tdiv n ∧ low.tdiv n ≤ low / n + 1 := by
  rcases Int.lt_or_le (low.tmod n) 0 with hneg | hnonneg
  · rw [tdiv_eq_of_neg hn hneg]
    omega
  · rw [tdiv_eq_of_nonneg hn hnonneg]
    omega

/-- The second of a date, when the time stays within the day. -/
lemma instant_eq (tm : Tm) :
    tm.instant = (((tm.day + tm.timeDays - yearStart EPOCH_YR) * 24 +
      (tm.hour + (tm.min + tm.sec / 60) / 60) % 24) * 60 + (tm.min + tm.sec / 60) % 60) * 60 +
        tm.sec % 60 - if 0 < tm.isdst then SECS_HOUR else 0 := by
  rw [Tm.instant, Tm.timeDays]
  omega

/-- The day of a second with room is one of this century. -/
lemma InTime.day_mem (h : InTime tm.instant) :
    yearStart EPOCH_YR ≤ tm.day + tm.timeDays ∧ tm.day + tm.timeDays < yearStart 2100 := by
  have hinstant := instant_eq tm
  have hepoch : yearStart EPOCH_YR = 735598 := rfl
  have hcentury : yearStart 2100 = 766644 := rfl
  have hsecs : EPOCH_SECS = 473385600 := rfl
  have hhour : SECS_HOUR = 3600 := rfl
  have hfirst := h.1
  have hlast := (inInt_iff.mp h.2).2
  split_ifs at hinstant <;> omega

/-- The loops over the days start in a year for which there is room. -/
lemma year_near {year mon first : Int} (hmon : 0 ≤ mon ∧ mon < 12) (hfirst : InInt first)
    (hday : yearStart EPOCH_YR ≤ day ∧ day < yearStart 2100)
    (hat : monthFirst ((YEAR0 + year) * 12 + mon) + first = day) :
    -100000000 ≤ year ∧ year ≤ 100000000 := by
  have hlow := yearStart_le_monthFirst ((YEAR0 + year) * 12 + mon)
  have hhigh := monthFirst_lt_yearStart ((YEAR0 + year) * 12 + mon)
  rw [show ((YEAR0 + year) * 12 + mon) / 12 = YEAR0 + year by omega] at hlow hhigh
  have hepoch : yearStart EPOCH_YR = 735598 := rfl
  have hcentury : yearStart 2100 = 766644 := rfl
  have hyear0 := YEAR0_eq
  rw [inInt_iff] at hfirst
  unfold yearStart at hlow hhigh
  omega

/-- The carry of the hours has always room. -/
lemma carryFits_hours (h : InInt low) : CarryFits 24 low 0 := by
  have hquotient := @tdiv_bounds 24 low (by decide)
  rw [inInt_iff] at h
  rw [CarryFits, inInt_iff, inInt_iff]
  omega

/-- The fields of an accepted date are brought into their ranges for the same second. -/
theorem settle_eq (h : Accepted tm) (htime : InTime tm.instant) :
    ∃ copy, settle tm = some copy ∧ copy.Ranged ∧ copy.isdst = tm.isdst ∧
      copy.instant = tm.instant := by
  have hday := htime.day_mem
  have hmon : 0 ≤ tm.mon % 12 ∧ tm.mon % 12 < 12 := by omega
  have hmonth : (YEAR0 + (tm.year + tm.mon / 12)) * 12 + tm.mon % 12 = tm.month := by
    rw [Tm.month]
    omega
  have hat : monthFirst ((YEAR0 + (tm.year + tm.mon / 12)) * 12 + tm.mon % 12) +
      (tm.timeDays + (tm.mday - 1)) = tm.day + tm.timeDays := by
    rw [hmonth, Tm.day]
    omega
  have hyear := year_near hmon h.day hday hat
  have hyears : CarryFits 12 tm.mon tm.year := by
    have hbound := @tdiv_bounds 12 tm.mon (by decide)
    rw [CarryFits, inInt_iff, inInt_iff]
    omega
  have hstart : DayCount.At ⟨tm.timeDays + (tm.mday - 1), tm.mon % 12, tm.year + tm.mon / 12⟩
      (tm.day + tm.timeDays) := ⟨hmon, hyear, hat⟩
  have hrounds : (-(tm.timeDays + (tm.mday - 1))).toNat <
      (tm.timeDays + (tm.mday - 1)).natAbs + 1 := by omega
  obtain ⟨d, hborrow, hd, hnonneg⟩ := borrowLoop_at hday.1 hstart hrounds
  have hrounds' : d.day.toNat < d.day.natAbs + 1 := by omega
  obtain ⟨d', hcarry, hd', hnonneg', hinside⟩ := carryLoop_at hday.2 hd hnonneg hrounds'
  refine ⟨⟨tm.sec % 60, (tm.min + tm.sec / 60) % 60,
      (tm.hour + (tm.min + tm.sec / 60) / 60) % 24, d'.day + 1, d'.mon, d'.year, tm.wday,
      tm.yday, tm.isdst⟩, ?_, ?_, rfl, ?_⟩
  · simp only [settle, carry_eq (by decide) h.min, carry_eq (by decide) h.hour,
      carry_eq (by decide) (carryFits_hours h.hour.2), carry_eq (by decide) hyears,
      signed_of_inInt h.mday, Option.bind_eq_bind, Option.bind_some, Int.zero_add]
    rw [← Tm.timeDays, signed_of_inInt h.day, Option.bind_some, hborrow, Option.bind_some,
      hcarry, Option.bind_some]
  · refine ⟨?_, ?_, ?_, hd'.mon, ?_⟩
    · change 0 ≤ tm.sec % 60 ∧ tm.sec % 60 < 60
      omega
    · change 0 ≤ (tm.min + tm.sec / 60) % 60 ∧ (tm.min + tm.sec / 60) % 60 < 60
      omega
    · change 0 ≤ (tm.hour + (tm.min + tm.sec / 60) / 60) % 24 ∧
        (tm.hour + (tm.min + tm.sec / 60) / 60) % 24 < 24
      omega
    · change 1 ≤ d'.day + 1 ∧ d'.day + 1 ≤ monthDays (YEAR0 + d'.year) d'.mon
      omega
  · have hnew : monthFirst ((YEAR0 + d'.year) * 12 + d'.mon) + (d'.day + 1 - 1) =
        tm.day + tm.timeDays := by
      rw [Int.add_sub_cancel]
      exact hd'.day
    rw [instant_eq tm, ← hnew]
    rfl

/-- A sum of two fields leaves its type. -/
lemma settle_undefined (hyear : EPOCH_YR - YEAR0 ≤ tm.year) (h : ¬Accepted tm) :
    settle tm = none := by
  by_cases hmin : CarryFits 60 tm.sec tm.min
  · by_cases hhour : CarryFits 60 (tm.min + tm.sec / 60) tm.hour
    · simp only [settle, carry_eq (by decide) hmin, carry_eq (by decide) hhour,
        carry_eq (by decide) (carryFits_hours hhour.2), Option.bind_eq_bind, Option.bind_some,
        Int.zero_add]
      -- the months and years come first, with or without a result
      cases carry 12 tm.mon tm.year with
      | none => rfl
      | some mon =>
        rw [Option.bind_some]
        by_cases hmday : InInt (tm.mday - 1)
        · have hday : ¬InInt (tm.timeDays + (tm.mday - 1)) :=
            fun hday => h ⟨hyear, hmin, hhour, hmday, hday⟩
          rw [signed_of_inInt hmday, Option.bind_some, ← Tm.timeDays,
            signed_of_not_inInt hday, Option.bind_none]
        · rw [signed_of_not_inInt hmday, Option.bind_none]
    · simp only [settle, carry_eq (by decide) hmin, carry_undefined (by decide) hhour,
        Option.bind_eq_bind, Option.bind_some, Option.bind_none]
  · simp only [settle, carry_undefined (by decide) hmin, Option.bind_eq_bind, Option.bind_none]

/-! ## Days since the epoch -/

lemma part_eq {year : Int} (hyear : 0 ≤ year) (n : Int) :
    part year n = if year % n ≠ 0 ∧ year % n < EPOCH_YR % n then 1 else 0 := by
  rw [part, Int.tmod_eq_emod_of_nonneg hyear, Int.tmod_eq_emod_of_nonneg (by decide)]

lemma part_le (year n : Int) : 0 ≤ part year n ∧ part year n ≤ 1 := by
  unfold part
  split_ifs <;> decide

/-- The multiples of a number since the epoch. -/
lemma part_count {year : Int} (hyear : EPOCH_YR ≤ year) {n : Int}
    (hn : n = 4 ∨ n = 100 ∨ n = 400) :
    (year - EPOCH_YR) / n + part year n = (year - 1) / n - (EPOCH_YR - 1) / n := by
  have hepoch := EPOCH_YR_eq
  rw [part_eq (by omega), hepoch]
  rcases hn with rfl | rfl | rfl <;> split_ifs <;> omega

/-- The formulas of the leap days count those of the calendar. -/
lemma leapDays_eq {year : Int} (hyear : EPOCH_YR ≤ year) :
    (year - EPOCH_YR) * 365 + ((year - EPOCH_YR) / 4 + part year 4) -
      ((year - EPOCH_YR) / 100 + part year 100) + ((year - EPOCH_YR) / 400 + part year 400) =
        yearStart year - yearStart EPOCH_YR := by
  rw [part_count hyear (.inl rfl), part_count hyear (.inr (.inl rfl)),
    part_count hyear (.inr (.inr rfl)), yearStart, yearStart]
  omega

/-- The days from the epoch to a year of this century. -/
theorem daysTo_eq {year : Int} (hfirst : EPOCH_YR ≤ year) (hlast : year < 2100) :
    daysTo year = some (.ok (yearStart year - yearStart EPOCH_YR)) := by
  have hepoch := EPOCH_YR_eq
  have hlong : LONG_MAX = 2147483647 := rfl
  have hlimit : LONG_MAX.tdiv 365 = 5883516 := by decide
  have hfour := part_le year 4
  have hcentury := part_le year 100
  have hcycle := part_le year 400
  have hdiv : ∀ n : Int, (year - EPOCH_YR).tdiv n = (year - EPOCH_YR) / n := fun n =>
    Int.tdiv_eq_ediv_of_nonneg (by omega)
  have hsigned : ∀ x : Int, -100000 ≤ x → x ≤ 2147483647 → signed x = some x := by
    intro x hlow hhigh
    apply signed_of_inInt
    rw [inInt_iff]
    omega
  simp only [daysTo, Option.bind_eq_bind]
  rw [hsigned (year - EPOCH_YR) (by omega) (by omega), Option.bind_some, hdiv 4, hdiv 100,
    hdiv 400, if_neg (by omega),
    hsigned ((year - EPOCH_YR) * 365) (by omega) (by omega), Option.bind_some,
    hsigned (LONG_MAX - (year - EPOCH_YR) * 365) (by omega) (by omega), Option.bind_some,
    if_neg (by omega), hsigned _ (by omega) (by omega), Option.bind_some,
    hsigned _ (by omega) (by omega), Option.bind_some, hsigned _ (by omega) (by omega),
    Option.bind_some, leapDays_eq hfirst]

lemma ydayLoop_eq (year : Int) {m : Nat} (hm : m ≤ 12) :
    ydayLoop year m = some (monthStart year m) := by
  induction m with
  | zero => rfl
  | succ m ih =>
    simp only [ydayLoop, ih (by omega), element_daysPerMonth year (show m < 12 by omega),
      Option.bind_eq_bind, Option.bind_some, monthStart]

variable {names : Option (String × String)}

lemma tzset_utc : tzset (utc names) = some (utc (some ("UTC", "BST"))) := rfl

/-- Without an offset the zone matters for summer time only. -/
lemma adjust_utc {seconds : Int} (h : (if 0 < copy.isdst then SECS_HOUR else 0) ≤ seconds) :
    adjust (utc names) copy seconds =
      .ok (seconds - (if 0 < copy.isdst then SECS_HOUR else 0),
        { copy with isdst := max copy.isdst 0 }) := by
  have hzone : ¬((0 < (utc names).timezone ∧ LONG_MAX - (utc names).timezone < seconds) ∨
      ((utc names).timezone < 0 ∧ seconds < -(utc names).timezone)) := by
    intro hoffset
    rcases hoffset with hwest | heast
    · exact Int.lt_irrefl 0 hwest.1
    · exact Int.lt_irrefl 0 heast.1
  have hdst : (if 0 < copy.isdst then (utc names).dstOff else if copy.isdst = 0 then 0
      else if (utc names).daylight ≠ 0 then (utc names).dstOff else 0) =
        if 0 < copy.isdst then SECS_HOUR else 0 := by
    rw [if_neg (show ¬(utc names).daylight ≠ 0 from fun h => h rfl), ite_self]
    rfl
  have hisdst : (if copy.isdst < 0 then (utc names).daylight else copy.isdst) =
      max copy.isdst 0 := by
    change (if copy.isdst < 0 then 0 else copy.isdst) = _
    split_ifs <;> omega
  have hoffset : seconds + (utc names).timezone = seconds := Int.add_zero seconds
  unfold adjust
  dsimp only
  rw [if_neg hzone, hdst, hisdst, hoffset, if_neg (Int.not_lt.mpr h)]

section

variable (h : copy.Ranged)
include h

lemma Tm.Ranged.day_eq :
    yearStart (copy.year + YEAR0) + (monthStart (copy.year + YEAR0) copy.mon.toNat +
      (copy.mday - 1)) = copy.day := by
  have hmon := h.mon
  have hcast : ((copy.mon.toNat : Nat) : Int) = copy.mon := Int.toNat_of_nonneg hmon.1
  have hfirst := monthFirst_of_lt (YEAR0 + copy.year) (show copy.mon.toNat < 12 by omega)
  rw [hcast] at hfirst
  rw [Tm.day, Tm.month, hfirst, Int.add_comm copy.year]
  omega

/-- The time stays within the day. -/
lemma Tm.Ranged.timeDays_eq : copy.timeDays = 0 := by
  have hsec := h.sec
  have hmin := h.min
  have hhour := h.hour
  rw [Tm.timeDays]
  omega

lemma Tm.Ranged.day_mem_century (htime : InTime copy.instant) :
    yearStart EPOCH_YR ≤ copy.day ∧ copy.day < yearStart 2100 := by
  have hday := htime.day_mem
  rw [h.timeDays_eq, Int.add_zero] at hday
  exact hday

lemma Tm.Ranged.year_mem (htime : InTime copy.instant) :
    EPOCH_YR ≤ copy.year + YEAR0 ∧ copy.year + YEAR0 < 2100 := by
  have hmon := h.mon
  have hday := h.day_mem_century htime
  have hmem := h.day_mem
  have hearly : copy.month < 2100 * 12 := by
    rw [← monthFirst_strictMono.lt_iff_lt, monthFirst_january]
    omega
  have hlate : EPOCH_YR * 12 < copy.month + 1 := by
    rw [← monthFirst_strictMono.lt_iff_lt, monthFirst_january]
    omega
  have hepoch := EPOCH_YR_eq
  unfold Tm.month at hearly hlate
  omega

end

/-- The seconds of the time and of the days since the epoch. -/
lemma seconds_eq (copy : Tm) : (copy.hour * 60 + copy.min) * 60 + copy.sec +
    (copy.day - yearStart EPOCH_YR) * SECS_DAY - (if 0 < copy.isdst then SECS_HOUR else 0) =
      copy.instant := by
  rw [Tm.instant, SECS_DAY_eq]
  omega

/-- The test for the seconds does not fail. -/
lemma Tm.Ranged.room (h : copy.Ranged) (htime : InTime copy.instant) :
    ¬(LONG_MAX - ((copy.hour * 60 + copy.min) * 60 + copy.sec)).tdiv SECS_DAY <
      copy.day - yearStart EPOCH_YR := by
  have hsec := h.sec
  have hmin := h.min
  have hhour := h.hour
  have hseconds := seconds_eq copy
  have hlast := (inInt_iff.mp htime.2).2
  have hsecs : EPOCH_SECS = 473385600 := rfl
  have hsummer : SECS_HOUR = 3600 := rfl
  have hlong : LONG_MAX = 2147483647 := rfl
  rw [SECS_DAY_eq] at hseconds
  rw [Int.tdiv_eq_ediv_of_nonneg (by omega), SECS_DAY_eq]
  split_ifs at hseconds <;> omega

/-- The second of a date in its ranges, and its normal form. -/
lemma count_eq (names : Option (String × String)) (h : copy.Ranged)
    (htime : InTime copy.instant) :
    ∃ new, count (utc names) copy = some (.ok (copy.instant, new)) ∧
      new.Normal ∧ new.isdst = max copy.isdst 0 ∧ new.instant = copy.instant := by
  have hmon := h.mon
  have hyear := h.year_mem htime
  have hday := h.day_mem_century htime
  have hepoch : yearStart EPOCH_YR = 735598 := rfl
  have hcentury : yearStart 2100 = 766644 := rfl
  have hepochYear := EPOCH_YR_eq
  have hseconds := seconds_eq copy
  have hsum : yearStart (copy.year + YEAR0) - yearStart EPOCH_YR +
      (monthStart (copy.year + YEAR0) copy.mon.toNat + (copy.mday - 1)) =
        copy.day - yearStart EPOCH_YR := by
    rw [← h.day_eq]
    omega
  have hfull : InInt (copy.year + YEAR0) := by
    rw [inInt_iff]
    omega
  have hfit : InInt (copy.day - yearStart EPOCH_YR) ∧
      InInt (copy.day - yearStart EPOCH_YR + 4) := by
    rw [inInt_iff, inInt_iff]
    omega
  have hwday : (copy.day - yearStart EPOCH_YR + 4).tmod 7 = weekday copy.day := by
    rw [Int.tmod_eq_emod_of_nonneg (by omega), weekday]
    omega
  have hyday : monthStart (copy.year + YEAR0) copy.mon.toNat + (copy.mday - 1) =
      copy.day - yearStart (YEAR0 + copy.year) := by
    rw [← h.day_eq, Int.add_comm YEAR0]
    omega
  have hdst : (if 0 < copy.isdst then SECS_HOUR else 0) ≤
      (copy.hour * 60 + copy.min) * 60 + copy.sec +
        (copy.day - yearStart EPOCH_YR) * SECS_DAY := by
    have hfirst := htime.1
    omega
  refine ⟨{ copy with yday := copy.day - yearStart (YEAR0 + copy.year), wday := weekday copy.day,
                      isdst := max copy.isdst 0 }, ?_, ?_, rfl, ?_⟩
  · simp only [count, signed_of_inInt hfull, daysTo_eq hyear.1 hyear.2,
      ydayLoop_eq (copy.year + YEAR0) (show copy.mon.toNat ≤ 12 by omega), Option.bind_eq_bind,
      Option.bind_some]
    rw [hsum, signed_of_inInt hfit.1, Option.bind_some, if_neg (by omega),
      signed_of_inInt hfit.2, Option.bind_some, if_neg (h.room htime), hwday, hyday]
    have hadjust := @adjust_utc ⟨copy.sec, copy.min, copy.hour, copy.mday, copy.mon, copy.year,
      weekday copy.day, copy.day - yearStart (YEAR0 + copy.year), copy.isdst⟩ names _ hdst
    rw [hadjust, hseconds]
  · exact ⟨⟨h.sec, h.min, h.hour, h.mon, h.mday⟩, rfl, rfl⟩
  · have hsummer : 0 < max copy.isdst 0 ↔ 0 < copy.isdst := by omega
    rw [Tm.instant, Tm.instant]
    simp only [hsummer]
    rfl

/-! ## The round trip -/

/-- An accepted date yields its second and is left in normal form. -/
theorem mktime_eq (h : Accepted tm) (htime : InTime tm.instant) :
    ∃ new, mktime (utc names) (some tm) =
        some ⟨tm.instant, some new, utc (some ("UTC", "BST")), none⟩ ∧
      new.Normal ∧ new.isdst = max tm.isdst 0 ∧ new.instant = tm.instant := by
  obtain ⟨copy, hsettle, hranged, hisdst, hinstant⟩ := settle_eq h htime
  rw [← hinstant] at htime
  obtain ⟨new, hcount, hnormal, hisdst', hinstant'⟩ := count_eq (some ("UTC", "BST")) hranged htime
  rw [hinstant] at hcount hinstant'
  rw [hisdst] at hisdst'
  refine ⟨new, ?_, hnormal, hisdst', hinstant'⟩
  simp only [mktime, hsettle, tzset_utc, hcount, Option.bind_eq_bind, Option.bind_some]
  rw [if_neg (Int.not_lt.mpr h.year)]

/-- A date that is not accepted is refused or has no result. -/
lemma mktime_refused (h : ¬Accepted tm) {r : MktimeResult}
    (hrun : mktime (utc names) (some tm) = some r) : r.time = -1 := by
  rw [mktime] at hrun
  split_ifs at hrun with hyear
  · rw [← Option.some.inj hrun]
  · rw [settle_undefined (Int.not_lt.mp hyear) h] at hrun
    contradiction

/-- The second is turned into its date, and the date back into the second, which leaves it as it
was. -/
def RoundTrips (names : Option (String × String)) (t : Int) : Prop :=
  ∃ tm r, gmtime (some t) = some (.ok tm) ∧ IsCivil t tm ∧
    mktime (utc names) (some tm) = some r ∧ r.time = t ∧ r.timeptr = some tm

/-- The second of the date is turned into the normal form of the date. -/
def Normalises (names : Option (String × String)) (tm : Tm) : Prop :=
  ∃ r tm', mktime (utc names) (some tm) = some r ∧ gmtime (some r.time) = some (.ok tm') ∧
    IsCivil tm.instant tm'

lemma carryFits_of_range (hlow : 0 ≤ low ∧ low < n) (hhigh : InInt high) :
    CarryFits n low high := by
  have hquotient : low / n = 0 := Int.ediv_eq_zero_of_lt hlow.1 hlow.2
  rw [CarryFits, Int.tdiv_eq_ediv_of_nonneg hlow.1, hquotient, Int.add_zero]
  exact ⟨hhigh, hhigh⟩

/-- A date in its ranges is accepted. -/
lemma Tm.Ranged.accepted (h : tm.Ranged) (htime : InTime tm.instant) : Accepted tm := by
  have hsec := h.sec
  have hmin := h.min
  have hhour := h.hour
  have hmday := h.mday
  have hlength := monthDays_le (YEAR0 + tm.year) tm.mon
  have hyear := h.year_mem htime
  have hminutes : tm.min + tm.sec / 60 = tm.min := by omega
  have hfit : InInt (tm.mday - 1) := by
    rw [inInt_iff]
    omega
  refine ⟨by omega, carryFits_of_range hsec ?_, ?_, hfit, ?_⟩
  · rw [inInt_iff]
    omega
  · rw [hminutes]
    apply carryFits_of_range hmin
    rw [inInt_iff]
    omega
  · rw [h.timeDays_eq, Int.zero_add]
    exact hfit

/-- A second makes the round trip exactly if it is before 2068. -/
lemma roundTrips_iff {t : Int} (htime : InTime t) :
    RoundTrips names t ↔ t + EPOCH_SECS < 2145916800 := by
  constructor
  · intro htrip
    rcases htrip with ⟨tm, r, hrun, -⟩
    by_contra hlate
    rw [gmtime_undefined (Int.not_lt.mp hlate)] at hrun
    contradiction
  · intro hlast
    have hfirst : 0 ≤ t + EPOCH_SECS := Int.add_nonneg htime.1 (by decide)
    obtain ⟨tm, hrun, hcivil⟩ := gmtime_isCivil hfirst hlast
    have hinstant := hcivil.instant
    rw [← hinstant] at htime
    obtain ⟨new, hback, hnormal, hisdst, hnew⟩ :=
      mktime_eq (hcivil.toRanged.accepted htime) htime
    rw [hcivil.isdst] at hisdst
    -- both are the normal form of the second
    have hsame : new = tm := IsCivil.unique ⟨hnormal, hisdst, hnew.trans hinstant⟩ hcivil
    exact ⟨tm, _, hrun, hcivil, hback, hinstant, congrArg some hsame⟩

/-- A date is brought into normal form exactly if it is accepted and before 2068. -/
lemma normalises_iff (htime : InTime tm.instant) :
    Normalises names tm ↔ Accepted tm ∧ tm.instant + EPOCH_SECS < 2145916800 := by
  constructor
  · intro hnormal
    rcases hnormal with ⟨r, tm', hrun, hdate, hcivil⟩
    have haccepted : Accepted tm := by
      by_contra hnot
      rw [mktime_refused hnot hrun] at hdate
      -- the date of the error code is a second before the epoch
      obtain ⟨old, hold, hcivil'⟩ := @gmtime_isCivil (-1) (by decide) (by decide)
      rw [hold] at hdate
      have hsame : old = tm' := Except.ok.inj (Option.some.inj hdate)
      rw [hsame] at hcivil'
      have hearly : tm.instant = -1 := hcivil.instant.symm.trans hcivil'.instant
      have hfirst := htime.1
      omega
    refine ⟨haccepted, ?_⟩
    obtain ⟨new, hback, -⟩ := @mktime_eq tm names haccepted htime
    rw [hrun] at hback
    rw [Option.some.inj hback] at hdate
    by_contra hlate
    rw [gmtime_undefined (Int.not_lt.mp hlate)] at hdate
    contradiction
  · intro h
    have hfirst : 0 ≤ tm.instant + EPOCH_SECS := Int.add_nonneg htime.1 (by decide)
    obtain ⟨tm', hdate, hcivil⟩ := gmtime_isCivil hfirst h.2
    obtain ⟨new, hback, -⟩ := mktime_eq h.1 htime
    exact ⟨_, tm', hback, hdate, hcivil⟩

/-- Exactly the seconds before 2068 make the round trip, and exactly the accepted dates before
2068 are brought into normal form. -/
theorem calendar_iff (names : Option (String × String)) :
    (∀ t, InTime t → (RoundTrips names t ↔ t + EPOCH_SECS < 2145916800)) ∧
      ∀ tm : Tm, InTime tm.instant →
        (Normalises names tm ↔ Accepted tm ∧ tm.instant + EPOCH_SECS < 2145916800) :=
  ⟨fun _ => roundTrips_iff, fun _ => normalises_iff⟩

/-- A leap day, and the second before March of 2016, given as month 14 of 2015. -/
theorem calendar_leap_day :
    RoundTrips none 36633600 ∧ Normalises none ⟨-1, 0, 0, 1, 14, 15, 0, 0, 0⟩ := by
  have haccepted : Accepted ⟨-1, 0, 0, 1, 14, 15, 0, 0, 0⟩ :=
    ⟨by decide, by decide, by decide, by decide, by decide⟩
  constructor
  · exact ((calendar_iff none).1 36633600 (by decide)).mpr (by decide)
  · exact ((calendar_iff none).2 ⟨-1, 0, 0, 1, 14, 15, 0, 0, 0⟩ (by decide)).mpr
      ⟨haccepted, by decide⟩

/-- The first second of 2068 has no date, and the first month of 2015 is refused when it is
counted from 2014. -/
theorem calendar_broken :
    (InTime 1672531200 ∧ ¬RoundTrips none 1672531200) ∧
      InTime (Tm.instant ⟨0, 0, 0, 1, 12, 14, 0, 0, 0⟩) ∧
        ¬Normalises none ⟨0, 0, 0, 1, 12, 14, 0, 0, 0⟩ := by
  have hlast : InTime 1672531200 := by decide
  have hfirst : InTime (Tm.instant ⟨0, 0, 0, 1, 12, 14, 0, 0, 0⟩) := by decide
  refine ⟨⟨hlast, ?_⟩, hfirst, ?_⟩
  · rw [roundTrips_iff hlast]
    decide
  · rw [normalises_iff hfirst]
    exact fun h => absurd h.1.year (by decide)

end DiegOS.Libc
