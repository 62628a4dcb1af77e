import Mathlib.Data.Int.ConditionallyCompleteOrder
import Mathlib.Data.Nat.Find
import Mathlib.Order.ConditionallyCompleteLattice.Basic
import Mathlib.Tactic.SplitIfs

/-!
# The Gregorian calendar

The days are counted from the first day of the year 1, which is day 0 and a Monday, the months
of a year from zero, and the months of all years by twelve times the year and the month.

Main results:

- Theorem `yearStart_succ`: the leap days before a year, counted by a formula, are those of
  the years one after the other.
- Theorem `monthStart_twelve`: the months fill the year.
- Theorem `month_unique`: a day is in one month only.
- Theorem `exists_position`: a number lies between two neighbours of a growing sequence.
-/

namespace DiegOS.Lib.Gregorian

/-- Every fourth year, of the full centuries every fourth one. -/
def Leap (year : Int) : Prop := year % 4 = 0 ∧ (year % 100 ≠ 0 ∨ year % 400 = 0)

instance (year : Int) : Decidable (Leap year) := inferInstanceAs (Decidable (_ ∧ _))

/-- The days of a year. -/
def yearDays (year : Int) : Int := if Leap year then 366 else 365

/-- The first day of a year. -/
def yearStart (year : Int) : Int :=
  365 * (year - 1) + (year - 1) / 4 - (year - 1) / 100 + (year - 1) / 400

/-- The days of a month. -/
def monthDays (year month : Int) : Int :=
  if month = 1 then if Leap year then 29 else 28
  else if month = 3 ∨ month = 5 ∨ month = 8 ∨ month = 10 then 30
  else 31

/-- The days of a year before a month. -/
def monthStart (year : Int) : Nat → Int
  | 0 => 0
  | month + 1 => monthStart year month + monthDays year month

/-- The first day of a month, which is counted over all years. -/
def monthFirst (k : Int) : Int := yearStart (k / 12) + monthStart (k / 12) (k % 12).toNat

/-- The day of the week, from Sunday on. -/
def weekday (day : Int) : Int := (day + 1) % 7

variable {year k k' day : Int} {m n : Nat}

/-! ## Years -/

/-- A quotient grows at the multiples. -/
lemma ediv_eq_pred (year : Int) {n : Int} (hn : n = 4 ∨ n = 100 ∨ n = 400) :
    year / n = (year - 1) / n + if year % n = 0 then 1 else 0 := by
  rcases hn with rfl | rfl | rfl <;> split_ifs <;> omega

theorem yearStart_succ (year : Int) : yearStart (year + 1) = yearStart year + yearDays year := by
  have hfour := ediv_eq_pred year (.inl rfl)
  have hcentury := ediv_eq_pred year (.inr (.inl rfl))
  have hcycle := ediv_eq_pred year (.inr (.inr rfl))
  have hcenturies : year % 400 = 0 → year % 100 = 0 := by omega
  have hfours : year % 100 = 0 → year % 4 = 0 := by omega
  rw [yearStart, yearStart, Int.add_sub_cancel, hfour, hcentury, hcycle]
  clear hfour hcentury hcycle
  unfold yearDays Leap
  split_ifs <;> omega

example : yearStart 1 = 0 := rfl

lemma yearDays_ge (year : Int) : 365 ≤ yearDays year := by
  unfold yearDays
  split_ifs <;> decide

lemma yearDays_le (year : Int) : yearDays year ≤ 366 := by
  unfold yearDays
  split_ifs <;> decide

/-! ## Months -/

lemma monthDays_ge (year month : Int) : 28 ≤ monthDays year month := by
  unfold monthDays
  split_ifs <;> decide

lemma monthDays_le (year month : Int) : monthDays year month ≤ 31 := by
  unfold monthDays
  split_ifs <;> decide

/-- The months fill the year. -/
theorem monthStart_twelve (year : Int) : monthStart year 12 = yearDays year := by
  by_cases hleap : Leap year
  · simp [monthStart, monthDays, yearDays, hleap]
  · simp [monthStart, monthDays, yearDays, hleap]

lemma monthStart_strictMono (year : Int) : StrictMono (monthStart year) := by
  apply strictMono_nat_of_lt_succ
  intro m
  have hdays := monthDays_ge year m
  rw [monthStart]
  omega

lemma monthStart_ge (year : Int) (m : Nat) : 28 * m ≤ monthStart year m := by
  induction m with
  | zero => exact Int.le_refl 0
  | succ m ih =>
    have hdays := monthDays_ge year m
    rw [monthStart]
    omega

/-- The month after the last one is the first of the next year. -/
lemma monthFirst_succ (k : Int) :
    monthFirst (k + 1) = monthFirst k + monthDays (k / 12) (k % 12) := by
  have hcast : ((k % 12).toNat : Int) = k % 12 := Int.toNat_of_nonneg (by omega)
  have hnext : monthStart (k / 12) ((k % 12).toNat + 1) =
      monthStart (k / 12) (k % 12).toNat + monthDays (k / 12) (k % 12) := by
    rw [monthStart, hcast]
  by_cases hlast : k % 12 = 11
  · rw [hlast] at hnext
    change monthStart (k / 12) 12 = _ at hnext
    rw [monthStart_twelve] at hnext
    rw [monthFirst, monthFirst, show (k + 1) / 12 = k / 12 + 1 by omega,
      show (k + 1) % 12 = 0 by omega, yearStart_succ, hlast]
    change yearStart (k / 12) + yearDays (k / 12) + 0 = _
    omega
  · rw [monthFirst, monthFirst, show (k + 1) / 12 = k / 12 by omega,
      show ((k + 1) % 12).toNat = (k % 12).toNat + 1 by omega, hnext]
    omega

lemma monthFirst_strictMono : StrictMono monthFirst := by
  apply strictMono_int_of_lt_succ
  intro k
  have hdays := monthDays_ge (k / 12) (k % 12)
  rw [monthFirst_succ]
  omega

lemma monthFirst_january (year : Int) : monthFirst (year * 12) = yearStart year := by
  rw [monthFirst, show year * 12 / 12 = year by omega, show year * 12 % 12 = 0 by omega]
  exact Int.add_zero _

/-- A month of a year. -/
lemma monthFirst_of_lt (year : Int) (hm : m < 12) :
    monthFirst (year * 12 + m) = yearStart year + monthStart year m := by
  rw [monthFirst, show (year * 12 + m) / 12 = year by omega,
    show ((year * 12 + m) % 12).toNat = m by omega]

lemma monthFirst_next (year : Int) {month : Int} (h : 0 ≤ month ∧ month < 12) :
    monthFirst (year * 12 + month + 1) =
      monthFirst (year * 12 + month) + monthDays year month := by
  rw [monthFirst_succ, show (year * 12 + month) / 12 = year by omega,
    show (year * 12 + month) % 12 = month by omega]

/-- A day is in one month only. -/
theorem month_unique (hfirst : monthFirst k ≤ day) (hlast : day < monthFirst (k + 1))
    (hfirst' : monthFirst k' ≤ day) (hlast' : day < monthFirst (k' + 1)) : k = k' := by
  have hle : k < k' + 1 := monthFirst_strictMono.lt_iff_lt.mp (Int.lt_of_le_of_lt hfirst hlast')
  have hge : k' < k + 1 := monthFirst_strictMono.lt_iff_lt.mp (Int.lt_of_le_of_lt hfirst' hlast)
  omega

/-- A month lies between the start of its year and that of the next one. -/
lemma yearStart_le_monthFirst (k : Int) : yearStart (k / 12) ≤ monthFirst k := by
  rw [← monthFirst_january]
  exact monthFirst_strictMono.monotone (by omega)

lemma monthFirst_lt_yearStart (k : Int) : monthFirst k < yearStart (k / 12 + 1) := by
  rw [← monthFirst_january]
  exact monthFirst_strictMono (by omega)

/-! ## Positions -/

lemma add_le_of_strictMono {pos : Nat → Int} (hpos : StrictMono pos) (n : Nat) :
    pos 0 + n ≤ pos n := by
  induction n with
  | zero => exact Int.le_of_eq (Int.add_zero _)
  | succ n ih =>
    have hstep : pos n < pos (n + 1) := hpos (Nat.lt_succ_self n)
    omega

/-- A number lies between two neighbours of a growing sequence. -/
theorem exists_position {pos : Nat → Int} (hpos : StrictMono pos) {x : Int} (hx : pos 0 ≤ x) :
    ∃ n, pos n ≤ x ∧ x < pos (n + 1) := by
  have hsome : ∃ n, x < pos (n + 1) := by
    refine ⟨(x - pos 0).toNat, ?_⟩
    have hfar := add_le_of_strictMono hpos ((x - pos 0).toNat + 1)
    omega
  refine ⟨Nat.find hsome, ?_, Nat.find_spec hsome⟩
  cases hfirst : Nat.find hsome with
  | zero => exact hx
  | succ n =>
    have hbefore : ¬x < pos (n + 1) := Nat.find_min hsome (by omega)
    exact Int.not_lt.mp hbefore

end DiegOS.Lib.Gregorian
