import DiegOS.Kernel.Clock
import DiegOS.Lib.Rounding
import Mathlib.Order.MinMax
import Mathlib.Tactic.Ring

/-!
# Conversions of time

`kernel_time.c`: milliseconds become values of the counter and values of the counter become
milliseconds.  One conversion multiplies in 32 bits, the other one only divides by the whole
part of the counter's speed.

Main results:

- Theorem `get_value_exact_iff`: which times become the counter value next to them.
- Theorem `get_msecs_right_iff`: which counter values become the time next to them, and
  which times come back after both conversions.
-/

namespace DiegOS.Kernel

open Lib

namespace TimeUtil

/-! ## The code -/

/-- `kernel_time_init`; `EINVAL` is none. -/
def init (baseVal minVal maxVal : UInt32) : Option TimeUtil :=
  if baseVal = 0 ∨ minVal = 0 ∨ maxVal = 0 then none
  else some ⟨baseVal.toNat, minVal.toNat, maxVal.toNat⟩

/-- `cntr_ticks_per_msecs_int` -/
def ticksInt (tu : TimeUtil) : Nat := tu.baseCounter / 1000

/-- `cntr_ticks_per_msecs_fract` -/
def ticksFract (tu : TimeUtil) : Nat := tu.baseCounter % 1000

/-- `kernel_time_get_msecs`; none if it divides by zero. -/
def getMsecs (tu : TimeUtil) (cntrticks : Nat) : Option Nat :=
  let cntrticks := tu.adjustRange cntrticks
  if tu.ticksInt = 0 then none
  else
    let retval := cntrticks / tu.ticksInt
    let fract := cntrticks % tu.ticksInt
    some (if tu.ticksInt / 2 ≤ fract then (retval + 1) % 2 ^ 32 else retval)

/-! ## What they are for -/

/-- The counter value next to a time. -/
def counterFor (tu : TimeUtil) (msecs : Nat) : Nat := roundHalfUp (msecs * tu.baseCounter) 1000

/-- The time next to a counter value. -/
def msecsFor (tu : TimeUtil) (counter : Nat) : Nat := roundHalfUp (1000 * counter) tu.baseCounter

/-- What 32 bits keep of both products, before it is brought into range. -/
def kept (tu : TimeUtil) (msecs : Nat) : Nat :=
  (msecs * tu.ticksInt % 2 ^ 32 + (msecs * tu.ticksFract % 2 ^ 32 + 500) / 1000) % 2 ^ 32

/-- The product with the fraction and the counter value fit in 32 bits. -/
def Fits (tu : TimeUtil) (msecs : Nat) : Prop :=
  msecs * tu.ticksFract < 2 ^ 32 ∧ tu.counterFor msecs < 2 ^ 32

/-- The values that `kernel_time_init` takes. -/
structure Accepted (tu : TimeUtil) : Prop where
  base_pos : 0 < tu.baseCounter
  min_pos : 0 < tu.minCounter
  max_pos : 0 < tu.maxCounter
  base_lt : tu.baseCounter < 2 ^ 32
  min_lt : tu.minCounter < 2 ^ 32
  max_lt : tu.maxCounter < 2 ^ 32

variable {tu : TimeUtil} {msecs c n d : Nat}

lemma init_accepted {baseVal minVal maxVal : UInt32}
    (hinit : init baseVal minVal maxVal = some tu) : tu.Accepted := by
  unfold init at hinit
  split at hinit
  · cases hinit
  · next hzero =>
      cases hinit
      rcases not_or.mp hzero with ⟨hbase, hzero⟩
      rcases not_or.mp hzero with ⟨hmin, hmax⟩
      have hpos : ∀ x : UInt32, x ≠ 0 → 0 < x.toNat := by
        intro x hx
        apply Nat.pos_of_ne_zero
        intro hnat
        exact hx (UInt32.toNat_inj.mp hnat)
      exact ⟨hpos _ hbase, hpos _ hmin, hpos _ hmax, baseVal.toNat_lt, minVal.toNat_lt,
        maxVal.toNat_lt⟩

/-- The speed of the counter is split into its whole part and its fraction. -/
lemma base_eq (tu : TimeUtil) : tu.baseCounter = 1000 * tu.ticksInt + tu.ticksFract :=
  (Nat.div_add_mod tu.baseCounter 1000).symm

/-- The range is not empty. -/
lemma adjustRange_eq (hle : tu.minCounter ≤ tu.maxCounter) (c : Nat) :
    tu.adjustRange c = max tu.minCounter (min c tu.maxCounter) := by
  unfold adjustRange
  split_ifs <;> omega

lemma adjustRange_lt (h : tu.Accepted) (hc : c < 2 ^ 32) : tu.adjustRange c < 2 ^ 32 := by
  have hmin := h.min_lt
  have hmax := h.max_lt
  unfold adjustRange
  split_ifs
  · exact hmin
  · exact hmax
  · exact hc

/-! ## From milliseconds to the counter -/

lemma getValue_zero : tu.getValue 0 = 0 := by
  simp [getValue]

lemma getValue_eq (hmsecs : msecs ≠ 0) : tu.getValue msecs = tu.adjustRange (tu.kept msecs) := by
  unfold getValue kept ticksInt ticksFract
  rw [if_neg hmsecs]

/-- Whole parts and fractions are converted one by one. -/
lemma counterFor_eq (tu : TimeUtil) (msecs : Nat) :
    tu.counterFor msecs = msecs * tu.ticksInt + (msecs * tu.ticksFract + 500) / 1000 := by
  have hsplit : msecs * tu.baseCounter =
      1000 * (msecs * tu.ticksInt) + msecs * tu.ticksFract := by
    rw [tu.base_eq]
    ring
  unfold counterFor
  rw [hsplit, roundHalfUp_mul_add (by omega)]
  unfold roundHalfUp
  omega

lemma counterFor_mono {m : Nat} (h : msecs ≤ m) : tu.counterFor msecs ≤ tu.counterFor m :=
  roundHalfUp_mono (Nat.mul_le_mul_right _ h)

/-- The products lose something exactly when something does not fit. -/
lemma kept_le (tu : TimeUtil) (msecs : Nat) :
    tu.kept msecs ≤ tu.counterFor msecs ∧
      (tu.kept msecs = tu.counterFor msecs ↔ tu.Fits msecs) := by
  unfold Fits
  rw [counterFor_eq]
  unfold kept
  generalize msecs * tu.ticksInt = i
  generalize msecs * tu.ticksFract = f
  have hlow : i % 2 ^ 32 ≤ i := Nat.mod_le i _
  have hrest : f % 2 ^ 32 ≤ f := Nat.mod_le f _
  have hsum := Nat.mod_le (i % 2 ^ 32 + (f % 2 ^ 32 + 500) / 1000) (2 ^ 32)
  have hround : (f % 2 ^ 32 + 500) / 1000 ≤ (f + 500) / 1000 := by omega
  apply And.intro (by omega)
  constructor
  · intro heq
    have hlt := Nat.mod_lt (i % 2 ^ 32 + (f % 2 ^ 32 + 500) / 1000) (show 2 ^ 32 > 0 by omega)
    have hsame : (f % 2 ^ 32 + 500) / 1000 = (f + 500) / 1000 := by omega
    exact ⟨by omega, by omega⟩
  · rintro ⟨hfract, hfits⟩
    rw [Nat.mod_eq_of_lt hfract, Nat.mod_eq_of_lt (a := i) (by omega), Nat.mod_eq_of_lt hfits]

/-- Either nothing is lost, or the loss does not show in the range. -/
def Convertible (tu : TimeUtil) (msecs : Nat) : Prop :=
  msecs ≠ 0 ∧ tu.minCounter ≤ tu.maxCounter ∧
    (tu.Fits msecs ∨ tu.minCounter = tu.maxCounter ∨ tu.counterFor msecs ≤ tu.minCounter ∨
      tu.maxCounter ≤ tu.kept msecs)

/-- The result is the counter value next to the time, brought into the range. -/
def ConvertsExactly (tu : TimeUtil) (msecs : Nat) : Prop :=
  tu.getValue msecs = max tu.minCounter (min (tu.counterFor msecs) tu.maxCounter) ∧
    tu.minCounter ≤ tu.getValue msecs ∧ tu.getValue msecs ≤ tu.maxCounter

lemma convertsExactly_iff (h : tu.Accepted) (msecs : Nat) :
    tu.ConvertsExactly msecs ↔ tu.Convertible msecs := by
  have hmin := h.min_pos
  unfold ConvertsExactly Convertible
  by_cases hzero : msecs = 0
  · subst hzero
    rw [getValue_zero]
    constructor
    · rintro ⟨-, hlow, -⟩
      omega
    · rintro ⟨hne, -⟩
      exact absurd rfl hne
  · rcases tu.kept_le msecs with ⟨hle, hfits⟩
    rw [getValue_eq hzero, ← hfits]
    unfold adjustRange
    constructor
    · rintro ⟨heq, hlow, hhigh⟩
      apply And.intro hzero
      apply And.intro (hlow.trans hhigh)
      split_ifs at heq <;> omega
    · rintro ⟨-, hrange, hcases⟩
      split_ifs <;> omega

end TimeUtil

/-- A time becomes the counter value next to it, brought into the range, exactly when it is not
0, the range is not empty, and the products fit in 32 bits or what they lose does not show in the
range.  For these times a longer one never gets a lower value. -/
theorem get_value_exact_iff {tu : TimeUtil} {baseVal minVal maxVal : UInt32}
    (hinit : TimeUtil.init baseVal minVal maxVal = some tu) :
    (∀ msecs : UInt32, tu.ConvertsExactly msecs.toNat ↔ tu.Convertible msecs.toNat) ∧
    ∀ m m' : UInt32, m ≤ m' → tu.Convertible m.toNat → tu.Convertible m'.toNat →
      tu.getValue m.toNat ≤ tu.getValue m'.toNat := by
  have haccepted := TimeUtil.init_accepted hinit
  constructor
  · intro msecs
    exact TimeUtil.convertsExactly_iff haccepted msecs.toNat
  · intro m m' hle hm hm'
    have hmono : tu.counterFor m.toNat ≤ tu.counterFor m'.toNat :=
      TimeUtil.counterFor_mono (UInt32.le_iff_toNat_le.mp hle)
    rw [((TimeUtil.convertsExactly_iff haccepted _).mpr hm).1,
      ((TimeUtil.convertsExactly_iff haccepted _).mpr hm').1]
    omega

/-- The timer of the personal computer. -/
def pcTimer : TimeUtil := ⟨1193182, 2, 65534⟩

lemma pcTimer_init : TimeUtil.init 1193182 2 65534 = some pcTimer := rfl

/-- Ten milliseconds and twenty milliseconds. -/
theorem get_value_exact_ten : pcTimer.ConvertsExactly 10 ∧
    pcTimer.getValue 10 ≤ pcTimer.getValue 20 := by
  have hten : pcTimer.Convertible 10 := by
    refine ⟨by decide, by decide, Or.inl ?_⟩
    constructor <;> decide
  have htwenty : pcTimer.Convertible 20 := by
    refine ⟨by decide, by decide, Or.inl ?_⟩
    constructor <;> decide
  rcases get_value_exact_iff pcTimer_init with ⟨hexact, hmono⟩
  exact ⟨(hexact 10).mpr hten, hmono 10 20 (by decide) hten htwenty⟩

/-- Nearly one hour becomes less than a millisecond, and no time at all becomes a value below
the range. -/
theorem get_value_wraps :
    TimeUtil.init 1193182 2 65534 = some pcTimer ∧ pcTimer.getValue 3599592 = 1086 ∧
      ¬pcTimer.ConvertsExactly 3599592 ∧ pcTimer.getValue 3599592 < pcTimer.getValue 100 ∧
      pcTimer.getValue 0 < pcTimer.minCounter := by
  have hwrong : ¬pcTimer.ConvertsExactly 3599592 := by
    rintro ⟨heq, -⟩
    revert heq
    decide
  refine ⟨pcTimer_init, by decide, hwrong, by decide, by decide⟩

/-! ## From the counter to milliseconds -/

namespace TimeUtil

variable {tu : TimeUtil} {c n d ms : Nat}

/-- The code rounds up from the middle of the whole part on, which is rounded down itself. -/
lemma getMsecs_eq (h : tu.Accepted) (hc : c < 2 ^ 32) (hint : 0 < tu.ticksInt) :
    tu.getMsecs c = some ((tu.adjustRange c / tu.ticksInt +
      if tu.ticksInt / 2 ≤ tu.adjustRange c % tu.ticksInt then 1 else 0) % 2 ^ 32) := by
  have hlt := adjustRange_lt h hc
  have hquot := Nat.div_le_self (tu.adjustRange c) tu.ticksInt
  unfold getMsecs
  dsimp only
  rw [if_neg (by omega)]
  split
  · rfl
  · rw [Nat.add_zero, Nat.mod_eq_of_lt (by omega)]

lemma ticksInt_eq_zero : tu.ticksInt = 0 ↔ tu.baseCounter < 1000 := by
  unfold ticksInt
  omega

/-- Only a counter with less than 1000 steps in a second divides by zero. -/
lemma getMsecs_eq_none : tu.getMsecs c = none ↔ tu.baseCounter < 1000 := by
  unfold getMsecs
  dsimp only
  rw [← ticksInt_eq_zero]
  split
  · next hzero => exact iff_of_true rfl hzero
  · next hzero => exact iff_of_false (by simp) hzero

/-- The fraction that is left out does not reach the place where the rounding changes: with
`c` as `q` times the whole part and the rest `r`, it takes `q` fractions. -/
def KeepsRounding (tu : TimeUtil) (c : Nat) : Prop :=
  0 < tu.ticksInt ∧
    if tu.ticksInt / 2 ≤ c % tu.ticksInt then
      1000 * tu.ticksInt + (2 * (tu.ticksFract * (c / tu.ticksInt)) + tu.ticksFract) ≤
        2000 * (c % tu.ticksInt)
    else
      2 * (tu.ticksFract * (c / tu.ticksInt)) ≤
        1000 * tu.ticksInt + 2000 * (c % tu.ticksInt) + tu.ticksFract

lemma getMsecs_eq_iff (h : tu.Accepted) (hc : c < 2 ^ 32) :
    tu.getMsecs c = some (tu.msecsFor (tu.adjustRange c)) ↔
      tu.KeepsRounding (tu.adjustRange c) := by
  rcases Nat.eq_zero_or_pos tu.ticksInt with hzero | hint
  · rw [getMsecs_eq_none.mpr (ticksInt_eq_zero.mp hzero)]
    exact iff_of_false (by simp) fun hkeeps => by
      have hpos := hkeeps.1
      omega
  · have hlt := adjustRange_lt h hc
    have hbase := tu.base_eq
    have hfract : tu.ticksFract < 1000 := Nat.mod_lt _ (by omega)
    rw [getMsecs_eq h hc hint, Option.some.injEq, eq_comm]
    unfold msecsFor KeepsRounding
    rw [roundHalfUp_eq_iff h.base_pos]
    generalize tu.adjustRange c = c at hlt
    have hsplit := Nat.div_add_mod c tu.ticksInt
    have hrest := Nat.mod_lt c hint
    have hprod : ∀ k, tu.baseCounter * k = 1000 * (tu.ticksInt * k) + tu.ticksFract * k := by
      intro k
      rw [hbase]
      ring
    rw [hprod]
    generalize tu.baseCounter = base at hbase
    generalize tu.ticksFract = f at hbase hfract
    generalize tu.ticksInt = n at *
    generalize c % n = r at *
    generalize c / n = q at *
    split
    · -- rounded up; with one step in a millisecond that may wrap
      by_cases hwrap : q + 1 < 2 ^ 32
      · rw [Nat.mod_eq_of_lt hwrap, Nat.mul_succ, Nat.mul_succ]
        omega
      · have hone : n = 1 := by
          by_contra hne
          have htwo : 2 * q ≤ n * q := Nat.mul_le_mul_right q (by omega)
          omega
        have hq : q + 1 = 2 ^ 32 := by
          subst hone
          omega
        rw [hq, Nat.mod_self]
        subst hone
        omega
    · have hq : q < 2 ^ 32 := by
        have hle : 1 * q ≤ n * q := Nat.mul_le_mul_right q hint
        omega
      rw [Nat.add_zero, Nat.mod_eq_of_lt hq]
      omega

/-- The rounded quotient is 0 or 1. -/
lemma quotient_round_le_one (hn : 0 < n) :
    d / n + (if n / 2 ≤ d % n then 1 else 0) ≤ 1 ↔ d < n + n / 2 := by
  have hsplit := Nat.div_add_mod d n
  have hrest := Nat.mod_lt d hn
  generalize d % n = r at *
  generalize d / n = q at *
  rcases q with _ | _ | q
  · rw [Nat.mul_zero] at hsplit
    split <;> omega
  · rw [Nat.mul_one] at hsplit
    split <;> omega
  · have htwo : n * 2 ≤ n * (q + 1 + 1) := Nat.mul_le_mul_left n (by omega)
    split <;> omega

/-- The time is back up to one millisecond. -/
def ComesBack (tu : TimeUtil) (ms : Nat) : Prop :=
  ∃ m, tu.getMsecs (tu.getValue ms) = some m ∧ m ≤ ms + 1 ∧ ms ≤ m + 1

/-- The counter value is less than one and a half whole parts away from the time's own. -/
def StaysClose (tu : TimeUtil) (ms : Nat) : Prop :=
  0 < tu.ticksInt ∧
    (ms * tu.ticksFract % 2 ^ 32 + 500) / 1000 < tu.ticksInt + tu.ticksInt / 2 ∧
    tu.minCounter < ms * tu.ticksInt + (tu.ticksInt + tu.ticksInt / 2) ∧
    (tu.ticksInt = 1 → ms + 1 < 2 ^ 32)

/-- The value of a time whose own value is in the range. -/
lemma getValue_in_range (h : tu.Accepted) (hlow : tu.minCounter ≤ tu.counterFor ms)
    (hhigh : tu.counterFor ms ≤ tu.maxCounter) :
    tu.getValue ms =
        max tu.minCounter (ms * tu.ticksInt + (ms * tu.ticksFract % 2 ^ 32 + 500) / 1000) ∧
      tu.adjustRange (tu.getValue ms) = tu.getValue ms ∧ tu.getValue ms ≤ tu.maxCounter := by
  have hmin := h.min_pos
  have hmax := h.max_lt
  have hrange := hlow.trans hhigh
  have hms : ms ≠ 0 := by
    rintro rfl
    unfold counterFor roundHalfUp at hlow
    omega
  have hkept : tu.kept ms =
      ms * tu.ticksInt + (ms * tu.ticksFract % 2 ^ 32 + 500) / 1000 := by
    have hle := (tu.kept_le ms).1
    rw [counterFor_eq] at hhigh
    have hrest := Nat.mod_le (ms * tu.ticksFract) (2 ^ 32)
    unfold kept
    rw [Nat.mod_eq_of_lt (a := ms * tu.ticksInt) (by omega), Nat.mod_eq_of_lt (by omega)]
  have hle := (tu.kept_le ms).1
  rw [getValue_eq hms, adjustRange_eq hrange, adjustRange_eq hrange, hkept]
  omega

lemma comesBack_iff (h : tu.Accepted) (hms : ms < 2 ^ 32)
    (hlow : tu.minCounter ≤ tu.counterFor ms) (hhigh : tu.counterFor ms ≤ tu.maxCounter) :
    tu.ComesBack ms ↔ tu.StaysClose ms := by
  rcases getValue_in_range h hlow hhigh with ⟨hvalue, hadjust, hle⟩
  have hmax := h.max_lt
  unfold ComesBack StaysClose
  rcases Nat.eq_zero_or_pos tu.ticksInt with hzero | hint
  · rw [getMsecs_eq_none.mpr (ticksInt_eq_zero.mp hzero), hzero]
    exact iff_of_false (by simp) fun hclose => absurd hclose.1 (by omega)
  · rw [getMsecs_eq h (by omega) hint, hadjust]
    have hle' : ms * tu.ticksInt ≤ tu.getValue ms := by omega
    have hcounter := tu.counterFor_eq ms
    generalize hd : tu.getValue ms - ms * tu.ticksInt = d
    have hsum : tu.getValue ms = d + tu.ticksInt * ms := by
      rw [Nat.mul_comm]
      omega
    rw [hsum, Nat.add_mul_div_left _ _ hint, Nat.add_mul_mod_self_left]
    have hclose := quotient_round_le_one (d := d) hint
    have hbounds : d < tu.ticksInt + tu.ticksInt / 2 ↔
        (ms * tu.ticksFract % 2 ^ 32 + 500) / 1000 < tu.ticksInt + tu.ticksInt / 2 ∧
          tu.minCounter < ms * tu.ticksInt + (tu.ticksInt + tu.ticksInt / 2) := by
      omega
    rw [and_iff_right hint, ← and_assoc, ← hbounds, ← hclose]
    have hresult : ∀ m, (∃ m', some m = some m' ∧ m' ≤ ms + 1 ∧ ms ≤ m' + 1) ↔
        m ≤ ms + 1 ∧ ms ≤ m + 1 := by
      simp
    rw [hresult]
    by_cases hone : tu.ticksInt = 1
    · -- every value is rounded up, and the greatest one wraps
      have hbelow : tu.counterFor ms ≤ 2 * ms + 1 := by
        have hfract : ms * tu.ticksFract ≤ ms * 999 :=
          Nat.mul_le_mul_left ms (Nat.le_of_lt_succ (Nat.mod_lt _ (by omega)))
        rw [hcounter, hone]
        omega
      have hnotless := tu.counterFor_eq ms
      have hrest := Nat.mod_le (ms * tu.ticksFract) (2 ^ 32)
      rw [hone, Nat.div_one, Nat.mod_one, if_pos (by omega)]
      rw [hone] at hvalue hd hnotless
      have hd' : d ≤ ms + 1 := by omega
      rcases Nat.lt_or_ge (d + ms + 1) (2 ^ 32) with hlt | hge
      · rw [Nat.mod_eq_of_lt hlt]
        omega
      · have hwrap : (d + ms + 1) % 2 ^ 32 = 0 := by
          have hlast : d + ms + 1 = 2 ^ 32 := by omega
          rw [hlast, Nat.mod_self]
        rw [hwrap]
        omega
    · have hhalf : d / tu.ticksInt + ms < 2 ^ 31 := by
        rw [← Nat.add_mul_div_left d ms hint]
        apply Nat.div_lt_of_lt_mul
        have htwo : 2 * 2 ^ 31 ≤ tu.ticksInt * 2 ^ 31 := Nat.mul_le_mul_right _ (by omega)
        omega
      generalize hup : (if tu.ticksInt / 2 ≤ d % tu.ticksInt then 1 else 0) = up
      have hle : up ≤ 1 := by
        rw [← hup]
        split <;> omega
      generalize d / tu.ticksInt = q at hhalf
      rw [Nat.mod_eq_of_lt (by omega)]
      omega

end TimeUtil

/-- Only with less than 1000 steps in a second the conversion divides by zero.  A counter value
becomes the time next to it exactly when the fraction that is left out keeps the rounding, and a
time whose counter value is in the range comes back up to one millisecond exactly when both
conversions stay close. -/
theorem get_msecs_right_iff {tu : TimeUtil} {baseVal minVal maxVal : UInt32}
    (hinit : TimeUtil.init baseVal minVal maxVal = some tu) :
    (∀ cntrticks : UInt32, tu.getMsecs cntrticks.toNat = none ↔ tu.baseCounter < 1000) ∧
    (∀ cntrticks : UInt32,
      tu.getMsecs cntrticks.toNat = some (tu.msecsFor (tu.adjustRange cntrticks.toNat)) ↔
        tu.KeepsRounding (tu.adjustRange cntrticks.toNat)) ∧
    ∀ ms : UInt32, tu.minCounter ≤ tu.counterFor ms.toNat →
      tu.counterFor ms.toNat ≤ tu.maxCounter →
      (tu.ComesBack ms.toNat ↔ tu.StaysClose ms.toNat) := by
  have haccepted := TimeUtil.init_accepted hinit
  constructor
  · exact fun cntrticks => TimeUtil.getMsecs_eq_none
  constructor
  · exact fun cntrticks => TimeUtil.getMsecs_eq_iff haccepted cntrticks.toNat_lt
  · exact fun ms hlow hhigh => TimeUtil.comesBack_iff haccepted ms.toNat_lt hlow hhigh

/-- Ten milliseconds of the personal computer's timer. -/
theorem get_msecs_right_ten :
    pcTimer.getMsecs 11932 = some (pcTimer.msecsFor (pcTimer.adjustRange 11932)) ∧
      pcTimer.ComesBack 10 := by
  rcases get_msecs_right_iff pcTimer_init with ⟨-, hright, hback⟩
  have hkeeps : pcTimer.KeepsRounding (pcTimer.adjustRange 11932) := by
    constructor <;> decide
  have hclose : pcTimer.StaysClose 10 := by
    refine ⟨by decide, by decide, by decide, by decide⟩
  exact ⟨(hright 11932).mpr hkeeps, (hback 10 (by decide) (by decide)).mpr hclose⟩

/-- A clock of 999 steps in a second: the conversion divides by zero.  On the personal computer
596 steps are nearer to no time than to one millisecond.  With 1999 steps in a second two
milliseconds become five. -/
theorem get_msecs_wrong :
    (∃ tu, TimeUtil.init 999 1 65535 = some tu ∧ tu.getMsecs 10 = none) ∧
    (TimeUtil.init 1193182 2 65534 = some pcTimer ∧ pcTimer.getMsecs 596 = some 1 ∧
      pcTimer.msecsFor (pcTimer.adjustRange 596) = 0) ∧
    ∃ tu, TimeUtil.init 1999 1 65535 = some tu ∧ tu.counterFor 2 = 4 ∧ tu.getValue 2 = 4 ∧
      tu.getMsecs (tu.getValue 2) = some 5 := by
  refine ⟨⟨_, rfl, by decide⟩, ⟨pcTimer_init, by decide, by decide⟩,
    ⟨_, rfl, ?_, ?_, ?_⟩⟩ <;> decide

end DiegOS.Kernel
