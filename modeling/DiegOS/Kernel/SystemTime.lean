import DiegOS.Kernel.Clock
import Mathlib.Algebra.Order.BigOperators.Group.List
import Mathlib.Tactic.Ring

/-!
# The system time

Every interrupt of the clock adds its period to a counter of 64 bits.  The time since the start
is computed from it in milliseconds, and from those in system ticks.

Main results:

- Theorem `Clock.getMilliseconds_eq`: the milliseconds are exact in 64 bits.
- Theorem `system_time_iff`: in which runs the ticks are exact too.
-/

namespace DiegOS.Kernel

/-! ## The code -/

/-- `DEFAULT_CLOCK_RES`, a positive `int`; the makefiles set 100 or 128. -/
def ClockRes : Type := { res : Nat // 0 < res ∧ res < 2 ^ 31 }

/-- `kernel_time_get_elapsed_msecs`, every operation in 64 bits. -/
def TimeUtil.elapsedMsecs (tu : TimeUtil) (elapsedCounter : Nat) : Nat :=
  (elapsedCounter / tu.baseCounter * 1000 % 2 ^ 64 +
    1000 * (elapsedCounter % tu.baseCounter) % 2 ^ 64 / tu.baseCounter) % 2 ^ 64

/-- `clock_convert_msecs_to_ticks`; the parameter is an `unsigned`. -/
def clockConvertMsecsToTicks (res : ClockRes) (msecs : Nat) : Nat :=
  msecs % 2 ^ 32 * res.val % 2 ^ 64 / 1000

namespace Clock

/-- `clock_get_milliseconds` -/
def getMilliseconds (c : Clock) : Nat := c.tu.elapsedMsecs c.elapsedCounter

/-- `clock_get_ticks` -/
def getTicks (c : Clock) (res : ClockRes) : Nat := clockConvertMsecsToTicks res c.getMilliseconds

/-- `clock_int_handler` up to the callbacks, with the period that is programmed then. -/
def interrupt (c : Clock) (period : UInt32) : Clock :=
  { c with period := period.toNat, elapsedCounter := (c.elapsedCounter + period.toNat) % 2 ^ 64 }

/-- A number of interrupts. -/
def interrupts (c : Clock) (periods : List UInt32) : Clock := periods.foldl interrupt c

end Clock

/-- The counter steps of a list of periods. -/
def totalSteps (periods : List UInt32) : Nat := (periods.map UInt32.toNat).sum

namespace Clock

variable {c : Clock} {periods : List UInt32} {res : ClockRes}

@[simp] lemma interrupts_tu (c : Clock) (periods : List UInt32) :
    (c.interrupts periods).tu = c.tu := by
  induction periods generalizing c with
  | nil => rfl
  | cons p periods ih => exact ih (c.interrupt p)

/-- The counter after a run that does not wrap. -/
lemma interrupts_elapsedCounter (hfits : c.elapsedCounter + totalSteps periods < 2 ^ 64) :
    (c.interrupts periods).elapsedCounter = c.elapsedCounter + totalSteps periods := by
  induction periods generalizing c with
  | nil => rfl
  | cons p periods ih =>
    have htotal : totalSteps (p :: periods) = p.toNat + totalSteps periods := by
      simp [totalSteps]
    have hstep : (c.interrupt p).elapsedCounter = c.elapsedCounter + p.toNat :=
      Nat.mod_eq_of_lt (by omega)
    have hrest := ih (c := c.interrupt p) (by omega)
    rw [hstep] at hrest
    rw [htotal, ← Nat.add_assoc]
    exact hrest

lemma totalSteps_take_le {j k : Nat} (h : j ≤ k) (periods : List UInt32) :
    totalSteps (periods.take j) ≤ totalSteps (periods.take k) := by
  unfold totalSteps
  rw [List.map_take, List.map_take]
  exact ((List.take_prefix_take_left h).sublist).sum_le_sum (by simp)

end Clock

/-! ## Milliseconds -/

namespace TimeUtil

variable {tu : TimeUtil} {elapsed : Nat}

/-- The whole seconds and the rest make up the quotient. -/
lemma getElapsedMsecs_eq (tu : TimeUtil) (elapsed : Nat) :
    tu.getElapsedMsecs elapsed = 1000 * elapsed / tu.baseCounter := by
  unfold getElapsedMsecs
  rcases Nat.eq_zero_or_pos tu.baseCounter with hzero | hpos
  · simp [hzero]
  · have hsplit : 1000 * elapsed = 1000 * (elapsed % tu.baseCounter) +
        tu.baseCounter * (elapsed / tu.baseCounter * 1000) := by
      calc 1000 * elapsed = 1000 * (elapsed % tu.baseCounter +
            tu.baseCounter * (elapsed / tu.baseCounter)) := by rw [Nat.mod_add_div]
        _ = 1000 * (elapsed % tu.baseCounter) +
            tu.baseCounter * (elapsed / tu.baseCounter * 1000) := by ring
    rw [hsplit, Nat.add_mul_div_left _ _ hpos, Nat.add_comm]

/-- With at least 1000 steps in a second nothing wraps in 64 bits. -/
lemma elapsedMsecs_eq (hbase : 1000 ≤ tu.baseCounter) (hword : tu.baseCounter < 2 ^ 32)
    (helapsed : elapsed < 2 ^ 64) : tu.elapsedMsecs elapsed = 1000 * elapsed / tu.baseCounter := by
  have hpos : 0 < tu.baseCounter := by omega
  have hseconds : elapsed / tu.baseCounter * 1000 ≤ elapsed :=
    (Nat.mul_le_mul_left _ hbase).trans (Nat.div_mul_le_self elapsed tu.baseCounter)
  have hrest := Nat.mod_lt elapsed hpos
  have hresult : 1000 * elapsed / tu.baseCounter ≤ elapsed :=
    Nat.div_le_of_le_mul (Nat.mul_le_mul_right elapsed hbase)
  rw [← getElapsedMsecs_eq] at hresult ⊢
  unfold getElapsedMsecs at hresult ⊢
  unfold elapsedMsecs
  rw [Nat.mod_eq_of_lt (a := elapsed / tu.baseCounter * 1000) (by omega),
    Nat.mod_eq_of_lt (a := 1000 * (elapsed % tu.baseCounter)) (by omega),
    Nat.mod_eq_of_lt (by omega)]

end TimeUtil

/-! ## Ticks -/

/-- The conversion is exact below 2 ^ 32 milliseconds. -/
lemma clockConvertMsecsToTicks_eq_iff (res : ClockRes) (msecs : Nat) :
    clockConvertMsecsToTicks res msecs = msecs * res.val / 1000 ↔ msecs < 2 ^ 32 := by
  rcases res.property with ⟨hpos, hint⟩
  have hrest := Nat.mod_lt msecs (show 2 ^ 32 > 0 by omega)
  have hfits : msecs % 2 ^ 32 * res.val < 2 ^ 64 := by
    have hle := Nat.mul_le_mul hrest.le hint.le
    omega
  unfold clockConvertMsecsToTicks
  rw [Nat.mod_eq_of_lt hfits]
  constructor
  · intro heq
    by_contra hge
    have hlost : msecs % 2 ^ 32 + 2 ^ 32 ≤ msecs := by omega
    have hprod := Nat.mul_le_mul_right res.val hlost
    have hmany : 2 ^ 32 * 1 ≤ 2 ^ 32 * res.val := Nat.mul_le_mul_left _ hpos
    rw [Nat.add_mul] at hprod
    generalize msecs % 2 ^ 32 * res.val = a at *
    omega
  · intro hlt
    rw [Nat.mod_eq_of_lt hlt]

/-! ## Runs -/

variable {c : Clock} {periods : List UInt32} {res : ClockRes}

/-- The milliseconds after every interrupt are the quotient, and they do not decrease. -/
def ExactMilliseconds (c : Clock) (periods : List UInt32) : Prop :=
  ∀ k ≤ periods.length,
    (c.interrupts (periods.take k)).getMilliseconds =
        1000 * totalSteps (periods.take k) / c.tu.baseCounter ∧
      ∀ j ≤ k, (c.interrupts (periods.take j)).getMilliseconds ≤
        (c.interrupts (periods.take k)).getMilliseconds

/-- The ticks after every interrupt are those of the milliseconds, and they do not decrease. -/
def ExactTicks (res : ClockRes) (c : Clock) (periods : List UInt32) : Prop :=
  ∀ k ≤ periods.length,
    (c.interrupts (periods.take k)).getTicks res =
        (c.interrupts (periods.take k)).getMilliseconds * res.val / 1000 ∧
      ∀ j ≤ k, (c.interrupts (periods.take j)).getTicks res ≤
        (c.interrupts (periods.take k)).getTicks res

/-- The milliseconds at the end of a run. -/
theorem Clock.getMilliseconds_eq (hstart : c.elapsedCounter = 0)
    (hbase : 1000 ≤ c.tu.baseCounter) (hword : c.tu.baseCounter < 2 ^ 32)
    (htotal : totalSteps periods ≤ 2 ^ 64 - 1) :
    (c.interrupts periods).getMilliseconds = 1000 * totalSteps periods / c.tu.baseCounter := by
  have helapsed : (c.interrupts periods).elapsedCounter = c.elapsedCounter + totalSteps periods :=
    interrupts_elapsedCounter (by omega)
  unfold getMilliseconds
  rw [helapsed, interrupts_tu, hstart, Nat.zero_add]
  exact TimeUtil.elapsedMsecs_eq hbase hword (by omega)

/-- In every run whose steps fit in 64 bits the milliseconds are exact and do not decrease; the
ticks are exact and do not decrease, too, exactly when the run ends before 2 ^ 32 milliseconds. -/
theorem system_time_iff (hstart : c.elapsedCounter = 0) (hbase : 1000 ≤ c.tu.baseCounter)
    (hword : c.tu.baseCounter < 2 ^ 32) (htotal : totalSteps periods ≤ 2 ^ 64 - 1) :
    ExactMilliseconds c periods ∧
      (ExactTicks res c periods ↔ 1000 * totalSteps periods / c.tu.baseCounter < 2 ^ 32) := by
  have hfirst : ∀ k, totalSteps (periods.take k) ≤ totalSteps periods := by
    intro k
    have hle := Clock.totalSteps_take_le (Nat.le_max_left k periods.length) periods
    rwa [List.take_of_length_le (Nat.le_max_right k _)] at hle
  have hmsecs : ∀ k, (c.interrupts (periods.take k)).getMilliseconds =
      1000 * totalSteps (periods.take k) / c.tu.baseCounter := by
    intro k
    exact Clock.getMilliseconds_eq hstart hbase hword ((hfirst k).trans htotal)
  have hmono : ∀ j k, j ≤ k → (c.interrupts (periods.take j)).getMilliseconds ≤
      (c.interrupts (periods.take k)).getMilliseconds := by
    intro j k hjk
    rw [hmsecs, hmsecs]
    exact Nat.div_le_div_right (Nat.mul_le_mul_left _ (Clock.totalSteps_take_le hjk periods))
  constructor
  · exact fun k _ => ⟨hmsecs k, fun j hjk => hmono j k hjk⟩
  constructor
  · intro hticks
    have hlast := (hticks periods.length le_rfl).1
    have hlt := (clockConvertMsecsToTicks_eq_iff res _).mp hlast
    rwa [hmsecs, List.take_length] at hlt
  · intro hend
    have hexact : ∀ k, (c.interrupts (periods.take k)).getTicks res =
        (c.interrupts (periods.take k)).getMilliseconds * res.val / 1000 := by
      intro k
      apply (clockConvertMsecsToTicks_eq_iff res _).mpr
      rw [hmsecs]
      apply lt_of_le_of_lt _ hend
      exact Nat.div_le_div_right (Nat.mul_le_mul_left _ (hfirst k))
    intro k _
    apply And.intro (hexact k)
    intro j hjk
    rw [hexact, hexact]
    exact Nat.div_le_div_right (Nat.mul_le_mul_right _ (hmono j k hjk))

/-- 100 ticks in a second. -/
def hundredTicks : ClockRes := ⟨100, by decide⟩

/-- A clock of 1000 steps in a second that was just initialized. -/
def slowClock : Clock := ⟨⟨1000, 1, 2 ^ 32 - 1⟩, 0, 10, fun _ => 10, fun _ => false⟩

/-- Two interrupts. -/
theorem system_time_two : ExactTicks hundredTicks slowClock [10, 20] := by
  have htime : ExactMilliseconds slowClock [10, 20] ∧
      (ExactTicks hundredTicks slowClock [10, 20] ↔
        1000 * totalSteps [10, 20] / slowClock.tu.baseCounter < 2 ^ 32) :=
    system_time_iff rfl (by decide) (by decide) (by decide)
  exact htime.2.mpr (by decide)

/-- After 2 ^ 32 milliseconds, seven weeks, the ticks begin at 0 again. -/
theorem ticks_fall_back :
    totalSteps [4294967295, 1] ≤ 2 ^ 64 - 1 ∧
      (slowClock.interrupts [4294967295]).getTicks hundredTicks = 429496729 ∧
      (slowClock.interrupts [4294967295, 1]).getTicks hundredTicks = 0 ∧
      ¬ExactTicks hundredTicks slowClock [4294967295, 1] := by
  have hwrong : ¬ExactTicks hundredTicks slowClock [4294967295, 1] := by
    intro hexact
    have hlast := (hexact 2 (by decide)).1
    revert hlast
    decide
  exact ⟨by decide, by decide, by decide, hwrong⟩

end DiegOS.Kernel
