import Mathlib.Algebra.Group.Nat.Defs
import Mathlib.Logic.Function.Basic
import Mathlib.Tactic.SplitIfs

/-!
# The clock and what counts down on it

`clock.c` and `kernel_time.c`: every client of the clock asks for a
period, the shortest one is programmed, and every interrupt adds it to the
elapsed time.  Alarms and timers keep the same list of records that count down to
an expiration; the parts of `alarms.c` and `timers.c` that are the same
are stated once, for `Countdowns`.  The clock device takes every period it
is given, and the 64 bits of the elapsed time do not wrap.
-/

namespace DiegOS.Kernel

/-! ## Time -/

/-- `-1U` -/
def MAX_UINT : Nat := 2 ^ 32 - 1

/-- Counter values of the clock device: of one second, the least and the greatest one. -/
structure TimeUtil where
  baseCounter : Nat
  minCounter : Nat
  maxCounter : Nat

namespace TimeUtil

/-- `kernel_time_get_elapsed_msecs` -/
def getElapsedMsecs (tu : TimeUtil) (elapsedCounter : Nat) : Nat :=
  elapsedCounter / tu.baseCounter * 1000 +
    1000 * (elapsedCounter % tu.baseCounter) / tu.baseCounter

/-- `kernel_time_adjust_range` -/
def adjustRange (tu : TimeUtil) (value : Nat) : Nat :=
  if value < tu.minCounter then tu.minCounter
  else if tu.maxCounter < value then tu.maxCounter
  else value

/-- `kernel_time_get_value`; the products are of 32 bits. -/
def getValue (tu : TimeUtil) (msecs : Nat) : Nat :=
  if msecs = 0 then 0
  else
    let retval := msecs * (tu.baseCounter / 1000) % 2 ^ 32
    let fract := (msecs * (tu.baseCounter % 1000) % 2 ^ 32 + 500) / 1000
    tu.adjustRange ((retval + fract) % 2 ^ 32)

/-- `kernel_time_adjust_msecs` -/
def adjustMsecs (tu : TimeUtil) (msecs : Nat) : Nat :=
  let low := 1000 * tu.minCounter / tu.baseCounter % 2 ^ 32
  let high := 1000 * tu.maxCounter / tu.baseCounter % 2 ^ 32
  if msecs < low then low else if high < msecs then high else msecs

/-- The counter value that stands for a time, after it is brought into range. -/
def counterOf (tu : TimeUtil) (msecs : Nat) : Nat := tu.getValue (tu.adjustMsecs msecs)

end TimeUtil

inductive ClockClient where
  | scheduler | alarms | timers
deriving DecidableEq, Repr

/-- The static data of `clock.c`; `callback` tells the clients whose callback is
installed. -/
structure Clock where
  tu : TimeUtil
  elapsedCounter : Nat
  period : Nat
  instPeriod : ClockClient → Nat
  callback : ClockClient → Bool

namespace Clock

/-- `clock_get_milliseconds` -/
def now (c : Clock) : Nat := c.tu.getElapsedMsecs c.elapsedCounter

def getLowest (instPeriod : ClockClient → Nat) : Nat :=
  [ClockClient.alarms, .timers].foldl
    (fun low i => if instPeriod i < low then instPeriod i else low) (instPeriod .scheduler)

/-- `clock_set_period` -/
def setPeriod (c : Clock) (ms : Nat) (client : ClockClient) : Clock :=
  let inst := Function.update c.instPeriod client (c.tu.counterOf ms)
  { c with instPeriod := inst, period := getLowest inst }

/-- `clock_add_cb` -/
def addCb (c : Clock) (client : ClockClient) : Clock × Bool :=
  if c.callback client then (c, false)
  else ({ c with callback := Function.update c.callback client true }, true)

/-- `clock_del_cb` -/
def delCb (c : Clock) (client : ClockClient) : Clock :=
  { c with callback := Function.update c.callback client false }

/-- `clock_int_handler`, up to the callbacks. -/
def tick (c : Clock) : Clock := { c with elapsedCounter := c.elapsedCounter + c.period }

@[simp] lemma setPeriod_tu (c : Clock) (ms : Nat) (i : ClockClient) :
    (c.setPeriod ms i).tu = c.tu := rfl

@[simp] lemma setPeriod_now (c : Clock) (ms : Nat) (i : ClockClient) :
    (c.setPeriod ms i).now = c.now := rfl

@[simp] lemma setPeriod_callback (c : Clock) (ms : Nat) (i : ClockClient) :
    (c.setPeriod ms i).callback = c.callback := rfl

@[simp] lemma setPeriod_self (c : Clock) (ms : Nat) (i : ClockClient) :
    (c.setPeriod ms i).instPeriod i = c.tu.counterOf ms := by
  simp [setPeriod]

lemma setPeriod_other (c : Clock) (ms : Nat) {i j : ClockClient} (h : j ≠ i) :
    (c.setPeriod ms i).instPeriod j = c.instPeriod j := by
  simp [setPeriod, h]

@[simp] lemma delCb_tu (c : Clock) (i : ClockClient) : (c.delCb i).tu = c.tu := rfl

@[simp] lemma delCb_now (c : Clock) (i : ClockClient) : (c.delCb i).now = c.now := rfl

@[simp] lemma delCb_instPeriod (c : Clock) (i : ClockClient) :
    (c.delCb i).instPeriod = c.instPeriod := rfl

end Clock

/-! ## Countdowns -/

/-- The common part of an alarm and a timer. -/
structure Countdown where
  expiration : Nat
  msecs : Nat
  recursive : Bool
  triggered : Bool
  expired : Bool
deriving DecidableEq, Repr

namespace Countdown

/-- Counting and not expired. -/
def pending (c : Countdown) : Bool := c.triggered && !c.expired

/-- The callback of the clock will let it expire at `now`. -/
def due (c : Countdown) (now : Nat) : Bool := c.pending && decide (c.expiration ≤ now)

/-- The flags after the expiration; only a recursive one keeps counting. -/
def expire (c : Countdown) : Countdown :=
  { c with expired := true, triggered := c.triggered && c.recursive }

/-- `alarm_set` and `timer_set` -/
def set (c : Countdown) (now : Nat) (start : Bool) : Countdown :=
  if start then { c with triggered := true, expired := false, expiration := c.msecs + now }
  else { c with triggered := false, expired := true, expiration := 0 }

end Countdown

/-- A list of countdowns and the period their callback has computed last. -/
structure Countdowns where
  list : List Nat
  item : Nat → Countdown
  period : Nat

namespace Countdowns

/-- No alarms or timers. -/
def init : Countdowns := ⟨[], fun _ => ⟨0, 0, false, false, false⟩, MAX_UINT⟩

/-- Overwrite one record. -/
def setItem (s : Countdowns) (p : Nat) (c : Countdown) : Countdowns :=
  { s with item := Function.update s.item p c }

/-- `alarm_create` and `timer_create` at the address `p`. -/
def create (s : Countdowns) (client : ClockClient) (clock : Clock) (p millisecs : Nat)
    (recursive : Bool) : Countdowns × Clock × Bool :=
  if millisecs = 0 then (s, clock, false)
  else
    let (clock, ok) := if s.list.length = 0 then clock.addCb client else (clock, true)
    if ok then
      let s' : Countdowns :=
        { s.setItem p ⟨0, millisecs, recursive, false, false⟩ with list := p :: s.list }
      (s', if millisecs < s.period then clock.setPeriod millisecs client else clock, true)
    else (s, clock, false)

/-- `alarm_set` and `timer_set` -/
def set (s : Countdowns) (clock : Clock) (p : Nat) (start : Bool) : Countdowns :=
  s.setItem p ((s.item p).set clock.now start)

/-- `alarm_update` and `timer_update` -/
def update (s : Countdowns) (client : ClockClient) (clock : Clock) (p millisecs : Nat)
    (recursive : Bool) : Countdowns × Clock × Bool :=
  if millisecs = 0 then (s, clock, false)
  else
    let c := s.item p
    let clock' :=
      if millisecs ≠ c.msecs ∧ millisecs < s.period then clock.setPeriod millisecs client
      else clock
    (s.setItem p { c with msecs := millisecs, recursive := recursive }, clock', true)

/-- `alarm_done` and `timer_done` -/
def done (s : Countdowns) (client : ClockClient) (clock : Clock) (p : Nat) :
    Countdowns × Clock :=
  let list := s.list.erase p
  ({ s with list := list },
    if list.length = 0 then (clock.setPeriod MAX_UINT client).delCb client else clock)

/-- One turn of the loop of `alarm_cb` and `timer_cb`. -/
def visit (now : Nat) (s : Countdowns) (p : Nat) : Countdowns :=
  let c := s.item p
  if c.due now then
    let s' := s.setItem p c.expire
    if c.recursive ∧ c.msecs < s.period then { s' with period := c.msecs } else s'
  else s

/-- The loop of `alarm_cb` and `timer_cb`. -/
def visitAll (s : Countdowns) (now : Nat) : Countdowns :=
  s.list.foldl (visit now) { s with period := MAX_UINT }

variable {s : Countdowns} {now p : Nat}

@[simp] lemma visit_list : (visit now s p).list = s.list := by
  unfold visit
  dsimp only
  split_ifs <;> rfl

lemma visit_item_other {q : Nat} (h : q ≠ p) : (visit now s p).item q = s.item q := by
  unfold visit
  dsimp only
  split_ifs <;> simp [setItem, h]

lemma visit_item_self :
    (visit now s p).item p = if (s.item p).due now then (s.item p).expire else s.item p := by
  unfold visit
  dsimp only
  split_ifs <;> simp [setItem]

lemma expire_not_due (c : Countdown) : c.expire.due now = false := by
  simp [Countdown.due, Countdown.pending, Countdown.expire]

/-- The record of a handle after the loop over a list of handles. -/
lemma foldl_visit_item (l : List Nat) :
    ∀ s : Countdowns, (l.foldl (visit now) s).list = s.list ∧ ∀ q,
      (l.foldl (visit now) s).item q =
        if q ∈ l ∧ (s.item q).due now then (s.item q).expire else s.item q := by
  induction l with
  | nil => simp
  | cons p l ih =>
    intro s
    obtain ⟨hlist, hitem⟩ := ih (visit now s p)
    refine ⟨hlist.trans visit_list, fun q => ?_⟩
    rw [List.foldl_cons, hitem q]
    by_cases hq : q = p
    · subst hq
      rw [visit_item_self]
      by_cases hdue : (s.item q).due now = true
      · simp [hdue, expire_not_due]
      · simp [hdue]
    · rw [visit_item_other hq]
      simp [hq]

@[simp] lemma visitAll_list : (s.visitAll now).list = s.list :=
  (foldl_visit_item s.list _).1

/-- The loop lets all that are due expire. -/
lemma visitAll_item (q : Nat) : (s.visitAll now).item q =
    if q ∈ s.list ∧ (s.item q).due now then (s.item q).expire else s.item q :=
  (foldl_visit_item s.list { s with period := MAX_UINT }).2 q

end Countdowns

end DiegOS.Kernel
