import DiegOS.Kernel.Alarms
import DiegOS.Kernel.Timers

/-!
# The periods asked of the clock

Alarms and timers share one clock.  Each of the two shortens its period when a
countdown is created or updated, and its callback computes the period again, from
the recursive countdowns that have just expired.  The callback of the timers
stores its result in the place of the alarms.

Main results:

- Theorem `periods_on_time`: in which runs the clock never outlasts a pending
  alarm or timer, and neither subsystem touches the other's period.
-/

namespace DiegOS.Kernel

open Lib Function

/-- Clock, alarms and timers. -/
structure TickSystem where
  clock : Clock
  alarms : Alarms
  timers : Countdowns

inductive TickAction where
  | alarmCreate (p millisecs : Nat) (recursive : Bool) (evqueue : Nat)
  | alarmSet (p : Nat) (start : Bool)
  | alarmAcknowledge (p : Nat)
  | alarmUpdate (p millisecs : Nat) (recursive : Bool)
  | alarmDone (p : Nat)
  | timerCreate (p millisecs : Nat) (recursive : Bool)
  | timerSet (p : Nat) (start : Bool)
  | timerUpdate (p millisecs : Nat) (recursive : Bool)
  | timerDone (p : Nat)
  | eventGet (evqueue : Nat)
  | schedule (msecs : Nat)
  | interrupt

namespace TickSystem

/-- The clock interrupt before the callback of the timers. -/
def alarmInterrupt (s : TickSystem) : Option TickSystem :=
  if s.clock.callback .alarms then
    (s.alarms.alarmCb s.clock.tick).map fun r => { s with alarms := r.1, clock := r.2 }
  else some { s with clock := s.clock.tick }

/-- The callback of the timers, if there is one. -/
def timerInterrupt (s : TickSystem) : TickSystem :=
  if s.clock.callback .timers then
    { s with timers := (timerCb s.timers s.clock).1, clock := (timerCb s.timers s.clock).2.1 }
  else s

/-- One action; new countdowns get an unused address, the others need a living one. -/
def exec (s : TickSystem) : TickAction → Option TickSystem
  | .alarmCreate p millisecs recursive evqueue =>
    if p ∈ s.alarms.cds.list then none
    else
      let (alarms, clock) := s.alarms.alarmCreate s.clock p millisecs recursive evqueue
      some { s with alarms := alarms, clock := clock }
  | .alarmSet p start =>
    if p ∈ s.alarms.cds.list then some { s with alarms := s.alarms.alarmSet s.clock p start }
    else none
  | .alarmAcknowledge p =>
    if p ∈ s.alarms.cds.list then some { s with alarms := s.alarms.alarmAcknowledge p } else none
  | .alarmUpdate p millisecs recursive =>
    if p ∈ s.alarms.cds.list then
      let (alarms, clock) := s.alarms.alarmUpdate s.clock p millisecs recursive
      some { s with alarms := alarms, clock := clock }
    else none
  | .alarmDone p =>
    if p ∈ s.alarms.cds.list then
      let (alarms, clock) := s.alarms.alarmDone s.clock p
      some { s with alarms := alarms, clock := clock }
    else none
  | .timerCreate p millisecs recursive =>
    if p ∈ s.timers.list then none
    else
      let (timers, clock, _) := Kernel.timerCreate s.timers s.clock p millisecs recursive
      some { s with timers := timers, clock := clock }
  | .timerSet p start =>
    if p ∈ s.timers.list then some { s with timers := Kernel.timerSet s.timers s.clock p start }
    else none
  | .timerUpdate p millisecs recursive =>
    if p ∈ s.timers.list then
      let (timers, clock, _) := Kernel.timerUpdate s.timers s.clock p millisecs recursive
      some { s with timers := timers, clock := clock }
    else none
  | .timerDone p =>
    if p ∈ s.timers.list then
      let (timers, clock) := Kernel.timerDone s.timers s.clock p
      some { s with timers := timers, clock := clock }
    else none
  | .eventGet evqueue => (s.alarms.eventGet evqueue).map fun alarms => { s with alarms := alarms }
  | .schedule msecs => some { s with clock := s.clock.setPeriod msecs .scheduler }
  | .interrupt => s.alarmInterrupt.map timerInterrupt

end TickSystem

/-! ## Countdowns and their period -/

/-- What is left until a countdown expires, as the clock can count it. -/
def Clock.remaining (clock : Clock) (c : Countdown) : Nat :=
  clock.tu.counterOf (c.expiration - clock.now)

namespace Countdowns

/-- The period of a client is no longer than what is left of its pending countdowns. -/
def OnTime (s : Countdowns) (client : ClockClient) (clock : Clock) : Prop :=
  ∀ p ∈ s.list, (s.item p).pending = true →
    clock.instPeriod client ≤ clock.remaining (s.item p)

/-- The shortest period of the recursive countdowns that are due. -/
def nextPeriod (s : Countdowns) (now : Nat) : Nat :=
  ((s.list.filter fun p => (s.item p).due now && (s.item p).recursive).map
    fun p => (s.item p).msecs).foldl min MAX_UINT

/-- A period that is asked for is no longer than what is left of the pending countdowns. -/
def Shortens (s : Countdowns) (clock : Clock) (millisecs : Nat) : Prop :=
  ∀ p ∈ s.list, (s.item p).pending = true →
    clock.tu.counterOf millisecs ≤ clock.remaining (s.item p)

/-- The callback of the clock is installed while there are countdowns. -/
structure Registered (s : Countdowns) (client : ClockClient) (clock : Clock) : Prop where
  nodup : s.list.Nodup
  callback : clock.callback client = decide (s.list ≠ [])

end Countdowns

/-- `c'` differs from `c` at most in the period and the callback of a client. -/
structure Clock.Keeps (client : ClockClient) (c c' : Clock) : Prop where
  tu : c'.tu = c.tu
  now : c'.now = c.now
  period : ∀ j, j ≠ client → c'.instPeriod j = c.instPeriod j
  callback : ∀ j, j ≠ client → c'.callback j = c.callback j

namespace Countdowns

variable {s : Countdowns} {client j : ClockClient} {clock clock' : Clock} {p millisecs now : Nat}
  {recursive start : Bool}

lemma OnTime.congr (h : s.OnTime j clock) (hk : clock.Keeps client clock') (hj : j ≠ client) :
    s.OnTime j clock' := by
  intro p hp hpend
  rw [Clock.remaining, hk.tu, hk.now, hk.period j hj]
  exact h p hp hpend

lemma Registered.congr (h : s.Registered j clock) (hk : clock.Keeps client clock')
    (hj : j ≠ client) : s.Registered j clock' :=
  ⟨h.nodup, by rw [hk.callback j hj, h.callback]⟩

lemma keeps_refl : clock.Keeps client clock := ⟨rfl, rfl, fun _ _ => rfl, fun _ _ => rfl⟩

lemma keeps_setPeriod : clock.Keeps client (clock.setPeriod millisecs client) :=
  ⟨rfl, rfl, fun _ hj => clock.setPeriod_other _ hj, fun _ _ => rfl⟩

lemma keeps_addCb : clock.Keeps client (clock.addCb client).1 := by
  unfold Clock.addCb
  split
  · exact keeps_refl
  · exact ⟨rfl, rfl, fun _ _ => rfl, fun j hj => update_of_ne hj _ _⟩

lemma Clock.Keeps.trans {c : Clock} (h : c.Keeps client clock)
    (h' : clock.Keeps client clock') : c.Keeps client clock' :=
  ⟨h'.tu.trans h.tu, h'.now.trans h.now, fun j hj => (h'.period j hj).trans (h.period j hj),
    fun j hj => (h'.callback j hj).trans (h.callback j hj)⟩

/-- Setting the period that a client may set. -/
lemma OnTime.setPeriod (h : s.Shortens clock millisecs) :
    s.OnTime client (clock.setPeriod millisecs client) := by
  intro p hp hpend
  rw [Clock.setPeriod_self]
  exact h p hp hpend

/-- What an operation of a client does: its countdowns stay in time and registered, and
the clock of the others stays as it was. -/
structure Serves (s' : Countdowns) (client : ClockClient) (clock clock' : Clock) : Prop where
  onTime : s'.OnTime client clock'
  registered : s'.Registered client clock'
  keeps : clock.Keeps client clock'

section

variable (h : s.OnTime client clock)
include h

/-- Overwriting the record of a living countdown. -/
lemma Serves.setItem (hr : s.Registered client clock)
    {c : Countdown} (hc : c.pending = true → clock.instPeriod client ≤ clock.remaining c) :
    (s.setItem p c).Serves client clock clock := by
  refine ⟨fun q hq hpend => ?_, ⟨hr.nodup, hr.callback⟩, keeps_refl⟩
  by_cases heq : q = p
  · subst heq
    simp only [Countdowns.setItem, update_self] at hpend ⊢
    exact hc hpend
  · simp only [Countdowns.setItem, update_of_ne heq] at hpend ⊢
    exact h q hq hpend

lemma create_serves (hr : s.Registered client clock)
    (hfresh : p ∉ s.list)
    (hshort : millisecs ≠ 0 → millisecs < s.period → s.Shortens clock millisecs) :
    (s.create client clock p millisecs recursive).1.Serves client clock
      (s.create client clock p millisecs recursive).2.1 := by
  by_cases hzero : millisecs = 0
  · simp only [create, if_pos hzero]
    exact ⟨h, hr, keeps_refl⟩
  · -- the callback is installed with the first countdown
    obtain ⟨clock₁, heq, hk, hinst⟩ : ∃ clock₁,
        (if s.list.length = 0 then clock.addCb client else (clock, true)) = (clock₁, true) ∧
        clock.Keeps client clock₁ ∧ clock₁.instPeriod = clock.instPeriod := by
      by_cases hnil : s.list.length = 0
      · have hoff : clock.callback client = false := by
          rw [hr.callback, List.length_eq_zero_iff.mp hnil]
          rfl
        refine ⟨(clock.addCb client).1, ?_, keeps_addCb, ?_⟩
        · rw [if_pos hnil, Clock.addCb, hoff]
          rfl
        · rw [Clock.addCb, hoff]
          rfl
      · exact ⟨clock, if_neg hnil, keeps_refl, rfl⟩
    have hon : clock₁.callback client = true := by
      by_cases hnil : s.list.length = 0
      · have hoff : clock.callback client = false := by
          rw [hr.callback, List.length_eq_zero_iff.mp hnil]
          rfl
        rw [if_pos hnil, Clock.addCb, hoff] at heq
        cases heq
        simp
      · rw [if_neg hnil] at heq
        cases heq
        rw [hr.callback]
        simpa [List.length_eq_zero_iff] using hnil
    simp only [create, if_neg hzero, heq, if_true]
    have hpending : ∀ {clock₂ : Clock}, s.OnTime client clock₂ →
        OnTime { s.setItem p ⟨0, millisecs, recursive, false, false⟩ with list := p :: s.list }
          client clock₂ := by
      intro clock₂ h₂ q hq hpend
      by_cases hqp : q = p
      · subst hqp
        simp [Countdowns.setItem, Countdown.pending] at hpend
      · simp only [Countdowns.setItem, update_of_ne hqp] at hpend ⊢
        exact h₂ q ((List.mem_cons.mp hq).resolve_left hqp) hpend
    by_cases hless : millisecs < s.period
    · rw [if_pos hless]
      refine ⟨hpending (OnTime.setPeriod ?_), ⟨List.nodup_cons.mpr ⟨hfresh, hr.nodup⟩, ?_⟩,
        Clock.Keeps.trans hk keeps_setPeriod⟩
      · intro q hq hpend
        rw [Clock.remaining, hk.tu, hk.now]
        exact hshort hzero hless q hq hpend
      · simpa using hon
    · rw [if_neg hless]
      refine ⟨hpending fun q hq hpend => ?_, ⟨List.nodup_cons.mpr ⟨hfresh, hr.nodup⟩, ?_⟩, hk⟩
      · rw [Clock.remaining, hk.tu, hk.now, hinst]
        exact h q hq hpend
      · simpa using hon

lemma update_serves (hr : s.Registered client clock)
    (hshort : millisecs ≠ 0 → millisecs ≠ (s.item p).msecs → millisecs < s.period →
      s.Shortens clock millisecs) (hp : p ∈ s.list) :
    (s.update client clock p millisecs recursive).1.Serves client clock
      (s.update client clock p millisecs recursive).2.1 := by
  by_cases hzero : millisecs = 0
  · simp only [update, if_pos hzero]
    exact ⟨h, hr, keeps_refl⟩
  · simp only [update, if_neg hzero]
    by_cases hless : millisecs ≠ (s.item p).msecs ∧ millisecs < s.period
    · rw [if_pos hless]
      have hshort' := hshort hzero hless.1 hless.2
      have hon : s.OnTime client (clock.setPeriod millisecs client) := OnTime.setPeriod hshort'
      have hserve := Serves.setItem (p := p) hon ⟨hr.nodup, hr.callback⟩
        (c := { s.item p with msecs := millisecs, recursive := recursive })
        fun hpend => hon p hp hpend
      exact ⟨hserve.onTime, hserve.registered, keeps_setPeriod⟩
    · rw [if_neg hless]
      exact Serves.setItem h hr fun hpend => h p hp hpend

lemma done_serves (hr : s.Registered client clock) :
    (s.done client clock p).1.Serves client clock (s.done client clock p).2 := by
  simp only [done]
  by_cases hnil : (s.list.erase p).length = 0
  · rw [if_pos hnil]
    have hempty := List.length_eq_zero_iff.mp hnil
    refine ⟨fun q hq => ?_, ⟨hr.nodup.erase p, ?_⟩, ⟨rfl, rfl, fun j hj => ?_, fun j hj => ?_⟩⟩
    · rw [hempty] at hq
      simp at hq
    · rw [hempty]
      simp [Clock.delCb]
    · exact clock.setPeriod_other _ hj
    · simp [Clock.delCb, hj]
  · rw [if_neg hnil]
    refine ⟨fun q hq => h q (List.mem_of_mem_erase hq), ⟨hr.nodup.erase p, ?_⟩, keeps_refl⟩
    rw [hr.callback]
    have hne : s.list ≠ [] := by
      rintro hs
      simp [hs] at hnil
    simpa [hne, List.length_eq_zero_iff] using hnil

end

/-! ## The callbacks -/

lemma foldl_visit_period (l : List Nat) : ∀ s : Countdowns, l.Nodup →
    (l.foldl (visit now) s).period =
      ((l.filter fun p => (s.item p).due now && (s.item p).recursive).map
        fun p => (s.item p).msecs).foldl min s.period := by
  induction l with
  | nil => simp
  | cons p l ih =>
    intro s hnodup
    obtain ⟨hp, hl⟩ := List.nodup_cons.mp hnodup
    have hother : ∀ q ∈ l, (visit now s p).item q = s.item q := by
      rintro q hq
      refine visit_item_other ?_
      rintro rfl
      exact hp hq
    have hfilter : (l.filter fun q => ((visit now s p).item q).due now &&
        ((visit now s p).item q).recursive) =
        l.filter fun q => (s.item q).due now && (s.item q).recursive :=
      List.filter_congr fun q hq => by rw [hother q hq]
    have hmap : ((l.filter fun q => (s.item q).due now && (s.item q).recursive).map
        fun q => ((visit now s p).item q).msecs) =
        (l.filter fun q => (s.item q).due now && (s.item q).recursive).map
          fun q => (s.item q).msecs :=
      List.map_congr_left fun q hq => by rw [hother q (List.mem_of_mem_filter hq)]
    have hperiod : (visit now s p).period =
        if (s.item p).due now && (s.item p).recursive then min s.period (s.item p).msecs
        else s.period := by
      unfold visit
      dsimp only
      by_cases hdue : (s.item p).due now = true <;>
        by_cases hrec : (s.item p).recursive = true <;>
          by_cases hlt : (s.item p).msecs < s.period <;>
            simp [hdue, hrec, hlt, Countdowns.setItem] <;> omega
    rw [List.foldl_cons, ih _ hl, hfilter, hmap, hperiod, List.filter_cons]
    by_cases hsel : ((s.item p).due now && (s.item p).recursive) = true
    · rw [if_pos hsel, if_pos hsel, List.map_cons, List.foldl_cons]
    · rw [if_neg hsel, if_neg hsel]

/-- The loop computes the shortest period of the recursive countdowns that are due. -/
lemma visitAll_period (hnodup : s.list.Nodup) : (s.visitAll now).period = s.nextPeriod now :=
  foldl_visit_period s.list { s with period := MAX_UINT } hnodup

/-- What is pending after the loop was pending and not due. -/
lemma visitAll_pending {q : Nat} (hq : q ∈ s.list)
    (hpend : ((s.visitAll now).item q).pending = true) :
    (s.visitAll now).item q = s.item q ∧ (s.item q).pending = true ∧
      (s.item q).due now = false := by
  rw [visitAll_item] at hpend ⊢
  by_cases hdue : (s.item q).due now = true
  · rw [if_pos ⟨hq, hdue⟩] at hpend
    simp [Countdown.pending, Countdown.expire] at hpend
  · rw [if_neg fun h => hdue h.2] at hpend ⊢
    exact ⟨rfl, hpend, by simpa using hdue⟩

end Countdowns

/-- The events that are put do not matter for the countdowns. -/
lemma Alarms.visit_cds {now p : Nat} {a a' : Alarms} (h : a.visit now p = some a') :
    a'.cds = a.cds.visit now p := by
  unfold Alarms.visit at h
  split at h
  · obtain ⟨queues, -, rfl⟩ := Option.map_eq_some_iff.mp h
    rfl
  · next hdue =>
      cases h
      simp [Countdowns.visit, hdue]

lemma Alarms.foldlM_visit_cds {now : Nat} (l : List Nat) :
    ∀ a a' : Alarms, l.foldlM (Alarms.visit now) a = some a' →
      a'.cds = l.foldl (Countdowns.visit now) a.cds := by
  induction l with
  | nil =>
    intro a a' h
    cases h
    rfl
  | cons p l ih =>
    intro a a' h
    rw [List.foldlM_cons] at h
    obtain ⟨a₁, hvisit, hrest⟩ := Option.bind_eq_some_iff.mp h
    rw [ih a₁ a' hrest, Alarms.visit_cds hvisit, List.foldl_cons]

/-- `alarm_cb` on alarms that exist. -/
lemma Alarms.alarmCb_eq {a a' : Alarms} {clock clock' : Clock} (hne : a.cds.list ≠ [])
    (h : a.alarmCb clock = some (a', clock')) :
    a'.cds = a.cds.visitAll clock.now ∧ clock' = clock.setPeriod a'.cds.period .alarms := by
  unfold Alarms.alarmCb at h
  dsimp only at h
  rw [if_neg (by simpa [List.length_eq_zero_iff] using hne)] at h
  obtain ⟨a₁, hfold, heq⟩ := Option.map_eq_some_iff.mp h
  cases heq
  exact ⟨Alarms.foldlM_visit_cds _ _ _ hfold, rfl⟩

/-! ## Runs -/

namespace TickSystem

/-- The condition on an action: a period that is asked for leaves no pending countdown
behind, and a countdown that starts finds a period that is short enough.  At an interrupt
the countdowns that stay pending outlast the recursive alarms that expire, and the timers
ask for what the alarms ask for. -/
def InTime (s : TickSystem) : TickAction → Prop
  | .alarmCreate _ millisecs _ _ => millisecs ≠ 0 → millisecs < s.alarms.cds.period →
      s.alarms.cds.Shortens s.clock millisecs
  | .alarmSet p start => start = true →
      s.clock.instPeriod .alarms ≤ s.clock.tu.counterOf (s.alarms.cds.item p).msecs
  | .alarmAcknowledge p =>
    ((s.alarms.cds.item p).recursive && (s.alarms.cds.item p).triggered &&
      (s.alarms.cds.item p).expired) = true →
    s.clock.instPeriod .alarms ≤ s.clock.tu.counterOf
      ((s.alarms.cds.item p).expiration + (s.alarms.cds.item p).msecs - s.clock.now)
  | .alarmUpdate p millisecs _ => millisecs ≠ 0 → millisecs ≠ (s.alarms.cds.item p).msecs →
      millisecs < s.alarms.cds.period → s.alarms.cds.Shortens s.clock millisecs
  | .timerCreate _ millisecs _ => millisecs ≠ 0 → millisecs < s.timers.period →
      s.timers.Shortens s.clock millisecs
  | .timerSet p start => start = true →
      s.clock.instPeriod .timers ≤ s.clock.tu.counterOf (s.timers.item p).msecs
  | .timerUpdate p millisecs _ => millisecs ≠ 0 → millisecs ≠ (s.timers.item p).msecs →
      millisecs < s.timers.period → s.timers.Shortens s.clock millisecs
  | .interrupt =>
    (∀ p ∈ s.alarms.cds.list, (s.alarms.cds.item p).pending = true →
      (s.alarms.cds.item p).due s.clock.tick.now = false →
      s.clock.tu.counterOf (s.alarms.cds.nextPeriod s.clock.tick.now) ≤
        s.clock.tick.remaining (s.alarms.cds.item p)) ∧
    (∀ p ∈ s.timers.list, (s.timers.item p).pending = true →
      (s.timers.item p).due s.clock.tick.now = false →
      s.clock.instPeriod .timers ≤ s.clock.tick.remaining (s.timers.item p)) ∧
    (s.timers.list ≠ [] → s.clock.tu.counterOf (s.timers.nextPeriod s.clock.tick.now) =
      if s.alarms.cds.list = [] then s.clock.instPeriod .alarms
      else s.clock.tu.counterOf (s.alarms.cds.nextPeriod s.clock.tick.now))
  | .alarmDone _ | .timerDone _ | .eventGet _ | .schedule _ => True

/-- The operations of a subsystem do not change the period of the other one; at an
interrupt this is asked of either callback. -/
def KeepsOther (s s' : TickSystem) : TickAction → Prop
  | .alarmCreate .. | .alarmSet .. | .alarmAcknowledge _ | .alarmUpdate .. | .alarmDone _ =>
    s'.clock.instPeriod .timers = s.clock.instPeriod .timers
  | .timerCreate .. | .timerSet .. | .timerUpdate .. | .timerDone _ =>
    s'.clock.instPeriod .alarms = s.clock.instPeriod .alarms
  | .interrupt => ∃ s₁, s.alarmInterrupt = some s₁ ∧
      s₁.clock.instPeriod .timers = s.clock.instPeriod .timers ∧
      s'.clock.instPeriod .alarms = s₁.clock.instPeriod .alarms
  | .eventGet _ | .schedule _ => True

/-- Both subsystems are in time and registered. -/
structure Timely (s : TickSystem) : Prop where
  alarms : s.alarms.cds.OnTime .alarms s.clock
  timers : s.timers.OnTime .timers s.clock
  alarmsReg : s.alarms.cds.Registered .alarms s.clock
  timersReg : s.timers.Registered .timers s.clock

variable {s s' : TickSystem}

/-- An operation of the alarms. -/
lemma Timely.ofAlarms (h : s.Timely) {alarms : Alarms} {clock : Clock}
    (hserve : alarms.cds.Serves .alarms s.clock clock) :
    Timely { s with alarms := alarms, clock := clock } ∧
      clock.instPeriod .timers = s.clock.instPeriod .timers :=
  ⟨⟨hserve.onTime, h.timers.congr hserve.keeps (by decide), hserve.registered,
    h.timersReg.congr hserve.keeps (by decide)⟩, hserve.keeps.period _ (by decide)⟩

/-- An operation of the timers. -/
lemma Timely.ofTimers (h : s.Timely) {timers : Countdowns} {clock : Clock}
    (hserve : timers.Serves .timers s.clock clock) :
    Timely { s with timers := timers, clock := clock } ∧
      clock.instPeriod .alarms = s.clock.instPeriod .alarms :=
  ⟨⟨h.alarms.congr hserve.keeps (by decide), hserve.onTime,
    h.alarmsReg.congr hserve.keeps (by decide), hserve.registered⟩,
    hserve.keeps.period _ (by decide)⟩

/-- Starting or stopping a countdown. -/
lemma set_serves {c : Countdowns} {client : ClockClient} {clock : Clock} {p : Nat}
    {start : Bool} (h : c.OnTime client clock) (hr : c.Registered client clock)
    (hshort : start = true → clock.instPeriod client ≤ clock.tu.counterOf (c.item p).msecs) :
    (c.set clock p start).Serves client clock clock := by
  refine Countdowns.Serves.setItem h hr fun hpend => ?_
  cases start with
  | false => simp [Countdown.set, Countdown.pending] at hpend
  | true =>
    have hrest : (c.item p).msecs + clock.now - clock.now = (c.item p).msecs := by omega
    simp only [Countdown.set, if_true, Clock.remaining, hrest]
    exact hshort rfl

/-- The state before the callback of the timers. -/
lemma alarmInterrupt_spec (h : s.Timely) {s₁ : TickSystem} (hs₁ : s.alarmInterrupt = some s₁) :
    s₁.timers = s.timers ∧ s₁.clock.tu = s.clock.tu ∧ s₁.clock.now = s.clock.tick.now ∧
      s₁.clock.instPeriod .timers = s.clock.instPeriod .timers ∧
      s₁.clock.instPeriod .alarms = (if s.alarms.cds.list = [] then s.clock.instPeriod .alarms
        else s.clock.tu.counterOf (s.alarms.cds.nextPeriod s.clock.tick.now)) ∧
      s₁.clock.callback = s.clock.callback ∧ s₁.alarms.cds.list = s.alarms.cds.list ∧
      ∀ q ∈ s.alarms.cds.list, (s₁.alarms.cds.item q).pending = true →
        s₁.alarms.cds.item q = s.alarms.cds.item q ∧ (s.alarms.cds.item q).pending = true ∧
          (s.alarms.cds.item q).due s.clock.tick.now = false := by
  unfold alarmInterrupt at hs₁
  by_cases hnil : s.alarms.cds.list = []
  · have hoff : s.clock.callback .alarms = false := by rw [h.alarmsReg.callback, hnil]; rfl
    rw [hoff] at hs₁
    cases hs₁
    rw [if_pos hnil]
    refine ⟨rfl, rfl, rfl, rfl, rfl, rfl, rfl, fun q hq => ?_⟩
    rw [hnil] at hq
    simp at hq
  · have hon : s.clock.callback .alarms = true := by simp [h.alarmsReg.callback, hnil]
    rw [if_pos hon] at hs₁
    obtain ⟨⟨alarms, clock⟩, hcb, rfl⟩ := Option.map_eq_some_iff.mp hs₁
    obtain ⟨hcds, rfl⟩ := Alarms.alarmCb_eq hnil hcb
    have hperiod : alarms.cds.period = s.alarms.cds.nextPeriod s.clock.tick.now := by
      rw [hcds, Countdowns.visitAll_period h.alarmsReg.nodup]
    refine ⟨rfl, rfl, rfl, Clock.setPeriod_other _ _ (by decide), ?_, rfl, ?_,
      fun q hq hpend => ?_⟩
    · rw [if_neg hnil, Clock.setPeriod_self, hperiod]
      rfl
    · dsimp only
      rw [hcds, Countdowns.visitAll_list]
    · dsimp only at hpend ⊢
      rw [hcds] at hpend ⊢
      exact Countdowns.visitAll_pending hq hpend

lemma Timely.interrupt (h : s.Timely) (hin : s.InTime .interrupt)
    (hstep : s.exec .interrupt = some s') : s'.Timely ∧ s.KeepsOther s' .interrupt := by
  obtain ⟨hinA, hinT, hsame⟩ := hin
  obtain ⟨s₁, hs₁, rfl⟩ := Option.map_eq_some_iff.mp hstep
  obtain ⟨htimers, htu, hnow, hperT, hperA, hcb, hlist, hpend⟩ := alarmInterrupt_spec h hs₁
  have hrem : ∀ c, s₁.clock.remaining c = s.clock.tick.remaining c := by
    intro c
    rw [Clock.remaining, Clock.remaining, htu, hnow]
    rfl
  have honA : s₁.alarms.cds.OnTime .alarms s₁.clock := by
    intro q hq hqpend
    rw [hlist] at hq
    obtain ⟨hitem, hbefore, hdue⟩ := hpend q hq hqpend
    rw [hitem, hrem, hperA, if_neg (List.ne_nil_of_mem hq)]
    exact hinA q hq hbefore hdue
  have hregA : s₁.alarms.cds.Registered .alarms s₁.clock := by
    refine ⟨by rw [hlist]; exact h.alarmsReg.nodup, ?_⟩
    rw [hlist, hcb]
    exact h.alarmsReg.callback
  have hregT : s₁.timers.Registered .timers s₁.clock := by
    refine ⟨by rw [htimers]; exact h.timersReg.nodup, ?_⟩
    rw [htimers, hcb]
    exact h.timersReg.callback
  by_cases hnil : s.timers.list = []
  · have hoff : s₁.clock.callback .timers = false := by
      rw [hregT.callback, htimers, hnil]
      rfl
    have heq : s₁.timerInterrupt = s₁ := by
      rw [timerInterrupt, hoff]
      rfl
    rw [heq]
    refine ⟨⟨honA, fun q hq => ?_, hregA, hregT⟩, s₁, hs₁, hperT, rfl⟩
    rw [htimers, hnil] at hq
    simp at hq
  · have hon : s₁.clock.callback .timers = true := by simp [hregT.callback, htimers, hnil]
    have heq : s₁.timerInterrupt = { s₁ with
        timers := s₁.timers.visitAll s₁.clock.now
        clock := s₁.clock.setPeriod (s₁.timers.visitAll s₁.clock.now).period .alarms } := by
      rw [timerInterrupt, if_pos hon]
      rfl
    have hnext : (s₁.timers.visitAll s₁.clock.now).period =
        s.timers.nextPeriod s.clock.tick.now := by
      rw [Countdowns.visitAll_period hregT.nodup, htimers, hnow]
    have hkeep : s₁.clock.tu.counterOf (s₁.timers.visitAll s₁.clock.now).period =
        s₁.clock.instPeriod .alarms := by
      rw [hnext, htu, hperA]
      exact hsame hnil
    rw [heq]
    refine ⟨⟨fun q hq hqpend => ?_, fun q hq hqpend => ?_, ⟨hregA.nodup, hregA.callback⟩, ?_⟩,
      s₁, hs₁, hperT, ?_⟩
    · rw [Clock.setPeriod_self, hkeep]
      exact honA q hq hqpend
    · dsimp only at hq hqpend ⊢
      rw [Countdowns.visitAll_list] at hq
      obtain ⟨hitem, hbefore, hdue⟩ := Countdowns.visitAll_pending hq hqpend
      rw [htimers] at hq hbefore hdue
      rw [hnow] at hdue
      rw [hitem, Clock.setPeriod_other _ _ (by decide), hperT, htimers]
      have hrest := hinT q hq hbefore hdue
      rw [← hrem] at hrest
      exact hrest
    · refine ⟨?_, ?_⟩
      · dsimp only
        rw [Countdowns.visitAll_list]
        exact hregT.nodup
      · dsimp only
        rw [Countdowns.visitAll_list]
        exact hregT.callback
    · dsimp only
      rw [Clock.setPeriod_self, hkeep]

/-- Every action in time keeps the system timely and the other subsystem's period. -/
lemma Timely.step (h : s.Timely) {act : TickAction} (hin : s.InTime act)
    (hstep : s.exec act = some s') : s'.Timely ∧ s.KeepsOther s' act := by
  cases act with
  | alarmCreate p millisecs recursive evqueue =>
    simp only [exec] at hstep
    split at hstep
    · contradiction
    · next hfresh =>
        cases hstep
        exact h.ofAlarms (Countdowns.create_serves h.alarms h.alarmsReg hfresh hin)
  | alarmSet p start =>
    simp only [exec] at hstep
    split at hstep
    · cases hstep
      exact h.ofAlarms (set_serves h.alarms h.alarmsReg hin)
    · contradiction
  | alarmAcknowledge p =>
    simp only [exec] at hstep
    split at hstep
    · cases hstep
      refine h.ofAlarms ?_
      unfold Alarms.alarmAcknowledge
      dsimp only
      split
      · next hack => exact Countdowns.Serves.setItem h.alarms h.alarmsReg fun _ => hin hack
      · exact ⟨h.alarms, h.alarmsReg, Countdowns.keeps_refl⟩
    · contradiction
  | alarmUpdate p millisecs recursive =>
    simp only [exec] at hstep
    split at hstep
    · next hp =>
        cases hstep
        exact h.ofAlarms (Countdowns.update_serves h.alarms h.alarmsReg hin hp)
    · contradiction
  | alarmDone p =>
    simp only [exec] at hstep
    split at hstep
    · cases hstep
      exact h.ofAlarms (Countdowns.done_serves h.alarms h.alarmsReg)
    · contradiction
  | timerCreate p millisecs recursive =>
    simp only [exec] at hstep
    split at hstep
    · contradiction
    · next hfresh =>
        cases hstep
        exact h.ofTimers (Countdowns.create_serves h.timers h.timersReg hfresh hin)
  | timerSet p start =>
    simp only [exec] at hstep
    split at hstep
    · cases hstep
      exact h.ofTimers (set_serves h.timers h.timersReg hin)
    · contradiction
  | timerUpdate p millisecs recursive =>
    simp only [exec] at hstep
    split at hstep
    · next hp =>
        cases hstep
        exact h.ofTimers (Countdowns.update_serves h.timers h.timersReg hin hp)
    · contradiction
  | timerDone p =>
    simp only [exec] at hstep
    split at hstep
    · cases hstep
      exact h.ofTimers (Countdowns.done_serves h.timers h.timersReg)
    · contradiction
  | eventGet evqueue =>
    obtain ⟨alarms, hget, rfl⟩ := Option.map_eq_some_iff.mp hstep
    obtain ⟨r, -, rfl⟩ := Option.map_eq_some_iff.mp hget
    exact ⟨⟨h.alarms, h.timers, h.alarmsReg, h.timersReg⟩, trivial⟩
  | schedule msecs =>
    cases hstep
    have hk := @Countdowns.keeps_setPeriod .scheduler s.clock msecs
    exact ⟨⟨h.alarms.congr hk (by decide), h.timers.congr hk (by decide),
      h.alarmsReg.congr hk (by decide), h.timersReg.congr hk (by decide)⟩, trivial⟩
  | interrupt => exact h.interrupt hin hstep

/-- A system that has just been started. -/
structure Starts (s : TickSystem) : Prop where
  alarms : s.alarms = .init
  timers : s.timers = .init
  callback : ∀ client, s.clock.callback client = false

/-- In every run whose actions meet the condition, the period of the alarms is at most what
is left of every pending alarm, the period of the timers is at most what is left of every
pending timer, and no operation of one subsystem changes the period of the other. -/
theorem periods_on_time {s₀ s : TickSystem} (h₀ : s₀.Starts)
    (hrun : PartialRuns exec (fun s act => s.InTime act) s₀ s) :
    (∀ p ∈ s.alarms.cds.list, (s.alarms.cds.item p).pending = true →
      s.clock.instPeriod .alarms ≤ s.clock.remaining (s.alarms.cds.item p)) ∧
    (∀ p ∈ s.timers.list, (s.timers.item p).pending = true →
      s.clock.instPeriod .timers ≤ s.clock.remaining (s.timers.item p)) ∧
    ∀ act s', s.InTime act → s.exec act = some s' → s.KeepsOther s' act := by
  have hstart : s₀.Timely := by
    obtain ⟨halarms, htimers, hcb⟩ := h₀
    refine ⟨?_, ?_, ⟨?_, ?_⟩, ⟨?_, ?_⟩⟩ <;>
      simp [halarms, htimers, hcb, Alarms.init, Countdowns.init, Countdowns.OnTime]
  have htimely := PartialRuns.invariant (P := Timely)
    (fun s act s' h hin hstep => (h.step hin hstep).1) hrun hstart
  exact ⟨htimely.alarms, htimely.timers, fun act s' hin hstep => (htimely.step hin hstep).2⟩

end TickSystem

/-- The system before the first alarm and timer. -/
def silent : TickSystem := ⟨kilohertz, .init, .init⟩

/-- An alarm of ten milliseconds that counts. -/
def oneAlarm : TickSystem :=
  { silent with
    alarms := ((silent.alarms.alarmCreate silent.clock 1 10 false 7).1.alarmSet
      (silent.alarms.alarmCreate silent.clock 1 10 false 7).2 1 true)
    clock := (silent.alarms.alarmCreate silent.clock 1 10 false 7).2 }

/-- The clock is asked for the ten milliseconds of the only alarm. -/
theorem periods_on_time_alarm :
    oneAlarm.clock.instPeriod .alarms = 10 ∧
      oneAlarm.clock.instPeriod .alarms ≤
        oneAlarm.clock.remaining (oneAlarm.alarms.cds.item 1) := by
  have hrun : PartialRuns TickSystem.exec (fun s act => s.InTime act) silent oneAlarm :=
    ((PartialRuns.refl silent).tail (i := .alarmCreate 1 10 false 7)
      (fun _ _ p hp => by simp [silent, Alarms.init, Countdowns.init] at hp) rfl).tail
      (i := .alarmSet 1 true) (fun _ => by decide) rfl
  exact ⟨by decide,
    (TickSystem.periods_on_time ⟨rfl, rfl, fun _ => rfl⟩ hrun).1 1 (by decide) (by decide)⟩

/-- A second, longer alarm makes the clock outlast the first one; and the callback of the
timers shortens the period of the alarms. -/
theorem periods_late :
    (∃ s, PartialRuns TickSystem.exec (fun _ _ => True) silent s ∧ 1 ∈ s.alarms.cds.list ∧
      (s.alarms.cds.item 1).pending = true ∧ s.clock.instPeriod .alarms = 500 ∧
      s.clock.remaining (s.alarms.cds.item 1) = 100) ∧
    ∃ s s', PartialRuns TickSystem.exec (fun _ _ => True) silent s ∧
      s.exec .interrupt = some s' ∧ ¬s.KeepsOther s' .interrupt := by
  constructor
  · obtain ⟨s, hs, hlast⟩ : ∃ s ∈ checkedRun TickSystem.exec (fun _ _ => True)
        [.alarmCreate 1 100 false 7, .alarmCreate 2 500 false 7, .alarmSet 1 true] silent,
        1 ∈ s.alarms.cds.list ∧ (s.alarms.cds.item 1).pending = true ∧
          s.clock.instPeriod .alarms = 500 ∧ s.clock.remaining (s.alarms.cds.item 1) = 100 := by
      decide
    exact ⟨s, PartialRuns.of_checkedRun _ (PartialRuns.refl silent) hs, hlast⟩
  · obtain ⟨s, hs, ⟨s', hs', hafter⟩, hbefore⟩ : ∃ s ∈ checkedRun TickSystem.exec
        (fun _ _ => True) [.timerCreate 3 50 true, .timerSet 3 true, .alarmCreate 1 100 false 7]
        silent, (∃ s' ∈ s.exec .interrupt, s'.clock.instPeriod .alarms = 50) ∧
        ∀ s₁ ∈ s.alarmInterrupt, s₁.clock.instPeriod .alarms = 60000 := by decide
    refine ⟨s, s', PartialRuns.of_checkedRun _ (PartialRuns.refl silent) hs, hs', ?_⟩
    rintro ⟨s₁, hs₁, -, heq⟩
    rw [hafter, hbefore s₁ hs₁] at heq
    omega

end DiegOS.Kernel
