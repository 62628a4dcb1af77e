import DiegOS.Kernel.SystemTime
import DiegOS.Kernel.TimersThread

/-!
# The callbacks of the timers

A timer is marked expired by the clock interrupt, and the timers thread calls back
all that are marked.  `timer_set` also marks a timer that it stops, so that
starting, stopping, expiring and calling back share two flags.

Main results:

- Theorem `callback_after_expiry`: in which runs a callback is called only after
  its timer has been started and its time has passed, at most once for each expiry,
  and no expired timer is left behind when the thread blocks.
-/

namespace DiegOS.Kernel

open Lib

/-- The elapsed time does not decrease. -/
lemma Clock.now_le_tick (c : Clock) : c.now ≤ c.tick.now := by
  unfold now tick
  dsimp only
  rw [TimeUtil.getElapsedMsecs_eq, TimeUtil.getElapsedMsecs_eq]
  exact Nat.div_le_div_right (by omega)

/-- A timer behind the cursor's is found from the next timer on. -/
lemma Countdowns.mem_suffix_next {s : Countdowns} {c q : Nat} (hnodup : s.list.Nodup)
    (hc : c ∈ s.list) (hq : q ∈ (s.suffix c).tail) : ∃ d, s.next c = some d ∧ q ∈ s.suffix d := by
  cases hnext : s.next c with
  | none =>
    rw [Countdowns.next, List.head?_eq_none_iff] at hnext
    simp [hnext] at hq
  | some d =>
    rw [← suffix_next hnodup hc hnext] at hq
    exact ⟨d, rfl, hq⟩

namespace TimersThread

variable {s s' : TimersThread} {p q : Nat}

/-- The thread will look at the timer before it calls `wait_for_barrier` again. -/
def Ahead (s : TimersThread) (p : Nat) : Prop :=
  match s.stage with
  | .start | .ready => True
  | .scan (some c) | .callback c => p ∈ s.timers.suffix c
  | .rearm c => p ∈ (s.timers.suffix c).tail
  | _ => False

/-- What the users of the timers keep to.  A timer that has been stopped is started again
or deleted before the thread looks at it or blocks, and not stopped while the thread is
blocked; no timer is made one-shot between its expiry and the end of its callback, and no
time that is running or over is made longer; a callback does not let the scheduler close
the barrier, nor take so long that its timer is due again when it returns; the timer that the
thread stands on is not deleted, not by its own callback either; and no timer expires before
the thread has run. -/
def Heeds (s : TimersThread) : TimersAction → Prop
  | .run =>
    match s.stage with
    | .start => ∀ p ∈ s.timers.list, (s.timers.item p).expired = false
    | .enter => s.isOpen = true ∨ ∀ p ∈ s.timers.list,
        (s.timers.item p).expired = true → (s.timers.item p).expiration ≠ 0
    | .scan (some p) => (s.timers.item p).expired = true → (s.timers.item p).expiration ≠ 0
    | .callback p => (s.timers.item p).expired = true → (s.timers.item p).triggered = true →
        (s.timers.item p).recursive = true
    | _ => True
  | .schedule => s.stage.inCallback = true → s.isOpen = false
  | .interrupt =>
    match s.stage with
    | .rearm p => (s.timers.item p).due s.clock.tick.now = false
    | _ => True
  | .set p start => start = false →
      (s.stage = .blocked → s.isOpen = true) ∧ s.stage ≠ .rearm p
  | .update p millisecs _ =>
    (s.timers.item p).pending = true ∨
        ((s.timers.item p).expired = true ∧ s.stage ≠ .callback p) →
      millisecs ≤ (s.timers.item p).msecs
  | .done p => s.stage.cursor ≠ some p
  | _ => True

/-- What is true of a timer and of what has happened to it. -/
structure Sane (s : TimersThread) (p : Nat) : Prop where
  armed : (s.timers.item p).triggered = true →
    ∃ t, s.hist.armed p = some t ∧ t ≤ s.clock.now
  counting : s.stage ≠ .rearm p → (s.timers.item p).pending = true →
    ∃ t, s.hist.armed p = some t ∧ t + (s.timers.item p).msecs ≤ (s.timers.item p).expiration
  real : s.stage ≠ .callback p → (s.timers.item p).expired = true →
    (s.timers.item p).expiration ≠ 0 →
    (∃ t, s.hist.armed p = some t ∧ t + (s.timers.item p).msecs ≤ s.clock.now) ∧
      s.hist.calls p < s.hist.expiries p
  calls : s.hist.calls p ≤ s.hist.expiries p
  rearmed : s.stage = .rearm p → (s.timers.item p).expired = false
  kept : (s.timers.item p).expired = true →
    (s.timers.item p).expiration = 0 ∨ s.isOpen = true ∨ s.Ahead p

/-- Nothing that concerns the timer has changed. -/
lemma Sane.frame (h : s.Sane p) (hitem : s'.timers.item p = s.timers.item p)
    (harmed : s'.hist.armed p = s.hist.armed p) (hcalls : s'.hist.calls p = s.hist.calls p)
    (hexp : s'.hist.expiries p = s.hist.expiries p) (hnow : s.clock.now ≤ s'.clock.now)
    (hcb : s.stage = .callback p → s'.stage = .callback p)
    (hre : s.stage = .rearm p ↔ s'.stage = .rearm p)
    (hkept : (s.timers.item p).expired = true → s.isOpen = true ∨ s.Ahead p →
      s'.isOpen = true ∨ s'.Ahead p) : s'.Sane p := by
  constructor
  · rw [hitem, harmed]
    intro htrig
    obtain ⟨t, ht, hle⟩ := h.armed htrig
    exact ⟨t, ht, hle.trans hnow⟩
  · rw [hitem, harmed]
    exact fun hne => h.counting fun hs => hne (hre.mp hs)
  · rw [hitem, harmed, hcalls, hexp]
    intro hne hexpired hreal
    obtain ⟨⟨t, ht, hle⟩, hlt⟩ := h.real (fun hs => hne (hcb hs)) hexpired hreal
    exact ⟨⟨t, ht, hle.trans hnow⟩, hlt⟩
  · rw [hcalls, hexp]
    exact h.calls
  · rw [hitem, ← hre]
    exact h.rearmed
  · rw [hitem]
    intro hexpired
    rcases h.kept hexpired with hzero | hrest
    · exact .inl hzero
    · exact .inr (hkept hexpired hrest)

/-- The whole state; `log` is about the calls made so far. -/
structure Truthful (s : TimersThread) : Prop where
  linked : s.Linked
  sane : ∀ p ∈ s.timers.list, s.Sane p
  waits : s.stage = .blocked → s.waits = true
  blocked : s.stage = .blocked → ∀ p ∈ s.timers.list, (s.timers.item p).expired = true →
    s.isOpen = true
  log : ∀ i ∈ s.hist.log, ∃ t, i.armed = some t ∧ t + i.msecs ≤ i.time

/-- A timer that the thread is not busy with, while the thread goes on. -/
lemma Sane.away (h : s.Sane p) (hitem : s'.timers.item p = s.timers.item p)
    (harmed : s'.hist.armed p = s.hist.armed p) (hcalls : s'.hist.calls p = s.hist.calls p)
    (hexp : s'.hist.expiries p = s.hist.expiries p) (hnow : s.clock.now ≤ s'.clock.now)
    (hcb : s.stage ≠ .callback p) (hre : s.stage ≠ .rearm p) (hre' : s'.stage ≠ .rearm p)
    (hkept : (s.timers.item p).expired = true → s.isOpen = true ∨ s.Ahead p →
      s'.isOpen = true ∨ s'.Ahead p) : s'.Sane p :=
  h.frame hitem harmed hcalls hexp hnow (fun hs => absurd hs hcb)
    ⟨fun hs => absurd hs hre, fun hs => absurd hs hre'⟩ hkept

/-- The list of the timers is ahead when the loop begins. -/
lemma ahead_pass (hp : p ∈ s.timers.list) : s.pass.Ahead p := by
  unfold Ahead pass
  dsimp only
  cases hhead : s.timers.list.head? with
  | none => simp [List.head?_eq_none_iff.mp hhead] at hp
  | some c => simpa [Countdowns.suffix_head hhead] using hp

/-- A timer behind the cursor's stays ahead when the cursor moves on. -/
lemma ahead_next {c : Nat} (hlinked : s.Linked) (hc : c ∈ s.timers.list)
    (hq : q ∈ (s.timers.suffix c).tail) (hstage : s'.stage = .scan (s.timers.next c))
    (hlist : s'.timers.list = s.timers.list) : s'.Ahead q := by
  obtain ⟨d, hd, hmem⟩ := Countdowns.mem_suffix_next hlinked.nodup hc hq
  unfold Ahead
  rw [hstage, hd]
  simpa [Countdowns.suffix, hlist] using hmem

section

variable (h : s.Truthful)
include h

lemma step_truthful (hheeds : s.Heeds .run) (hstep : s.step = some s') :
    s'.Truthful := by
  have hlinked := step_linked h.linked hstep
  cases hstage : s.stage with
  | scan cursor =>
    cases cursor with
    | none =>
      simp only [step, hstage, Option.some.injEq] at hstep
      subst hstep
      refine ⟨hlinked, fun p hp => ?_, by simp, by simp, h.log⟩
      refine (h.sane p hp).away rfl rfl rfl rfl le_rfl ?_ ?_ ?_ ?_ <;> simp [hstage, Ahead]
    | some c =>
      have hc := h.linked.cursor c (by rw [hstage]; rfl)
      simp only [step, hstage] at hstep
      split at hstep
      · next hexpired =>
          cases hstep
          simp only [Heeds, hstage] at hheeds
          obtain ⟨harmed, hcalls⟩ := (h.sane c hc).real (by simp [hstage]) hexpired
            (hheeds hexpired)
          refine ⟨hlinked, fun p hp => ?_, by simp [invoke], by simp [invoke], ?_⟩
          · by_cases hpc : p = c
            · subst hpc
              constructor <;> simp [invoke, hexpired, Countdown.pending, Ahead]
              · omega
              · rw [Countdowns.suffix_eq_cons h.linked.nodup hc]
                simp
            · refine (h.sane p hp).away rfl ?_ ?_ rfl le_rfl (by simp [hstage])
                (by simp [hstage]) (by simp [invoke]) ?_
              · simp [invoke, hpc]
              · simp [invoke, hpc]
              · simp [invoke, Ahead, hstage]
          · intro i hi
            rcases List.mem_cons.mp hi with rfl | hi
            · exact harmed
            · exact h.log i hi
      · next hexpired =>
          cases hstep
          refine ⟨hlinked, fun p hp => ?_, by simp, by simp, h.log⟩
          refine (h.sane p hp).away rfl rfl rfl rfl le_rfl (by simp [hstage])
            (by simp [hstage]) (by simp) fun hexp hahead => ?_
          refine hahead.imp_right ?_
          intro hin
          simp only [Ahead, hstage] at hin
          rw [Countdowns.suffix_eq_cons h.linked.nodup hc, List.mem_cons] at hin
          rcases hin with rfl | hin
          · contradiction
          · exact ahead_next h.linked hc hin rfl rfl
  | callback c =>
    have hc := h.linked.cursor c (by rw [hstage]; rfl)
    have hcsane := h.sane c hc
    simp only [step, hstage, Option.some.injEq] at hstep
    subst hstep
    simp only [Heeds, hstage] at hheeds
    have hstage' : (s.finish c).stage = .rearm c ∧ (s.timers.item c).recursive = true ∨
        (s.finish c).stage = .scan (s.timers.next c) ∧
          (s.timers.item c).recursive = false := by
      cases hrec : (s.timers.item c).recursive <;> simp [finish, hrec]
    refine ⟨hlinked, fun p hp => ?_, ?_, ?_, h.log⟩
    · by_cases hpc : p = c
      · subst hpc
        have hitem : (s.finish p).timers.item p =
            { s.timers.item p with expired := false } := by
          simp [finish, Countdowns.setItem]
        constructor
        · rw [hitem]
          exact hcsane.armed
        · -- a one-shot timer counts only if its callback has started it again
          rw [hitem]
          intro hre hpending
          rcases hstage' with ⟨hstage', -⟩ | ⟨-, hrec⟩
          · exact absurd hstage' hre
          · have htrig : (s.timers.item p).triggered = true := by
              simpa [Countdown.pending] using hpending
            have hnot : (s.timers.item p).expired = false := by
              by_contra hexp
              simp [hheeds (by simpa using hexp) htrig] at hrec
            apply hcsane.counting
            · simp [hstage]
            · simp [Countdown.pending, htrig, hnot]
        · simp [hitem]
        · exact hcsane.calls
        · simp [hitem]
        · simp [hitem]
      · refine (h.sane p hp).away ?_ rfl rfl rfl le_rfl ?_ ?_ ?_ ?_
        · simp [finish, Countdowns.setItem, hpc]
        · simp [hstage, Ne.symm hpc]
        · simp [hstage]
        · rcases hstage' with ⟨hstage', -⟩ | ⟨hstage', -⟩ <;> simp [hstage', Ne.symm hpc]
        · intro _ hahead
          refine hahead.imp_right fun hin => ?_
          simp only [Ahead, hstage] at hin
          rw [Countdowns.suffix_eq_cons h.linked.nodup hc, List.mem_cons] at hin
          have htail := hin.resolve_left hpc
          rcases hstage' with ⟨hstage', -⟩ | ⟨hstage', -⟩
          · unfold Ahead
            rw [hstage']
            exact htail
          · exact ahead_next h.linked hc htail hstage' rfl
    all_goals rcases hstage' with ⟨hstage', -⟩ | ⟨hstage', -⟩ <;> simp [hstage']
  | rearm c =>
    have hc := h.linked.cursor c (by rw [hstage]; rfl)
    have hcsane := h.sane c hc
    have hnot := hcsane.rearmed hstage
    simp only [step, hstage, Option.some.injEq] at hstep
    subst hstep
    refine ⟨hlinked, fun p hp => ?_, by simp [restart], by simp [restart], h.log⟩
    by_cases hpc : p = c
    · subst hpc
      constructor
      · simpa [restart, Countdowns.setItem] using hcsane.armed
      · intro _ hpending
        have htrig : (s.timers.item p).triggered = true := by
          simpa [restart, Countdowns.setItem, Countdown.pending, hnot] using hpending
        obtain ⟨t, ht, hle⟩ := hcsane.armed htrig
        refine ⟨t, ht, ?_⟩
        simp only [restart, Countdowns.setItem, Function.update_self]
        omega
      · simp [restart, Countdowns.setItem, hnot]
      · exact hcsane.calls
      · simp [restart]
      · simp [restart, Countdowns.setItem, hnot]
    · refine (h.sane p hp).away ?_ rfl rfl rfl le_rfl (by simp [hstage])
        (by simp [hstage, Ne.symm hpc]) (by simp [restart]) fun _ hahead => ?_
      · simp [restart, Countdowns.setItem, hpc]
      · refine hahead.imp_right fun hin => ?_
        simp only [Ahead, hstage] at hin
        exact ahead_next h.linked hc hin rfl rfl
  | call =>
    simp only [step, hstage] at hstep
    split at hstep <;> cases hstep
    · refine ⟨hlinked, fun p hp => ?_, by simp [pass], by simp [pass], h.log⟩
      exact (h.sane p hp).away rfl rfl rfl rfl le_rfl (by simp [hstage]) (by simp [hstage])
        (by simp [pass]) fun _ _ => .inr (ahead_pass hp)
    · refine ⟨hlinked, fun p hp => ?_, by simp, by simp, h.log⟩
      refine (h.sane p hp).away rfl rfl rfl rfl le_rfl ?_ ?_ ?_ ?_ <;> simp [hstage, Ahead]
  | ready =>
    simp only [step, hstage, Option.some.injEq] at hstep
    subst hstep
    refine ⟨hlinked, fun p hp => ?_, by simp [pass], by simp [pass], h.log⟩
    exact (h.sane p hp).away rfl rfl rfl rfl le_rfl (by simp [hstage]) (by simp [hstage])
      (by simp [pass]) fun _ _ => .inr (ahead_pass hp)
  | blocked => simp [step, hstage] at hstep
  | start =>
    simp only [step, hstage, Option.some.injEq] at hstep
    subst hstep
    simp only [Heeds, hstage] at hheeds
    refine ⟨hlinked, fun p hp => ?_, by simp, by simp, h.log⟩
    refine (h.sane p hp).away rfl rfl rfl rfl le_rfl (by simp [hstage]) (by simp [hstage])
      (by simp) ?_
    simp [hheeds p hp]
  | enter =>
    simp only [step, hstage, Option.some.injEq] at hstep
    subst hstep
    simp only [Heeds, hstage] at hheeds
    refine ⟨hlinked, fun p hp => ?_, by simp, fun _ p hp hexp => ?_, h.log⟩
    · refine (h.sane p hp).away rfl rfl rfl rfl le_rfl ?_ ?_ ?_ ?_ <;> simp [hstage, Ahead]
    · rcases hheeds with hopen | hreal
      · exact hopen
      · have hkept := (h.sane p hp).kept hexp
        simpa [hreal p hp hexp, Ahead, hstage] using hkept

/-- A clock interrupt lets timers expire whose time has passed, and opens the barrier for
them. -/
lemma tick_truthful (hheeds : s.Heeds .interrupt) : s.tick.Truthful := by
  have hlinked : s.tick.Linked := by
    obtain ⟨hnodup, hcursor⟩ := h.linked
    exact ⟨by simpa using hnodup, by simpa using hcursor⟩
  have hahead : ∀ p, s.Ahead p ↔ s.tick.Ahead p := by
    intro p
    simp [Ahead, Countdowns.suffix]
  by_cases hcb : s.clock.tick.callback .timers = true
  · have hnow : s.tick.clock.now = s.clock.tick.now := by simp [tick, hcb, timerCb]
    have hitem : ∀ p ∈ s.timers.list, s.tick.timers.item p =
        if (s.timers.item p).due s.clock.tick.now then (s.timers.item p).expire
        else s.timers.item p := by
      intro p hp
      simp [tick, hcb, timerCb, Countdowns.visitAll_item, hp]
    have hopen : ∀ p ∈ s.timers.list, (s.timers.item p).due s.clock.tick.now = true →
        s.stage ≠ .start → s.tick.isOpen = true := by
      intro p hp hdue hstart
      simp only [tick, hcb, if_true, opens, timerCb, Bool.or_eq_true, Bool.and_eq_true]
      right
      exact ⟨List.any_eq_true.mpr ⟨p, hp, hdue⟩, by simpa using hstart⟩
    have hstays : s.isOpen = true → s.tick.isOpen = true := by
      intro hopen
      simp [tick, hcb, hopen]
    have harmed : s.tick.hist.armed = s.hist.armed := by simp [tick, hcb]
    have hcalls : s.tick.hist.calls = s.hist.calls := by simp [tick, hcb]
    have hexp : ∀ p ∈ s.timers.list, s.tick.hist.expiries p =
        s.hist.expiries p + ((s.timers.item p).due s.clock.tick.now).toNat := by
      intro p hp
      simp [tick, hcb, hp]
    refine ⟨hlinked, fun p hp => ?_, ?_, ?_, ?_⟩
    · rw [tick_list] at hp
      have hsane := h.sane p hp
      cases hdue : (s.timers.item p).due s.clock.tick.now with
      | true =>
        -- the timer expires now
        have hitem' := hitem p hp
        rw [if_pos hdue] at hitem'
        have hre : s.stage ≠ .rearm p := by
          intro hre
          simp [Heeds, hre, hdue] at hheeds
        simp only [Countdown.due, Bool.and_eq_true, decide_eq_true_eq] at hdue
        obtain ⟨t, ht, hle⟩ := hsane.counting hre hdue.1
        have hexp' := hexp p hp
        rw [Countdown.due, hdue.1, decide_eq_true hdue.2] at hexp'
        simp only [Bool.and_self, Bool.toNat_true] at hexp'
        have hbefore := hsane.calls
        constructor
        · rw [hitem', harmed, hnow]
          intro htrig
          obtain ⟨t, ht, hle⟩ := hsane.armed (by simp_all [Countdown.expire])
          exact ⟨t, ht, hle.trans s.clock.now_le_tick⟩
        · simp [hitem', Countdown.expire, Countdown.pending]
        · rw [hitem', harmed, hnow, hcalls, hexp']
          intro _ _ _
          exact ⟨⟨t, ht, hle.trans hdue.2⟩, by omega⟩
        · rw [hcalls, hexp']
          omega
        · rw [tick_stage]
          exact fun hs => absurd hs hre
        · intro _
          right
          by_cases hstart : s.stage = .start
          · right
            simp [Ahead, hstart]
          · left
            exact hopen p hp (by simp [Countdown.due, hdue]) hstart
      | false =>
        refine hsane.frame ?_ ?_ ?_ ?_ ?_ ?_ ?_ ?_
        · simp [hitem p hp, hdue]
        · rw [harmed]
        · rw [hcalls]
        · simp [hexp p hp, hdue]
        · rw [hnow]
          exact s.clock.now_le_tick
        · simp
        · simp
        · intro _ hkept
          exact hkept.imp hstays (hahead p).mp
    · simpa [tick, hcb] using h.waits
    · rw [tick_stage, tick_list]
      intro hblocked p hp hexpired
      rw [hitem p hp] at hexpired
      split at hexpired
      · next hdue => exact hopen p hp hdue (by simp [hblocked])
      · exact hstays (h.blocked hblocked p hp hexpired)
    · simpa [tick, hcb] using h.log
  · have htick : s.tick = { s with clock := s.clock.tick } := by simp [tick, hcb]
    rw [htick]
    refine ⟨⟨h.linked.nodup, h.linked.cursor⟩, fun p hp => ?_, h.waits, h.blocked, h.log⟩
    exact (h.sane p hp).frame rfl rfl rfl rfl s.clock.now_le_tick id Iff.rfl fun _ hkept => hkept

/-- `resume_on_barriers` does not close the barrier while a callback runs. -/
lemma schedule_truthful (hheeds : s.Heeds .schedule)
    (hsusp : s.stage.suspended = true) (masked : Bool) :
    { s.resumeOnBarriers with masked := masked }.Truthful := by
  by_cases hopen : s.isOpen = true
  · have hcb : s.stage.inCallback = false := by
      cases hin : s.stage.inCallback with
      | false => rfl
      | true => simp [hheeds hin] at hopen
    have hstage : s.resumeOnBarriers.stage = .start ∨ s.resumeOnBarriers.stage = .ready := by
      cases hs : s.stage <;>
        simp_all [resumeOnBarriers, Stage.suspended, Stage.inCallback, h.waits]
    have hahead : ∀ p, { s.resumeOnBarriers with masked := masked }.Ahead p := by
      intro p
      dsimp only
      rcases hstage with hs | hs <;> rw [hs] <;> trivial
    refine ⟨⟨?_, ?_⟩, fun p hp => ?_, ?_, ?_, ?_⟩
    · simpa using h.linked.nodup
    · rcases hstage with hs | hs <;> simp [hs, Stage.cursor]
    · rw [resumeOnBarriers_timers] at hp
      refine (h.sane p hp).away ?_ ?_ ?_ ?_ ?_ ?_ ?_ ?_ ?_
      · simp
      · simp
      · simp
      · simp
      · simp [resumeOnBarriers, hopen]
      · rintro hs
        simp [hs, Stage.inCallback] at hcb
      · intro hs
        simp [hs, Stage.suspended] at hsusp
      · rcases hstage with hs | hs <;> simp [hs]
      · exact fun _ _ => .inr (hahead p)
    · rcases hstage with hs | hs <;> simp [hs]
    · rcases hstage with hs | hs <;> simp [hs]
    · simpa using h.log
  · have hsame : s.resumeOnBarriers = s := by simp [resumeOnBarriers, hopen]
    rw [hsame]
    refine ⟨⟨h.linked.nodup, h.linked.cursor⟩, fun p hp => ?_, h.waits, h.blocked, h.log⟩
    exact (h.sane p hp).frame rfl rfl rfl rfl le_rfl id Iff.rfl fun _ hkept => hkept

lemma set_truthful {start : Bool} (hheeds : s.Heeds (.set p start)) :
    (s.set p start).Truthful := by
  refine ⟨⟨h.linked.nodup, h.linked.cursor⟩, fun q hq => ?_, h.waits, ?_, h.log⟩
  · by_cases hqp : q = p
    · subst hqp
      have hsane := h.sane q hq
      cases start with
      | true =>
        constructor <;>
          simp [set, timerSet, Countdowns.set, Countdowns.setItem, Countdown.set,
            Nat.add_comm, hsane.calls]
      | false =>
        have hre := (hheeds rfl).2
        constructor <;>
          simp [set, timerSet, Countdowns.set, Countdowns.setItem, Countdown.set,
            Countdown.pending, hsane.calls, hre]
    · refine (h.sane q hq).frame ?_ ?_ rfl rfl le_rfl id Iff.rfl fun _ hkept => hkept
      · simp [set, timerSet, Countdowns.set, Countdowns.setItem, hqp]
      · simp [set, hqp]
  · intro hblocked q hq hexpired
    by_cases hqp : q = p
    · subst hqp
      cases start with
      | true =>
        simp [set, timerSet, Countdowns.set, Countdowns.setItem, Countdown.set] at hexpired
      | false => exact (hheeds rfl).1 hblocked
    · apply h.blocked hblocked q hq
      simpa [set, timerSet, Countdowns.set, Countdowns.setItem, hqp] using hexpired

lemma update_truthful {millisecs : Nat} {recursive : Bool}
    (hheeds : s.Heeds (.update p millisecs recursive)) :
    (s.update p millisecs recursive).Truthful := by
  by_cases hzero : millisecs = 0
  · have hsame : s.update p millisecs recursive = s := by
      simp [update, timerUpdate, Countdowns.update, hzero]
    rw [hsame]
    exact h
  · have hnow : (s.update p millisecs recursive).clock.now = s.clock.now := by
      simp only [update, timerUpdate, Countdowns.update, hzero, if_false]
      split_ifs <;> rfl
    have hother : ∀ q, q ≠ p →
        (s.update p millisecs recursive).timers.item q = s.timers.item q := by
      intro q hq
      simp [update, timerUpdate, Countdowns.update, hzero, Countdowns.setItem, hq]
    have hself : (s.update p millisecs recursive).timers.item p =
        { s.timers.item p with msecs := millisecs, recursive := recursive } := by
      simp [update, timerUpdate, Countdowns.update, hzero, Countdowns.setItem]
    have hahead : ∀ q, s.Ahead q ↔ (s.update p millisecs recursive).Ahead q := by
      intro q
      have hstage : (s.update p millisecs recursive).stage = s.stage := rfl
      simp [Ahead, Countdowns.suffix, hstage]
    refine ⟨⟨?_, ?_⟩, fun q hq => ?_, h.waits, ?_, h.log⟩
    · simpa using h.linked.nodup
    · rw [update_list]
      exact h.linked.cursor
    · rw [update_list] at hq
      have hsane := h.sane q hq
      by_cases hqp : q = p
      · subst hqp
        constructor
        · rw [hself, hnow]
          exact hsane.armed
        · rw [hself]
          intro hre hpending
          have hle := hheeds (.inl hpending)
          obtain ⟨t, ht, hsum⟩ := hsane.counting hre hpending
          exact ⟨t, ht, by dsimp only; omega⟩
        · rw [hself, hnow]
          intro hcb hexpired hreal
          have hle := hheeds (.inr ⟨hexpired, hcb⟩)
          obtain ⟨⟨t, ht, hsum⟩, hlt⟩ := hsane.real hcb hexpired hreal
          exact ⟨⟨t, ht, by dsimp only; omega⟩, hlt⟩
        · exact hsane.calls
        · rw [hself]
          exact hsane.rearmed
        · rw [hself, ← hahead]
          exact hsane.kept
      · exact hsane.frame (hother q hqp) rfl rfl rfl hnow.ge id Iff.rfl
          fun _ hkept => hkept.imp_right (hahead q).mp
    · intro hblocked q hq hexpired
      rw [update_list] at hq
      apply h.blocked hblocked q hq
      by_cases hqp : q = p
      · subst hqp
        simpa [hself] using hexpired
      · rwa [hother q hqp] at hexpired

end

/-- A timer stays ahead if the list from the cursor on only loses others. -/
lemma Ahead.keep (h : s.Ahead p) (hstage : s'.stage = s.stage)
    (hsuffix : ∀ c, s.stage.cursor = some c → p ∈ s.timers.suffix c → p ∈ s'.timers.suffix c)
    (htail : ∀ c, s.stage.cursor = some c → p ∈ (s.timers.suffix c).tail →
      p ∈ (s'.timers.suffix c).tail) : s'.Ahead p := by
  unfold Ahead at h ⊢
  rw [hstage]
  cases hs : s.stage with
  | scan cursor =>
    cases cursor with
    | none => simp [hs] at h
    | some c => exact hsuffix c (by simp [hs, Stage.cursor]) (by simpa [hs] using h)
  | callback c => exact hsuffix c (by simp [hs, Stage.cursor]) (by simpa [hs] using h)
  | rearm c => exact htail c (by simp [hs, Stage.cursor]) (by simpa [hs] using h)
  | start | ready => trivial
  | call | enter | blocked => simp [hs] at h

lemma create_truthful (h : s.Truthful) (hfresh : p ∉ s.timers.list) (millisecs : Nat)
    (recursive : Bool) : (s.create p millisecs recursive).Truthful := by
  have hne : ∀ q ∈ s.timers.list, q ≠ p := by
    rintro q hq rfl
    exact hfresh hq
  have hnow : (s.create p millisecs recursive).clock.now = s.clock.now := by
    simp only [create, timerCreate, Countdowns.create, Clock.addCb]
    split_ifs <;> rfl
  have hother : ∀ q, q ≠ p →
      (s.create p millisecs recursive).timers.item q = s.timers.item q := by
    intro q hq
    simp only [create, timerCreate, Countdowns.create]
    split_ifs <;> simp [Countdowns.setItem, hq]
  have hlist := create_list (s := s) p millisecs recursive
  have hmem : ∀ q ∈ s.timers.list, q ∈ (s.create p millisecs recursive).timers.list := by
    intro q hq
    rcases hlist with hlist | hlist <;> simp [hlist, hq]
  have hsuffix : ∀ c, s.stage.cursor = some c →
      (s.create p millisecs recursive).timers.suffix c = s.timers.suffix c := by
    intro c hc
    have hpc := (hne c (h.linked.cursor c hc)).symm
    unfold Countdowns.suffix
    rcases hlist with hlist | hlist
    · rw [hlist]
    · rw [hlist, List.dropWhile_cons_of_pos (by simpa using hpc)]
  have hnew : ∀ q ∈ (s.create p millisecs recursive).timers.list, q ∉ s.timers.list →
      (s.create p millisecs recursive).timers.item q =
        ⟨0, millisecs, recursive, false, false⟩ := by
    intro q hq hin
    revert hq
    simp only [create, timerCreate, Countdowns.create]
    split_ifs <;> simp +contextual [Countdowns.setItem, hin]
  have hold : ∀ q ∈ s.timers.list, (s.create p millisecs recursive).Sane q := by
    intro q hq
    refine (h.sane q hq).frame (hother q (hne q hq)) ?_ ?_ ?_ hnow.ge id Iff.rfl ?_
    · simp [create, hne q hq]
    · simp [create, hne q hq]
    · simp [create, hne q hq]
    · intro _ hkept
      refine hkept.imp_right fun hahead => hahead.keep rfl ?_ ?_
      · intro c hc hin
        rwa [hsuffix c hc]
      · intro c hc hin
        rwa [hsuffix c hc]
  refine ⟨⟨?_, fun c hc => hmem c (h.linked.cursor c hc)⟩, fun q hq => ?_, h.waits, ?_, h.log⟩
  · rcases hlist with hlist | hlist <;> simp [hlist, h.linked.nodup, hfresh]
  · by_cases hin : q ∈ s.timers.list
    · exact hold q hin
    · -- a new timer does not count
      have hitem := hnew q hq hin
      constructor
      · simp [hitem]
      · simp [hitem, Countdown.pending]
      · simp [hitem]
      · rcases eq_or_ne q p with rfl | hqp
        · simp [create]
        · rcases hlist with hlist | hlist <;> simp [hlist, hin, hqp] at hq
      · simp [hitem]
      · simp [hitem]
  · intro hblocked q hq hexpired
    by_cases hin : q ∈ s.timers.list
    · rw [hother q (hne q hin)] at hexpired
      exact h.blocked hblocked q hin hexpired
    · simp [hnew q hq hin] at hexpired

lemma done_truthful (h : s.Truthful) (hcursor : s.stage.cursor ≠ some p) :
    (s.done p).Truthful := by
  have hnow : (s.done p).clock.now = s.clock.now := by
    simp only [done, timerDone, Countdowns.done]
    split_ifs <;> rfl
  have hlist : (s.done p).timers.list = s.timers.list.filter (· != p) := by
    rw [done_list, h.linked.nodup.erase_eq_filter]
  have hsuffix : ∀ c, s.stage.cursor = some c →
      (s.done p).timers.suffix c = (s.timers.suffix c).filter (· != p) := by
    intro c hc
    have hne : c ≠ p := by
      rintro rfl
      exact hcursor hc
    rw [Countdowns.suffix, hlist, Countdowns.filter_dropWhile hne]
    rfl
  refine ⟨⟨?_, fun c hc => ?_⟩, fun q hq => ?_, h.waits, ?_, h.log⟩
  · exact h.linked.nodup.erase p
  · rw [hlist, List.mem_filter]
    refine ⟨h.linked.cursor c hc, ?_⟩
    have hne : c ≠ p := by
      rintro rfl
      exact hcursor hc
    simpa using hne
  · rw [hlist, List.mem_filter] at hq
    refine (h.sane q hq.1).frame rfl rfl rfl rfl hnow.ge id Iff.rfl fun _ hkept => ?_
    refine hkept.imp_right fun hahead => hahead.keep rfl ?_ ?_
    · intro c hc hin
      rw [hsuffix c hc, List.mem_filter]
      exact ⟨hin, hq.2⟩
    · intro c hc hin
      have hcmem := h.linked.cursor c hc
      have hne : c ≠ p := by
        rintro rfl
        exact hcursor hc
      rw [hsuffix c hc, Countdowns.suffix_eq_cons h.linked.nodup hcmem,
        List.filter_cons_of_pos (by simpa using hne), List.tail_cons, List.mem_filter]
      exact ⟨hin, hq.2⟩
  · intro hblocked q hq hexpired
    rw [hlist, List.mem_filter] at hq
    exact h.blocked hblocked q hq.1 hexpired

/-- Every action that keeps to the condition keeps the state truthful. -/
lemma exec_truthful (h : s.Truthful) {act : TimersAction} (hheeds : s.Heeds act)
    (hstep : s.exec act = some s') : s'.Truthful := by
  cases act with
  | run =>
    obtain ⟨s₁, hs₁, rfl⟩ := Option.map_eq_some_iff.mp hstep
    have h₁ := step_truthful h hheeds hs₁
    refine ⟨⟨h₁.linked.nodup, h₁.linked.cursor⟩, fun p hp => ?_, h₁.waits, h₁.blocked, h₁.log⟩
    exact (h₁.sane p hp).frame rfl rfl rfl rfl le_rfl id Iff.rfl fun _ hkept => hkept
  | schedule =>
    simp only [exec] at hstep
    split at hstep
    · next hsusp =>
        cases hstep
        exact schedule_truthful h hheeds hsusp _
    · contradiction
  | interrupt =>
    simp only [exec] at hstep
    split at hstep
    · contradiction
    · cases hstep
      exact tick_truthful h hheeds
  | request msecs client =>
    cases hstep
    refine ⟨⟨h.linked.nodup, h.linked.cursor⟩, fun p hp => ?_, h.waits, h.blocked, h.log⟩
    exact (h.sane p hp).frame rfl rfl rfl rfl le_rfl id Iff.rfl fun _ hkept => hkept
  | create p millisecs recursive =>
    simp only [exec] at hstep
    split at hstep
    · next hfresh =>
        cases hstep
        exact create_truthful h hfresh.2 millisecs recursive
    · contradiction
  | set p start =>
    simp only [exec] at hstep
    split at hstep
    · cases hstep
      exact set_truthful h hheeds
    · contradiction
  | update p millisecs recursive =>
    simp only [exec] at hstep
    split at hstep
    · cases hstep
      exact update_truthful h hheeds
    · contradiction
  | done p =>
    simp only [exec] at hstep
    split at hstep
    · next hnot =>
        cases hstep
        exact done_truthful h hnot.2.2
    · contradiction

lemma Starts.truthful (h : s.Starts) : s.Truthful := by
  refine ⟨h.linked, fun p hp => ?_, ?_, ?_, ?_⟩
  · simp [h.timers, Countdowns.init] at hp
  · simp [h.stage]
  · simp [h.stage]
  · simp [h.hist, TimersHistory.init]

/-- In every run whose actions keep to the condition, every callback has been called for a
timer that was started, or called back, at least its period before and not stopped since;
no timer has been called back more often than it has expired; and while the thread is
blocked no timer is marked expired unless the barrier is open. -/
theorem callback_after_expiry {s₀ s : TimersThread} (h₀ : s₀.Starts)
    (hrun : PartialRuns exec (fun s act => s.Heeds act) s₀ s) :
    (∀ i ∈ s.hist.log, ∃ t, i.armed = some t ∧ t + i.msecs ≤ i.time) ∧
      (∀ p ∈ s.timers.list, s.hist.calls p ≤ s.hist.expiries p) ∧
      (s.stage = .blocked → ∀ p ∈ s.timers.list, (s.timers.item p).expired = true →
        s.isOpen = true) := by
  have htruthful := PartialRuns.invariant (P := Truthful)
    (fun s act s' h hheeds hstep => exec_truthful h hheeds hstep) hrun h₀.truthful
  exact ⟨htruthful.log, fun p hp => (htruthful.sane p hp).calls, htruthful.blocked⟩

end TimersThread

instance (s : TimersThread) (act : TimersAction) : Decidable (s.Heeds act) := by
  unfold TimersThread.Heeds
  cases act <;> dsimp only <;> try infer_instance
  all_goals split <;> infer_instance

/-- The callback of a timer of ten milliseconds has been called once, for one expiry. -/
theorem callback_after_expiry_oneTimer :
    ∃ s, checkedRun TimersThread.exec (fun s act => s.Heeds act) oneTimer untimed = some s ∧
      s.hist.log = [⟨1, some 0, 10, 10⟩] ∧ s.hist.calls 1 = 1 ∧
      s.hist.calls 1 ≤ s.hist.expiries 1 := by
  obtain ⟨s, hs, hlog, hcalls, hmem⟩ : ∃ s ∈ checkedRun TimersThread.exec
      (fun s act => s.Heeds act) oneTimer untimed,
      s.hist.log = [⟨1, some 0, 10, 10⟩] ∧ s.hist.calls 1 = 1 ∧ 1 ∈ s.timers.list := by decide
  have hafter := TimersThread.callback_after_expiry ⟨rfl, rfl, rfl, rfl, rfl⟩
    (PartialRuns.of_checkedRun _ (PartialRuns.refl untimed) hs)
  exact ⟨s, hs, hlog, hcalls, hafter.2.1 1 hmem⟩

/-- One timer is stopped, the other one expires. -/
def stoppedTimer : List TimersAction :=
  [.run, .run, .run, .create 1 10 false, .create 2 20 false, .set 1 true, .set 2 false,
    .interrupt, .schedule, .run, .run]

/-- The callback of a timer that has been stopped and never started is called; and a stopped
timer is marked expired while the thread is blocked on its closed barrier. -/
theorem callback_of_stopped :
    (∃ s, PartialRuns TimersThread.exec (fun _ _ => True) untimed s ∧
      s.hist.log = [⟨2, none, 20, 20⟩]) ∧
    ∃ s, PartialRuns TimersThread.exec (fun _ _ => True) untimed s ∧ s.stage = .blocked ∧
      2 ∈ s.timers.list ∧ (s.timers.item 2).expired = true ∧ s.isOpen = false := by
  constructor
  · obtain ⟨s, hs, hlog⟩ : ∃ s ∈ checkedRun TimersThread.exec (fun _ _ => True) stoppedTimer
        untimed, s.hist.log = [⟨2, none, 20, 20⟩] := by decide
    exact ⟨s, PartialRuns.of_checkedRun _ (PartialRuns.refl untimed) hs, hlog⟩
  · obtain ⟨s, hs, hlast⟩ : ∃ s ∈ checkedRun TimersThread.exec (fun _ _ => True)
        (stoppedTimer.take 7) untimed, s.stage = .blocked ∧ 2 ∈ s.timers.list ∧
        (s.timers.item 2).expired = true ∧ s.isOpen = false := by decide
    exact ⟨s, PartialRuns.of_checkedRun _ (PartialRuns.refl untimed) hs, hlast⟩

end DiegOS.Kernel
